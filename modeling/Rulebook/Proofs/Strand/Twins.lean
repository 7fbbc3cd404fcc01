import Mathlib.Data.List.Forall2
import Rulebook.Strand.Loop

/-!
Strands that do the same.

Two strands are twins if in related worlds they do the same, and what they make of the worlds is
related again.  So it does not matter to a strand that is its own twin which of the related worlds
it finds whenever it gets its turn: loops of twins go the same way, whatever happens to their worlds
between the turns (`Loop.Twins.step`, `Loop.Twins.ofWorld`).
-/

namespace Rulebook

namespace Strand

variable {σ ρ : Type} {R : σ → σ → Prop}

/-- Two strands that do the same in related worlds, and keep the worlds related. -/
inductive Twins (R : σ → σ → Prop) : Strand σ ρ → Strand σ ρ → Prop where
  | done (outcome : ρ) : Twins R (.done outcome) (.done outcome)
  | read {next next' : σ → Strand σ ρ}
      (goesOn : ∀ world world', R world world' → Twins R (next world) (next' world')) :
      Twins R (.read next) (.read next')
  | write {world world' : σ} {next next' : Strand σ ρ} (related : R world world')
      (goesOn : Twins R next next') : Twins R (.write world next) (.write world' next')
  | pause {next next' : Strand σ ρ} (goesOn : Twins R next next') :
      Twins R (.pause next) (.pause next')
  | spawn {child child' : Strand σ ρ} {next next' : Nat → Strand σ ρ}
      (children : Twins R child child') (goesOn : ∀ number, Twins R (next number) (next' number)) :
      Twins R (.spawn child next) (.spawn child' next')
  | watch (strand : Nat) {change change' : ρ → σ → σ} {next next' : Strand σ ρ}
      (changes : ∀ outcome world world', R world world' →
        R (change outcome world) (change' outcome world'))
      (goesOn : Twins R next next') :
      Twins R (.watch strand change next) (.watch strand change' next')
  | await (strands : List Nat) (enough : List (Option ρ) → Bool)
      {next next' : List (Option ρ) → Strand σ ρ}
      (goesOn : ∀ known, Twins R (next known) (next' known)) :
      Twins R (.await strands enough next) (.await strands enough next')

/-- Hearers that do the same with an outcome. -/
inductive Hearer.Twins (R : σ → σ → Prop) : Hearer σ ρ → Hearer σ ρ → Prop where
  | world {change change' : ρ → σ → σ}
      (changes : ∀ outcome world world', R world world' →
        R (change outcome world) (change' outcome world')) :
      Hearer.Twins R (.world change) (.world change')
  | wait (number place : Nat) : Hearer.Twins R (.wait number place) (.wait number place)

/-- Things due that come to the same. -/
inductive Event.Twins (R : σ → σ → Prop) : Event σ ρ → Event σ ρ → Prop where
  | turn (strand : Nat) {rest rest' : Strand σ ρ} (goesOn : Strand.Twins R rest rest') :
      Event.Twins R (.turn strand rest) (.turn strand rest')
  | news {hearer hearer' : Hearer σ ρ} (hears : Hearer.Twins R hearer hearer') (outcome : ρ) :
      Event.Twins R (.news hearer outcome) (.news hearer' outcome)

/-- Records of strands with the same outcome, or with hearers that do the same. -/
structure Record.Twins (R : σ → σ → Prop) (record record' : Record σ ρ) : Prop where
  outcome : record.outcome = record'.outcome
  hearers : List.Forall₂ (Hearer.Twins R) record.hearers record'.hearers

/-- Waits for the same that go on in the same way, or none. -/
inductive Wait.Twins (R : σ → σ → Prop) : Option (Wait σ ρ) → Option (Wait σ ρ) → Prop where
  | none : Wait.Twins R none none
  | some (strand : Nat) (strands : List Nat) (known : List (Option ρ))
      (enough : List (Option ρ) → Bool) {next next' : List (Option ρ) → Strand σ ρ}
      (goesOn : ∀ known, Strand.Twins R (next known) (next' known)) :
      Wait.Twins R (some ⟨strand, strands, known, enough, next⟩)
        (some ⟨strand, strands, known, enough, next'⟩)

/-- Loops in which the same is due, in related worlds. -/
structure Loop.Twins (R : σ → σ → Prop) (loop loop' : Loop σ ρ) : Prop where
  world : R loop.world loop'.world
  queue : List.Forall₂ (Event.Twins R) loop.queue loop'.queue
  records : List.Forall₂ (Record.Twins R) loop.records loop'.records
  waits : List.Forall₂ (Wait.Twins R) loop.waits loop'.waits

/-! ### Lists of twins -/

section Lists

variable {α : Type} {S : α → α → Prop} {items others : List α}

theorem rel_getElem? (h : List.Forall₂ S items others) (place : Nat) :
    Option.Rel S items[place]? others[place]? := by
  induction h generalizing place with
  | nil => exact .none
  | cons hfirst _ ih =>
      cases place with
      | zero => exact .some hfirst
      | succ place => exact ih place

theorem forall₂_set (h : List.Forall₂ S items others) (place : Nat) {item other : α}
    (hitem : S item other) : List.Forall₂ S (items.set place item) (others.set place other) := by
  induction h generalizing place with
  | nil => exact .nil
  | cons hfirst hrest ih =>
      cases place with
      | zero => exact .cons hitem hrest
      | succ place => exact .cons hfirst (ih place)

theorem forall₂_concat (h : List.Forall₂ S items others) {item other : α} (hitem : S item other) :
    List.Forall₂ S (items ++ [item]) (others ++ [other]) :=
  List.rel_append h (.cons hitem .nil)

end Lists

namespace Loop.Twins

variable {loop loop' : Loop σ ρ}

theorem ofWorld (h : loop.Twins R loop') {world world' : σ} (hworld : R world world') :
    Loop.Twins R { loop with world } { loop' with world := world' } :=
  ⟨hworld, h.queue, h.records, h.waits⟩

theorem enqueue (h : loop.Twins R loop') {events events' : List (Event σ ρ)}
    (hevents : List.Forall₂ (Event.Twins R) events events') :
    (loop.enqueue events).Twins R (loop'.enqueue events') :=
  ⟨h.world, List.rel_append h.queue hevents, h.records, h.waits⟩

theorem outcome?_eq (h : loop.Twins R loop') (strand : Nat) :
    loop.outcome? strand = loop'.outcome? strand := by
  have hrecord := rel_getElem? h.records strand
  unfold outcome?
  generalize loop.records[strand]? = found, loop'.records[strand]? = found' at hrecord
  cases hrecord with
  | none => rfl
  | some hrecord => exact hrecord.outcome

theorem finish (h : loop.Twins R loop') (strand : Nat) (outcome : ρ) :
    (loop.finish strand outcome).Twins R (loop'.finish strand outcome) := by
  refine ⟨h.world, List.rel_append h.queue ?_, forall₂_set h.records strand ⟨rfl, .nil⟩, h.waits⟩
  rw [List.forall₂_map_left_iff, List.forall₂_map_right_iff]
  have hhearers : List.Forall₂ (Hearer.Twins R)
      ((loop.records[strand]?.map Record.hearers).getD [])
      ((loop'.records[strand]?.map Record.hearers).getD []) := by
    have hrecord := rel_getElem? h.records strand
    generalize loop.records[strand]? = found, loop'.records[strand]? = found' at hrecord
    cases hrecord with
    | none => exact .nil
    | some hrecord => exact hrecord.hearers
  exact hhearers.imp fun _ _ hhearer => .news hhearer outcome

theorem add (h : loop.Twins R loop') {child child' : Strand σ ρ}
    (hchild : Strand.Twins R child child') : (loop.add child).Twins R (loop'.add child') where
  world := h.world
  queue := forall₂_concat h.queue (h.records.length_eq ▸ .turn _ hchild)
  records := forall₂_concat h.records ⟨rfl, .nil⟩
  waits := h.waits

theorem listen (h : loop.Twins R loop') (strand : Nat) {hearer hearer' : Hearer σ ρ}
    (hhearer : Hearer.Twins R hearer hearer') :
    (loop.listen strand hearer).Twins R (loop'.listen strand hearer') := by
  have hrecord := rel_getElem? h.records strand
  unfold Loop.listen
  generalize loop.records[strand]? = found, loop'.records[strand]? = found' at hrecord
  cases hrecord with
  | none => exact h
  | @some record record' hrecord =>
      obtain ⟨outcome, hearers⟩ := record
      obtain ⟨_, hearers'⟩ := record'
      obtain ⟨rfl, hhearers⟩ := hrecord
      cases outcome with
      | some outcome => exact h.enqueue (.cons (.news hhearer outcome) .nil)
      | none =>
          refine ⟨h.world, h.queue, forall₂_set h.records strand ⟨rfl, ?_⟩, h.waits⟩
          exact forall₂_concat hhearers hhearer

theorem listenEach (h : loop.Twins R loop') (number : Nat) (strands : List (Nat × Nat)) :
    (Loop.listenEach number strands loop).Twins R (Loop.listenEach number strands loop') := by
  induction strands generalizing loop loop' with
  | nil => exact h
  | cons entry rest ih =>
      obtain ⟨strand, place⟩ := entry
      rw [Loop.listenEach, Loop.listenEach, h.outcome?_eq strand]
      apply ih
      split
      · exact h
      · exact h.listen strand (.wait number place)

theorem suspend (h : loop.Twins R loop') (strand : Nat) (strands : List Nat)
    (known : List (Option ρ)) (enough : List (Option ρ) → Bool)
    {next next' : List (Option ρ) → Strand σ ρ}
    (hnext : ∀ known, Strand.Twins R (next known) (next' known)) :
    (loop.suspend ⟨strand, strands, known, enough, next⟩).Twins R
      (loop'.suspend ⟨strand, strands, known, enough, next'⟩) := by
  unfold Loop.suspend
  rw [h.waits.length_eq]
  refine Loop.Twins.listenEach ?_ _ _
  refine ⟨h.world, h.queue, h.records, forall₂_concat h.waits ?_⟩
  exact .some strand strands known enough hnext

/-- Twins have their turn. -/
theorem follow (h : loop.Twins R loop') (number : Nat) {strand strand' : Strand σ ρ}
    (hstrand : Strand.Twins R strand strand') :
    (Loop.follow number strand loop).Twins R (Loop.follow number strand' loop') := by
  induction hstrand generalizing loop loop' with
  | done outcome => exact h.finish number outcome
  | read _ ih => exact ih _ _ h.world h
  | write hrelated _ ih => exact ih (h.ofWorld hrelated)
  | pause hnext _ => exact h.enqueue (.cons (.turn number hnext) .nil)
  | spawn hchild _ _ ih =>
      rw [Loop.follow, Loop.follow, h.records.length_eq]
      exact ih _ (h.add hchild)
  | watch strand hchanges _ ih => exact ih (h.listen strand (.world hchanges))
  | await strands enough hnext ih =>
      have hknown : strands.map loop.outcome? = strands.map loop'.outcome? :=
        List.map_congr_left fun strand _ => h.outcome?_eq strand
      rw [Loop.follow, Loop.follow, hknown]
      split
      · exact ih _ h
      · exact h.suspend number strands _ enough hnext

theorem hear (h : loop.Twins R loop') {hearer hearer' : Hearer σ ρ}
    (hhearer : Hearer.Twins R hearer hearer') (outcome : ρ) :
    (Loop.hear hearer outcome loop).Twins R (Loop.hear hearer' outcome loop') := by
  cases hhearer with
  | world hchanges => exact h.ofWorld (hchanges outcome _ _ h.world)
  | wait number place =>
      have hwait := rel_getElem? h.waits number
      unfold Loop.hear
      dsimp only
      generalize loop.waits[number]? = found, loop'.waits[number]? = found' at hwait
      cases hwait with
      | none => exact h
      | some hwait =>
          cases hwait with
          | none => exact h
          | some strand strands known enough hnext =>
              dsimp only
              split
              · refine ⟨h.world, forall₂_concat h.queue (.turn strand (hnext _)), h.records, ?_⟩
                exact forall₂_set h.waits number .none
              · refine ⟨h.world, h.queue, h.records, ?_⟩
                exact forall₂_set h.waits number (.some strand strands _ enough hnext)

/-- What is due first happens in both loops, if anything is due. -/
theorem step (h : loop.Twins R loop') : Option.Rel (Loop.Twins R) loop.step loop'.step := by
  have hqueue := h.queue
  unfold Loop.step
  generalize hfirst : loop.queue = queue, hsecond : loop'.queue = queue' at hqueue
  cases hqueue with
  | nil => exact .none
  | cons hevent hrest =>
      have htail := fun {queue queue'} (hqueue : List.Forall₂ (Event.Twins R) queue queue') =>
        (⟨h.world, hqueue, h.records, h.waits⟩ :
          Loop.Twins R { loop with queue } { loop' with queue := queue' })
      cases hevent with
      | turn strand hstrand => exact .some ((htail hrest).follow strand hstrand)
      | news hhearer outcome => exact .some ((htail hrest).hear hhearer outcome)

/-- Loops in which the same is due go the same way. -/
theorem run (h : loop.Twins R loop') (turns : Nat) : (loop.run turns).Twins R (loop'.run turns) := by
  induction turns generalizing loop loop' with
  | zero => exact h
  | succ turns ih =>
      have hstep := h.step
      rw [Loop.run, Loop.run]
      generalize loop.step = next, loop'.step = next' at hstep
      cases hstep with
      | none => exact h
      | some hnext => exact ih hnext

theorem start {world world' : σ} (hworld : R world world') {strand strand' : Strand σ ρ}
    (hstrand : Strand.Twins R strand strand') :
    (Loop.start world strand).Twins R (Loop.start world' strand') :=
  ⟨hworld, .cons (.turn 0 hstrand) .nil, .cons ⟨rfl, .nil⟩ .nil, .nil⟩

end Loop.Twins

end Strand

end Rulebook
