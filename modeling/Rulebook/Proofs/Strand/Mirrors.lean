import Mathlib.Data.List.Forall2
import Rulebook.Proofs.Strand.Turns
import Rulebook.Proofs.Strand.Twins

/-!
Strands that are mirrored.

A loop is the image of another one if it does the same in a world of its own: strands and waits may
have other numbers there, and the first loop may make steps aside that leave the image of its world
as it is.  One strand in each loop is the head, whose outcome nobody in the image hears of; in the
first loop there may be strands below the head that wait for it, and do nothing that has an image
when they go on.  What happens in one loop happens in the other (`Loop.Mirrors.step`), so at the end
the worlds belong together (`Loop.Mirrors.run`), unless a strand was lost on the way.
-/

namespace Rulebook

namespace Strand

/-- How a loop is mirrored in another one. -/
structure Mirror (σ τ ρ : Type) where
  /-- The worlds that belong together. -/
  related : σ → τ → Prop
  /-- How many strands there are below the head, and how many waits of theirs. -/
  shift : Nat
  /-- The outcomes of the heads that belong together. -/
  tips : ρ → ρ → Prop
  /-- What a strand below the head comes to when it hears of the outcome of the head. -/
  echo : ρ → ρ → Prop
  /-- What need not be mirrored if it is left to do of the strand of a number. -/
  lost : Nat → Strand σ ρ → Prop

variable {σ τ ρ : Type} {mirror : Mirror σ τ ρ}

/-- A strand that does the same as its image; it is known whether they are the heads. -/
inductive Mirrors (mirror : Mirror σ τ ρ) : Bool → Strand σ ρ → Strand τ ρ → Prop where
  | done (outcome : ρ) : Mirrors mirror false (.done outcome) (.done outcome)
  | tip {outcome outcome' : ρ} (h : mirror.tips outcome outcome') :
      Mirrors mirror true (.done outcome) (.done outcome')
  | lost {strand : Strand σ ρ} (h : mirror.lost mirror.shift strand) (strand' : Strand τ ρ) :
      Mirrors mirror true strand strand'
  | aside {head : Bool} {change : σ → σ} {next : Strand σ ρ} {strand' : Strand τ ρ}
      (keeps : ∀ world world', mirror.related world world' → mirror.related (change world) world')
      (goesOn : Mirrors mirror head next strand') :
      Mirrors mirror head (.read fun world => .write (change world) next) strand'
  | read {head : Bool} {next : σ → Strand σ ρ} {next' : τ → Strand τ ρ}
      (goesOn : ∀ world world', mirror.related world world' →
        Mirrors mirror head (next world) (next' world')) :
      Mirrors mirror head (.read next) (.read next')
  | write {head : Bool} {world : σ} {world' : τ} {next : Strand σ ρ} {next' : Strand τ ρ}
      (related : mirror.related world world') (goesOn : Mirrors mirror head next next') :
      Mirrors mirror head (.write world next) (.write world' next')
  | pause {head : Bool} {next : Strand σ ρ} {next' : Strand τ ρ}
      (goesOn : Mirrors mirror head next next') : Mirrors mirror head (.pause next) (.pause next')
  | spawn {head : Bool} {child : Strand σ ρ} {child' : Strand τ ρ} {next : Nat → Strand σ ρ}
      {next' : Nat → Strand τ ρ} (children : Mirrors mirror false child child')
      (goesOn : ∀ number, number ≠ 0 →
        Mirrors mirror head (next (number + mirror.shift)) (next' number)) :
      Mirrors mirror head (.spawn child next) (.spawn child' next')
  | watch {head : Bool} {strand strand' : Nat} {change : ρ → σ → σ} {change' : ρ → τ → τ}
      {next : Strand σ ρ} {next' : Strand τ ρ} (number : strand = strand' + mirror.shift)
      (shared : strand' ≠ 0)
      (changes : ∀ outcome world world', mirror.related world world' →
        mirror.related (change outcome world) (change' outcome world'))
      (goesOn : Mirrors mirror head next next') :
      Mirrors mirror head (.watch strand change next) (.watch strand' change' next')
  | await {head : Bool} {strands strands' : List Nat} {enough : List (Option ρ) → Bool}
      {next : List (Option ρ) → Strand σ ρ} {next' : List (Option ρ) → Strand τ ρ}
      (numbers : strands = strands'.map (· + mirror.shift))
      (shared : ∀ strand ∈ strands', strand ≠ 0)
      (goesOn : ∀ known, known.length = strands'.length →
        Mirrors mirror head (next known) (next' known)) :
      Mirrors mirror head (.await strands enough next) (.await strands' enough next')

/-- What a strand below the head does when it goes on: nothing that has an image. -/
inductive Trails (mirror : Mirror σ τ ρ) (outcome : ρ) : Strand σ ρ → Prop where
  | done {last : ρ} (h : mirror.echo outcome last) : Trails mirror outcome (.done last)
  | aside {change : σ → σ} {next : Strand σ ρ}
      (keeps : ∀ world world', mirror.related world world' → mirror.related (change world) world')
      (goesOn : Trails mirror outcome next) :
      Trails mirror outcome (.read fun world => .write (change world) next)

/-- Is it the turn of a strand below the head, or news for such a strand? -/
def Event.isBelow (shift : Nat) : Event σ ρ → Bool
  | .turn strand _ => strand < shift
  | .news (.wait number _) _ => number < shift
  | .news (.world _) _ => false

/-- Hearers that do the same with an outcome. -/
inductive Hearer.Mirrors (mirror : Mirror σ τ ρ) : Hearer σ ρ → Hearer τ ρ → Prop where
  | world {change : ρ → σ → σ} {change' : ρ → τ → τ}
      (changes : ∀ outcome world world', mirror.related world world' →
        mirror.related (change outcome world) (change' outcome world')) :
      Hearer.Mirrors mirror (.world change) (.world change')
  | wait (number place : Nat) :
      Hearer.Mirrors mirror (.wait (number + mirror.shift) place) (.wait number place)

/-- Things due that come to the same. -/
inductive Event.Mirrors (mirror : Mirror σ τ ρ) : Event σ ρ → Event τ ρ → Prop where
  | turn (strand : Nat) {rest : Strand σ ρ} {rest' : Strand τ ρ}
      (goesOn : Strand.Mirrors mirror (strand == 0) rest rest') :
      Event.Mirrors mirror (.turn (strand + mirror.shift) rest) (.turn strand rest')
  | news {hearer : Hearer σ ρ} {hearer' : Hearer τ ρ} (hears : Hearer.Mirrors mirror hearer hearer')
      (outcome : ρ) : Event.Mirrors mirror (.news hearer outcome) (.news hearer' outcome)

/-- Records of strands with the same outcome, or with hearers that do the same. -/
structure Record.Mirrors (mirror : Mirror σ τ ρ) (record : Record σ ρ) (record' : Record τ ρ) :
    Prop where
  outcome : record.outcome = record'.outcome
  hearers : List.Forall₂ (Hearer.Mirrors mirror) record.hearers record'.hearers

/-- Waits for the same that go on in the same way, or none. -/
inductive Wait.Mirrors (mirror : Mirror σ τ ρ) :
    Option (Wait σ ρ) → Option (Wait τ ρ) → Prop where
  | none : Wait.Mirrors mirror none none
  | some (strand : Nat) {strands strands' : List Nat} {known : List (Option ρ)}
      (enough : List (Option ρ) → Bool) {next : List (Option ρ) → Strand σ ρ}
      {next' : List (Option ρ) → Strand τ ρ} (length : known.length = strands'.length)
      (goesOn : ∀ known, known.length = strands'.length →
        Strand.Mirrors mirror (strand == 0) (next known) (next' known)) :
      Wait.Mirrors mirror (some ⟨strand + mirror.shift, strands, known, enough, next⟩)
        (some ⟨strand, strands', known, enough, next'⟩)

/-! ### Lists that are shifted -/

section Lists

variable {α β : Type} {related : α → β → Prop}

/-- From some place on, the items of a list belong to those that stand further on in another. -/
structure Shifted (related : α → β → Prop) (shift first : Nat) (items : List α)
    (others : List β) : Prop where
  length : items.length = others.length + shift
  each : ∀ place, first ≤ place → Option.Rel related items[place + shift]? others[place]?

variable {shift first : Nat} {items : List α} {others : List β}

theorem Shifted.set (h : Shifted related shift first items others) (place : Nat) {item : α}
    {other : β} (hitem : first ≤ place → related item other) :
    Shifted related shift first (items.set (place + shift) item) (others.set place other) := by
  refine ⟨by rw [List.length_set, List.length_set, h.length], fun found hfound => ?_⟩
  have hlength := h.length
  by_cases hsame : place = found
  · subst hsame
    by_cases hlt : place < others.length
    · rw [List.getElem?_set_self hlt, List.getElem?_set_self (by omega)]
      exact .some (hitem hfound)
    · rw [List.getElem?_eq_none (by simp; omega), List.getElem?_eq_none (by simp; omega)]
      exact .none
  · rw [List.getElem?_set_ne hsame, List.getElem?_set_ne (by omega)]
    exact h.each found hfound

/-- What stands before the shifted items may be replaced. -/
theorem Shifted.set_left (h : Shifted related shift first items others) {place : Nat}
    (hplace : place < first + shift) (item : α) :
    Shifted related shift first (items.set place item) others := by
  refine ⟨by rw [List.length_set, h.length], fun found hfound => ?_⟩
  rw [List.getElem?_set_ne (by omega)]
  exact h.each found hfound

theorem Shifted.concat (h : Shifted related shift first items others) {item : α} {other : β}
    (hitem : related item other) :
    Shifted related shift first (items ++ [item]) (others ++ [other]) := by
  refine ⟨by simp [h.length]; omega, fun found hfound => ?_⟩
  have hlength := h.length
  rcases Nat.lt_trichotomy found others.length with hlt | rfl | hgt
  · rw [List.getElem?_append_left hlt, List.getElem?_append_left (by omega)]
    exact h.each found hfound
  · rw [List.getElem?_concat_length, ← hlength, List.getElem?_concat_length]
    exact .some hitem
  · rw [List.getElem?_eq_none (by simp; omega), List.getElem?_eq_none (by simp; omega)]
    exact .none

end Lists

/-! ### Queues -/

theorem Event.Mirrors.isBelow_eq_false {event : Event σ ρ} {event' : Event τ ρ}
    (h : Event.Mirrors mirror event event') : event.isBelow mirror.shift = false := by
  cases h with
  | turn strand goesOn => simp [Event.isBelow]
  | news hears outcome =>
      cases hears with
      | world changes => rfl
      | wait number place => simp [Event.isBelow]

section Queue

variable {queue events : List (Event σ ρ)} {queue' events' : List (Event τ ρ)}

/-- What has an image is not below the head. -/
theorem isBelow_eq_false (hevents : List.Forall₂ (Event.Mirrors mirror) events events') :
    ∀ event ∈ events, event.isBelow mirror.shift = false := by
  induction hevents with
  | nil => exact List.forall_mem_nil _
  | cons hfirst _ ih => exact List.forall_mem_cons.2 ⟨hfirst.isBelow_eq_false, ih⟩

theorem mem_of_isBelow (hevents : List.Forall₂ (Event.Mirrors mirror) events events')
    {event : Event σ ρ} (hevent : event ∈ queue ++ events)
    (hbelow : event.isBelow mirror.shift = true) : event ∈ queue := by
  rcases List.mem_append.1 hevent with hold | hnew
  · exact hold
  · cases hbelow.symm.trans (isBelow_eq_false hevents event hnew)

theorem queue_append (hqueue : List.Forall₂ (Event.Mirrors mirror)
      (queue.filter fun event => !event.isBelow mirror.shift) queue')
    (hevents : List.Forall₂ (Event.Mirrors mirror) events events') :
    List.Forall₂ (Event.Mirrors mirror)
      ((queue ++ events).filter fun event => !event.isBelow mirror.shift) (queue' ++ events') := by
  have hall : events.filter (fun event => !event.isBelow mirror.shift) = events := by
    rw [List.filter_eq_self]
    intro event hevent
    rw [isBelow_eq_false hevents event hevent, Bool.not_false]
  rw [List.filter_append, hall]
  exact List.rel_append hqueue hevents

end Queue

/-! ### Below the head -/

/-- A strand below the head has heard of its outcome; it trails, or it is lost. -/
def Heard (mirror : Mirror σ τ ρ) (outcome : ρ) (strand : Nat) (rest : Strand σ ρ) : Prop :=
  Trails mirror outcome rest ∨ mirror.lost strand rest

/-- The strands below the head wait for its outcome, or they have heard of it. -/
structure Loop.Echoes (mirror : Mirror σ τ ρ) (loop : Loop σ ρ) : Prop where
  waits : ∀ number < mirror.shift, ∀ wait, loop.waits[number]? = some (some wait) →
    wait.strand < mirror.shift ∧ ∀ outcome, wait.enough (wait.known.set 0 (some outcome)) = true ∧
      Heard mirror outcome wait.strand (wait.next (wait.known.set 0 (some outcome)))
  news : ∀ number place outcome, .news (.wait number place) outcome ∈ loop.queue →
    number < mirror.shift → place = 0 ∧ loop.outcome? mirror.shift = some outcome
  turns : ∀ strand rest, .turn strand rest ∈ loop.queue → strand < mirror.shift →
    ∃ outcome, loop.outcome? mirror.shift = some outcome ∧ Heard mirror outcome strand rest
  records : ∀ strand < mirror.shift, ∀ record, loop.records[strand]? = some record →
    record.hearers = [] ∧ ∀ last, record.outcome = some last →
      ∃ outcome, loop.outcome? mirror.shift = some outcome ∧ mirror.echo outcome last
  hearers : ∀ record, loop.records[mirror.shift]? = some record →
    ∀ hearer ∈ record.hearers, ∃ number < mirror.shift, hearer = .wait number 0

namespace Loop

variable {loop other : Loop σ ρ} {loop' : Loop τ ρ}

/-- What happens to others is of no concern to the strands below the head. -/
theorem Echoes.congr (h : loop.Echoes mirror)
    (hqueue : ∀ event ∈ other.queue, event.isBelow mirror.shift = true → event ∈ loop.queue)
    (hwaits : ∀ number < mirror.shift, other.waits[number]? = loop.waits[number]?)
    (hrecords : ∀ strand ≤ mirror.shift, other.records[strand]? = loop.records[strand]?) :
    other.Echoes mirror := by
  have houtcome : other.outcome? mirror.shift = loop.outcome? mirror.shift := by
    rw [outcome?, outcome?, hrecords _ le_rfl]
  constructor
  · intro number hnumber wait hwait
    exact h.waits number hnumber wait (hwaits number hnumber ▸ hwait)
  · intro number place outcome hnews hnumber
    rw [houtcome]
    exact h.news number place outcome (hqueue _ hnews (by simpa [Event.isBelow])) hnumber
  · intro strand rest hturn hstrand
    rw [houtcome]
    exact h.turns strand rest (hqueue _ hturn (by simpa [Event.isBelow])) hstrand
  · intro strand hstrand record hrecord
    rw [houtcome]
    exact h.records strand hstrand record (hrecords strand hstrand.le ▸ hrecord)
  · intro record hrecord
    exact h.hearers record (hrecords _ le_rfl ▸ hrecord)

/-- A loop with its image. -/
structure Mirrors (mirror : Mirror σ τ ρ) (loop : Loop σ ρ) (loop' : Loop τ ρ) : Prop where
  world : mirror.related loop.world loop'.world
  queue : List.Forall₂ (Event.Mirrors mirror)
    (loop.queue.filter fun event => !event.isBelow mirror.shift) loop'.queue
  waits : Shifted (Wait.Mirrors mirror) mirror.shift 0 loop.waits loop'.waits
  records : Shifted (Record.Mirrors mirror) mirror.shift 1 loop.records loop'.records
  started : 0 < loop'.records.length
  tip : Option.Rel mirror.tips (loop.outcome? mirror.shift) (loop'.outcome? 0)
  unheard : ∀ record, loop'.records[0]? = some record → record.hearers = []
  echoes : loop.Echoes mirror

namespace Mirrors

theorem ofWorld (h : loop.Mirrors mirror loop') {world : σ} {world' : τ}
    (hworld : mirror.related world world') :
    Mirrors mirror { loop with world } { loop' with world := world' } :=
  ⟨hworld, h.queue, h.waits, h.records, h.started, h.tip, h.unheard, h.echoes.congr
    (fun _ hevent _ => hevent) (fun _ _ => rfl) fun _ _ => rfl⟩

/-- Single strands of which nobody is below the other. -/
theorem start (hshift : mirror.shift = 0) {world : σ} {world' : τ}
    (hworld : mirror.related world world') {strand : Strand σ ρ} {strand' : Strand τ ρ}
    (hstrand : Strand.Mirrors mirror true strand strand') :
    Mirrors mirror (Loop.start world strand) (Loop.start world' strand') := by
  refine ⟨hworld, ?_, ⟨by simp [Loop.start, hshift], fun _ _ => .none⟩,
    ⟨by simp [Loop.start, hshift], fun place hplace => ?_⟩, Nat.zero_lt_one, ?_, ?_, ?_⟩
  · have hturn : Event.Mirrors mirror (.turn (0 + mirror.shift) strand) (.turn 0 strand') :=
      .turn 0 hstrand
    rw [hshift] at hturn
    simpa [Loop.start, Event.isBelow, hshift] using hturn
  · rw [Loop.start, Loop.start, hshift, List.getElem?_eq_none hplace, List.getElem?_eq_none hplace]
    exact .none
  · rw [hshift]
    exact .none
  · rintro record ⟨⟩
    rfl
  · constructor
    · rw [hshift]
      exact fun _ hlt => absurd hlt (Nat.not_lt_zero _)
    · rw [hshift]
      exact fun _ _ _ _ hlt => absurd hlt (Nat.not_lt_zero _)
    · rw [hshift]
      exact fun _ _ _ hlt => absurd hlt (Nat.not_lt_zero _)
    · rw [hshift]
      exact fun _ hlt => absurd hlt (Nat.not_lt_zero _)
    · rw [hshift]
      rintro record ⟨⟩ hearer hhearer
      cases hhearer

theorem outcome?_eq (h : loop.Mirrors mirror loop') {strand : Nat} (hstrand : strand ≠ 0) :
    loop.outcome? (strand + mirror.shift) = loop'.outcome? strand := by
  have hrecord := h.records.each strand (Nat.pos_of_ne_zero hstrand)
  unfold outcome?
  generalize loop.records[strand + mirror.shift]? = found, loop'.records[strand]? = found'
    at hrecord
  cases hrecord with
  | none => rfl
  | some hrecord => exact hrecord.outcome

/-- Events that have an image come to the end of the queue. -/
theorem enqueue (h : loop.Mirrors mirror loop') {events : List (Event σ ρ)}
    {events' : List (Event τ ρ)} (hevents : List.Forall₂ (Event.Mirrors mirror) events events') :
    Mirrors mirror (loop.enqueue events) (loop'.enqueue events') := by
  refine ⟨h.world, queue_append h.queue hevents, h.waits, h.records, h.started, h.tip, h.unheard,
    h.echoes.congr (fun event hevent => mem_of_isBelow hevents hevent) (fun _ _ => rfl)
      fun _ _ => rfl⟩

/-- A strand that is not the head comes to its outcome. -/
theorem finish (h : loop.Mirrors mirror loop') {strand : Nat} (hstrand : strand ≠ 0)
    (outcome : ρ) :
    Mirrors mirror (loop.finish (strand + mirror.shift) outcome) (loop'.finish strand outcome) := by
  have hnews : List.Forall₂ (Event.Mirrors mirror)
      (((loop.records[strand + mirror.shift]?.map Record.hearers).getD []).map fun hearer =>
        .news hearer outcome)
      (((loop'.records[strand]?.map Record.hearers).getD []).map fun hearer =>
        .news hearer outcome) := by
    have hrecord := h.records.each strand (Nat.pos_of_ne_zero hstrand)
    rw [List.forall₂_map_left_iff, List.forall₂_map_right_iff]
    generalize loop.records[strand + mirror.shift]? = found, loop'.records[strand]? = found'
      at hrecord
    cases hrecord with
    | none => exact .nil
    | some hrecord => exact hrecord.hearers.imp fun _ _ hhearer => .news hhearer outcome
  have hkept : ∀ other ≤ mirror.shift, (loop.records.set (strand + mirror.shift)
      ⟨some outcome, []⟩)[other]? = loop.records[other]? := fun other hother =>
    List.getElem?_set_ne (by omega)
  have hkept' : (loop'.records.set strand ⟨some outcome, []⟩)[0]? = loop'.records[0]? :=
    List.getElem?_set_ne hstrand
  refine ⟨h.world, queue_append h.queue hnews, h.waits,
    h.records.set strand fun _ => ⟨rfl, .nil⟩, ?_, ?_, ?_, ?_⟩
  · rw [Loop.finish, List.length_set]
    exact h.started
  · rw [outcome?, outcome?, Loop.finish, Loop.finish, hkept _ le_rfl, hkept']
    exact h.tip
  · intro record hrecord
    exact h.unheard record (hkept' ▸ hrecord)
  · exact h.echoes.congr (fun event hevent => mem_of_isBelow hnews hevent) (fun _ _ => rfl) hkept

/-- The head comes to its outcome. -/
theorem finish_tip (h : loop.Mirrors mirror loop') {outcome outcome' : ρ}
    (htips : mirror.tips outcome outcome') (hnone : loop.outcome? mirror.shift = none) :
    Mirrors mirror (loop.finish mirror.shift outcome) (loop'.finish 0 outcome') := by
  have hlt : mirror.shift < loop.records.length := by
    have := h.started
    have := h.records.length
    omega
  have houtcome : (loop.finish mirror.shift outcome).outcome? mirror.shift = some outcome := by
    rw [outcome?, Loop.finish, List.getElem?_set_self hlt]
    rfl
  have hhearers : ∀ hearer ∈ (loop.records[mirror.shift]?.map Record.hearers).getD [],
      ∃ number < mirror.shift, hearer = .wait number 0 := by
    intro hearer hhearer
    cases hrecord : loop.records[mirror.shift]? with
    | none => simp [hrecord] at hhearer
    | some record => exact h.echoes.hearers record hrecord hearer (by simpa [hrecord] using hhearer)
  have hunheard : (loop'.records[0]?.map Record.hearers).getD [] = [] := by
    cases hrecord : loop'.records[0]? with
    | none => rfl
    | some record => exact h.unheard record hrecord
  refine ⟨h.world, ?_, h.waits, ?_, ?_, ?_, ?_, ?_⟩
  · have hbelow : (((loop.records[mirror.shift]?.map Record.hearers).getD []).map fun hearer =>
        (.news hearer outcome : Event σ ρ)).filter (fun event => !event.isBelow mirror.shift) =
          [] := by
      rw [List.filter_eq_nil_iff]
      intro event hevent
      obtain ⟨hearer, hhearer, rfl⟩ := List.mem_map.1 hevent
      obtain ⟨number, hnumber, rfl⟩ := hhearers hearer hhearer
      simp [Event.isBelow, hnumber]
    rw [Loop.finish, Loop.finish, hunheard, List.map_nil, List.append_nil]
    dsimp only
    rw [List.filter_append, hbelow, List.append_nil]
    exact h.queue
  · have hset : Shifted (Record.Mirrors mirror) mirror.shift 1
        (loop.records.set (0 + mirror.shift) ⟨some outcome, []⟩)
        (loop'.records.set 0 ⟨some outcome', []⟩) :=
      h.records.set 0 fun hle => absurd hle (by omega)
    rwa [Nat.zero_add] at hset
  · rw [Loop.finish, List.length_set]
    exact h.started
  · rw [houtcome, outcome?, Loop.finish, List.getElem?_set_self h.started]
    exact .some htips
  · intro record hrecord
    rw [Loop.finish, List.getElem?_set_self h.started] at hrecord
    obtain rfl := Option.some.inj hrecord
    rfl
  · -- Nobody below the head has heard of anything before.
    constructor
    · exact h.echoes.waits
    · intro number place found hnews hnumber
      rw [houtcome]
      rcases List.mem_append.1 hnews with hold | hnew
      · cases hnone.symm.trans (h.echoes.news number place found hold hnumber).2
      · obtain ⟨hearer, hhearer, heq⟩ := List.mem_map.1 hnew
        obtain ⟨other, _, rfl⟩ := hhearers hearer hhearer
        cases heq
        exact ⟨rfl, rfl⟩
    · intro strand rest hturn hstrand
      rcases List.mem_append.1 hturn with hold | hnew
      · obtain ⟨found, hfound, _⟩ := h.echoes.turns strand rest hold hstrand
        cases hnone.symm.trans hfound
      · obtain ⟨hearer, _, heq⟩ := List.mem_map.1 hnew
        cases heq
    · intro strand hstrand record hrecord
      rw [Loop.finish, List.getElem?_set_ne (by omega)] at hrecord
      obtain ⟨hnil, hlast⟩ := h.echoes.records strand hstrand record hrecord
      refine ⟨hnil, fun last hsome => ?_⟩
      obtain ⟨found, hfound, _⟩ := hlast last hsome
      cases hnone.symm.trans hfound
    · intro record hrecord
      rw [Loop.finish, List.getElem?_set_self hlt] at hrecord
      obtain rfl := Option.some.inj hrecord
      exact fun _ hhearer => absurd hhearer List.not_mem_nil

theorem add (h : loop.Mirrors mirror loop') {child : Strand σ ρ} {child' : Strand τ ρ}
    (hchild : Strand.Mirrors mirror false child child') :
    Mirrors mirror (loop.add child) (loop'.add child') := by
  have hne : loop'.records.length ≠ 0 := Nat.pos_iff_ne_zero.1 h.started
  have hturn : Event.Mirrors mirror (.turn loop.records.length child)
      (.turn loop'.records.length child') := by
    rw [h.records.length]
    refine .turn _ ?_
    rwa [beq_false_of_ne hne]
  have hlt : mirror.shift < loop.records.length := by
    have := h.started
    have := h.records.length
    omega
  have hkept : ∀ other ≤ mirror.shift,
      (loop.records ++ [⟨none, []⟩])[other]? = loop.records[other]? := fun other hother =>
    List.getElem?_append_left (Nat.lt_of_le_of_lt hother hlt)
  have hkept' : (loop'.records ++ [⟨none, []⟩])[0]? = loop'.records[0]? :=
    List.getElem?_append_left h.started
  refine ⟨h.world, queue_append h.queue (.cons hturn .nil), h.waits,
    h.records.concat ⟨rfl, .nil⟩, ?_, ?_, ?_, ?_⟩
  · rw [Loop.add, List.length_append]
    exact Nat.lt_of_lt_of_le h.started (Nat.le_add_right _ _)
  · rw [outcome?, outcome?, Loop.add, Loop.add, hkept _ le_rfl, hkept']
    exact h.tip
  · intro record hrecord
    exact h.unheard record (hkept' ▸ hrecord)
  · exact h.echoes.congr (fun event hevent => mem_of_isBelow (.cons hturn .nil) hevent)
      (fun _ _ => rfl) hkept

/-- Someone is to hear of the outcome of a strand that is not the head. -/
theorem listen (h : loop.Mirrors mirror loop') {strand : Nat} (hstrand : strand ≠ 0)
    {hearer : Hearer σ ρ} {hearer' : Hearer τ ρ} (hhearer : Hearer.Mirrors mirror hearer hearer') :
    Mirrors mirror (loop.listen (strand + mirror.shift) hearer) (loop'.listen strand hearer') := by
  have hrecord := h.records.each strand (Nat.pos_of_ne_zero hstrand)
  unfold Loop.listen
  generalize hfound : loop.records[strand + mirror.shift]? = found,
    hfound' : loop'.records[strand]? = found' at hrecord
  cases hrecord with
  | none => exact h
  | @some record record' hrecord =>
      obtain ⟨outcome, hearers⟩ := record
      obtain ⟨_, hearers'⟩ := record'
      obtain ⟨rfl, hhearers⟩ := hrecord
      cases outcome with
      | some outcome => exact h.enqueue (.cons (.news hhearer outcome) .nil)
      | none =>
          have hkept : ∀ other ≤ mirror.shift, (loop.records.set (strand + mirror.shift)
              ⟨none, hearers ++ [hearer]⟩)[other]? = loop.records[other]? := fun other hother =>
            List.getElem?_set_ne (by omega)
          have hkept' : (loop'.records.set strand ⟨none, hearers' ++ [hearer']⟩)[0]? =
              loop'.records[0]? := List.getElem?_set_ne hstrand
          refine ⟨h.world, h.queue, h.waits,
            h.records.set strand fun _ => ⟨rfl, List.rel_append hhearers (.cons hhearer .nil)⟩,
            ?_, ?_, ?_, ?_⟩
          · rw [List.length_set]
            exact h.started
          · rw [outcome?, outcome?, hkept _ le_rfl, hkept']
            exact h.tip
          · intro record hrecord
            exact h.unheard record (hkept' ▸ hrecord)
          · exact h.echoes.congr (fun _ hevent _ => hevent) (fun _ _ => rfl) hkept

theorem listenEach (h : loop.Mirrors mirror loop') (number : Nat) (places : List (Nat × Nat))
    (hplaces : ∀ entry ∈ places, entry.1 ≠ 0) :
    Mirrors mirror (Loop.listenEach (number + mirror.shift)
      (places.map (Prod.map (· + mirror.shift) id)) loop) (Loop.listenEach number places loop') := by
  induction places generalizing loop loop' with
  | nil => exact h
  | cons entry rest ih =>
      obtain ⟨hentry, hrest⟩ := List.forall_mem_cons.1 hplaces
      rw [List.map_cons, Prod.map, Loop.listenEach, Loop.listenEach, h.outcome?_eq hentry]
      refine ih ?_ hrest
      split
      · exact h
      · exact h.listen hentry (.wait number entry.2)

theorem suspend (h : loop.Mirrors mirror loop') {strand : Nat} {strands : List Nat}
    (hstrands : ∀ other ∈ strands, other ≠ 0) {known : List (Option ρ)}
    (hlength : known.length = strands.length) (enough : List (Option ρ) → Bool)
    {next : List (Option ρ) → Strand σ ρ} {next' : List (Option ρ) → Strand τ ρ}
    (hnext : ∀ known, known.length = strands.length →
      Strand.Mirrors mirror (strand == 0) (next known) (next' known)) :
    Mirrors mirror (loop.suspend
        ⟨strand + mirror.shift, strands.map (· + mirror.shift), known, enough, next⟩)
      (loop'.suspend ⟨strand, strands, known, enough, next'⟩) := by
  have hwaits : ∀ number < mirror.shift,
      (loop.waits ++ [some ⟨strand + mirror.shift, strands.map (· + mirror.shift), known, enough,
        next⟩])[number]? = loop.waits[number]? := fun number hnumber =>
    List.getElem?_append_left (by have := h.waits.length; omega)
  have hmore : Mirrors mirror
      { loop with waits := loop.waits ++ [some ⟨strand + mirror.shift,
        strands.map (· + mirror.shift), known, enough, next⟩] }
      { loop' with waits := loop'.waits ++ [some ⟨strand, strands, known, enough, next'⟩] } :=
    ⟨h.world, h.queue, h.waits.concat (.some strand enough hlength hnext), h.records, h.started,
      h.tip, h.unheard, h.echoes.congr (fun _ hevent _ => hevent) hwaits fun _ _ => rfl⟩
  have heach := hmore.listenEach loop'.waits.length strands.zipIdx
    fun entry hentry => hstrands entry.1 (List.fst_mem_of_mem_zipIdx hentry)
  rw [← h.waits.length] at heach
  unfold Loop.suspend
  rwa [List.zipIdx_map]

/-- A strand has its turn, or it is the head and gets lost in it. -/
theorem follow (h : loop.Mirrors mirror loop') {begun strand : Nat}
    (hturn : InTurn begun (some (strand + mirror.shift)) loop) {rest : Strand σ ρ}
    {rest' : Strand τ ρ} (hrest : Strand.Mirrors mirror (strand == 0) rest rest') :
    (Loop.follow (strand + mirror.shift) rest loop).Mirrors mirror
        (Loop.follow strand rest' loop') ∨
      ∃ lost last, mirror.lost mirror.shift lost ∧ InTurn begun (some mirror.shift) last ∧
        Loop.follow (strand + mirror.shift) rest loop = Loop.follow mirror.shift lost last := by
  generalize hhead : (strand == 0) = head at hrest
  induction hrest generalizing loop loop' with
  | done outcome => exact .inl (h.finish (by simpa using hhead) outcome)
  | tip htips =>
      obtain rfl : strand = 0 := by simpa using hhead
      rw [Nat.zero_add] at hturn ⊢
      exact .inl (h.finish_tip htips (hturn.unfinished _ (by simp [busy])).2)
  | @lost rest hlost rest' =>
      obtain rfl : strand = 0 := by simpa using hhead
      rw [Nat.zero_add] at hturn ⊢
      exact .inr ⟨rest, loop, hlost, hturn, rfl⟩
  | aside hkeeps _ ih =>
      exact ih (h.ofWorld (hkeeps _ _ h.world)) (hturn.congr rfl rfl rfl fun _ => rfl) hhead
  | read _ ih => exact ih _ _ h.world h hturn hhead
  | write hrelated _ ih =>
      exact ih (h.ofWorld hrelated) (hturn.congr rfl rfl rfl fun _ => rfl) hhead
  | pause hnext _ => exact .inl (h.enqueue (.cons (.turn strand (hhead ▸ hnext)) .nil))
  | spawn hchild _ _ ih =>
      rw [Loop.follow, Loop.follow, h.records.length]
      exact ih _ (Nat.pos_iff_ne_zero.1 h.started) (h.add hchild) (hturn.add _) hhead
  | watch hnumber hshared hchanges _ ih =>
      subst hnumber
      exact ih (h.listen hshared (.world hchanges)) (hturn.listen _ _) hhead
  | @await head strands strands' enough next next' hnumbers hshared hnext ih =>
      subst hnumbers
      have hknown : (strands'.map (· + mirror.shift)).map loop.outcome? =
          strands'.map loop'.outcome? := by
        rw [List.map_map]
        exact List.map_congr_left fun other hother => h.outcome?_eq (hshared other hother)
      rw [Loop.follow, Loop.follow, hknown]
      split
      · exact ih _ (List.length_map _) h hturn hhead
      · exact .inl (h.suspend hshared (List.length_map _) enough (hhead ▸ hnext))

/-- Someone who is not below the head hears of an outcome. -/
theorem hear (h : loop.Mirrors mirror loop') {hearer : Hearer σ ρ} {hearer' : Hearer τ ρ}
    (hhearer : Hearer.Mirrors mirror hearer hearer') (outcome : ρ) :
    (Loop.hear hearer outcome loop).Mirrors mirror (Loop.hear hearer' outcome loop') := by
  cases hhearer with
  | world hchanges => exact h.ofWorld (hchanges outcome _ _ h.world)
  | wait number place =>
      have hwait := h.waits.each number (Nat.zero_le _)
      unfold Loop.hear
      dsimp only
      generalize hfound : loop.waits[number + mirror.shift]? = found,
        hfound' : loop'.waits[number]? = found' at hwait
      have hkept : ∀ wait, ∀ other < mirror.shift,
          (loop.waits.set (number + mirror.shift) wait)[other]? = loop.waits[other]? :=
        fun wait other hother => List.getElem?_set_ne (by omega)
      cases hwait with
      | none => exact h
      | some hwait =>
          cases hwait with
          | none => exact h
          | @some strand strands strands' known enough next next' hlength hnext =>
              have hset : (known.set place (some outcome)).length = strands'.length := by
                rw [List.length_set, hlength]
              dsimp only
              split
              · have hturn : List.Forall₂ (Event.Mirrors mirror)
                    [.turn (strand + mirror.shift) (next (known.set place (some outcome)))]
                    [.turn strand (next' (known.set place (some outcome)))] :=
                  .cons (.turn strand (hnext _ hset)) .nil
                exact ⟨h.world, queue_append h.queue hturn, h.waits.set number fun _ => .none,
                  h.records, h.started, h.tip, h.unheard, h.echoes.congr
                    (fun event hevent => mem_of_isBelow hturn hevent) (hkept none) fun _ _ => rfl⟩
              · exact ⟨h.world, h.queue, h.waits.set number fun _ => .some strand enough hset hnext,
                  h.records, h.started, h.tip, h.unheard, h.echoes.congr
                    (fun _ hevent _ => hevent) (hkept _) fun _ _ => rfl⟩

/-! ### One step -/

/-- What came first in the queue was below the head, and is no more in it. -/
theorem tail_below (h : loop.Mirrors mirror loop') {event : Event σ ρ} {queue : List (Event σ ρ)}
    (hqueue : loop.queue = event :: queue) (hbelow : event.isBelow mirror.shift = true) :
    Mirrors mirror { loop with queue } loop' := by
  refine ⟨h.world, ?_, h.waits, h.records, h.started, h.tip, h.unheard, h.echoes.congr
    (fun other hother _ => hqueue ▸ List.mem_cons_of_mem _ hother) (fun _ _ => rfl) fun _ _ => rfl⟩
  have hall := h.queue
  rwa [hqueue, List.filter_cons_of_neg (by simp [hbelow])] at hall

/-- A strand below the head comes to its outcome. -/
theorem finish_below (h : loop.Mirrors mirror loop') {strand : Nat} (hstrand : strand < mirror.shift)
    {outcome last : ρ} (houtcome : loop.outcome? mirror.shift = some outcome)
    (hecho : mirror.echo outcome last) : (loop.finish strand last).Mirrors mirror loop' := by
  have hlt : strand < loop.records.length := by
    have := h.records.length
    omega
  have hhearers : (loop.records[strand]?.map Record.hearers).getD [] = [] := by
    rw [List.getElem?_eq_getElem hlt]
    exact (h.echoes.records strand hstrand _ (List.getElem?_eq_getElem hlt)).1
  have hkept : (loop.records.set strand ⟨some last, []⟩)[mirror.shift]? =
      loop.records[mirror.shift]? := List.getElem?_set_ne (by omega)
  have hsame : (loop.finish strand last).outcome? mirror.shift = loop.outcome? mirror.shift := by
    rw [outcome?, outcome?, Loop.finish, hkept]
  have hqueue : (loop.finish strand last).queue = loop.queue := by
    rw [Loop.finish, hhearers, List.map_nil, List.append_nil]
  refine ⟨h.world, hqueue ▸ h.queue, h.waits, h.records.set_left (by omega) _, h.started,
    hsame ▸ h.tip, h.unheard, ?_⟩
  constructor
  · exact h.echoes.waits
  · rw [hqueue, hsame]
    exact h.echoes.news
  · rw [hqueue, hsame]
    exact h.echoes.turns
  · intro other hother record hrecord
    rw [hsame]
    by_cases heq : strand = other
    · subst heq
      rw [Loop.finish, List.getElem?_set_self hlt] at hrecord
      obtain rfl := Option.some.inj hrecord
      refine ⟨rfl, fun found hfound => ⟨outcome, houtcome, ?_⟩⟩
      rwa [← Option.some.inj hfound]
    · rw [Loop.finish, List.getElem?_set_ne heq] at hrecord
      exact h.echoes.records other hother record hrecord
  · intro record hrecord
    exact h.echoes.hearers record (hkept ▸ hrecord)

/-- A strand below the head has its turn after it heard of the outcome of the head. -/
theorem follow_below (h : loop.Mirrors mirror loop') {strand : Nat} (hstrand : strand < mirror.shift)
    {outcome : ρ} (houtcome : loop.outcome? mirror.shift = some outcome) {rest : Strand σ ρ}
    (hrest : Trails mirror outcome rest) : (Loop.follow strand rest loop).Mirrors mirror loop' := by
  induction hrest generalizing loop with
  | done hecho => exact h.finish_below hstrand houtcome hecho
  | aside hkeeps _ ih => exact ih (h.ofWorld (hkeeps _ _ h.world)) houtcome

/-- A strand below the head hears of the outcome of the head. -/
theorem hear_below (h : loop.Mirrors mirror loop') {number : Nat} (hnumber : number < mirror.shift)
    {outcome : ρ} (houtcome : loop.outcome? mirror.shift = some outcome) :
    (Loop.hear (.wait number 0) outcome loop).Mirrors mirror loop' := by
  simp only [Loop.hear]
  split
  · next wait hwait =>
      obtain ⟨hstrand, hhears⟩ := h.echoes.waits number hnumber wait hwait
      obtain ⟨henough, hheard⟩ := hhears outcome
      rw [if_pos henough]
      refine ⟨h.world, ?_, h.waits.set_left (by omega) _, h.records, h.started, h.tip, h.unheard, ?_⟩
      · dsimp only
        rw [List.filter_append, List.filter_cons_of_neg (by simp [Event.isBelow, hstrand]),
          List.filter_nil, List.append_nil]
        exact h.queue
      · constructor
        · intro other hother found hfound
          by_cases heq : number = other
          · subst heq
            rw [List.getElem?_set_self (List.getElem?_eq_some_iff.1 hwait).1] at hfound
            cases hfound
          · rw [List.getElem?_set_ne heq] at hfound
            exact h.echoes.waits other hother found hfound
        · intro other place found hnews hother
          refine h.echoes.news other place found ?_ hother
          simpa using hnews
        · intro strand rest hturn hbelow
          rcases List.mem_append.1 hturn with hold | hnew
          · exact h.echoes.turns strand rest hold hbelow
          · obtain ⟨rfl, rfl⟩ := Event.turn.inj (List.mem_singleton.1 hnew)
            exact ⟨outcome, houtcome, hheard⟩
        · exact h.echoes.records
        · exact h.echoes.hearers
  · exact h

/-- The first loop makes a step in which a strand gets lost that is the head or below it. -/
def Loses (mirror : Mirror σ τ ρ) (loop : Loop σ ρ) : Prop :=
  ∃ strand ≤ mirror.shift, ∃ lost last begun, mirror.lost strand lost ∧
    InTurn begun (some strand) last ∧ loop.step = some (Loop.follow strand lost last)

/-- What happens below the head has no image. -/
theorem step_below (h : loop.Mirrors mirror loop') {begun : Nat} (hturn : InTurn begun none loop)
    {event : Event σ ρ} {queue : List (Event σ ρ)} (hqueue : loop.queue = event :: queue)
    (hbelow : event.isBelow mirror.shift = true) :
    (∃ next, loop.step = some next ∧ next.Mirrors mirror loop') ∨ Loses mirror loop := by
  have htail := h.tail_below hqueue hbelow
  have hmem : event ∈ loop.queue := hqueue ▸ List.mem_cons_self
  unfold Loses Loop.step
  rw [hqueue]
  cases event with
  | turn strand rest =>
      have hstrand : strand < mirror.shift := by simpa [Event.isBelow] using hbelow
      obtain ⟨outcome, houtcome, hheard⟩ := h.echoes.turns strand rest hmem hstrand
      rcases hheard with htrails | hlost
      · exact .inl ⟨_, rfl, htail.follow_below hstrand houtcome htrails⟩
      · obtain ⟨later, hlater⟩ := hturn.exists_turn hqueue
        exact .inr ⟨strand, hstrand.le, rest, _, later, hlost, hlater, rfl⟩
  | news hearer outcome =>
      cases hearer with
      | world change => cases hbelow
      | wait number place =>
          have hnumber : number < mirror.shift := by simpa [Event.isBelow] using hbelow
          obtain ⟨rfl, houtcome⟩ := h.echoes.news number place outcome hmem hnumber
          exact .inl ⟨_, rfl, htail.hear_below hnumber houtcome⟩

/-- What happens elsewhere happens in the image, too. -/
theorem step_beside (h : loop.Mirrors mirror loop') {begun : Nat} (hturn : InTurn begun none loop)
    {event : Event σ ρ} {queue : List (Event σ ρ)} (hqueue : loop.queue = event :: queue)
    (hbelow : event.isBelow mirror.shift = false) :
    (∃ next next', loop.step = some next ∧ loop'.step = some next' ∧ next.Mirrors mirror next') ∨
      Loses mirror loop := by
  have hall := h.queue
  rw [hqueue, List.filter_cons_of_pos (by simp [hbelow])] at hall
  obtain ⟨event', queue', hevent, hrest, hqueue'⟩ := List.forall₂_cons_left_iff.1 hall
  have htail : Mirrors mirror { loop with queue } { loop' with queue := queue' } :=
    ⟨h.world, hrest, h.waits, h.records, h.started, h.tip, h.unheard, h.echoes.congr
      (fun other hother _ => hqueue ▸ List.mem_cons_of_mem _ hother) (fun _ _ => rfl)
        fun _ _ => rfl⟩
  unfold Loses Loop.step
  rw [hqueue, hqueue']
  cases hevent with
  | turn strand hstrand =>
      obtain ⟨later, hlater⟩ := hturn.exists_turn hqueue
      rcases htail.follow hlater hstrand with hmirrors | ⟨lost, last, hlost, hlast, heq⟩
      · exact .inl ⟨_, _, rfl, rfl, hmirrors⟩
      · exact .inr ⟨_, le_rfl, lost, last, later, hlost, hlast, congrArg some heq⟩
  | news hhearer outcome => exact .inl ⟨_, _, rfl, rfl, htail.hear hhearer outcome⟩

/-- What happens in a loop happens in its image, unless it happens below the head, or a strand gets
lost. -/
theorem step (h : loop.Mirrors mirror loop') {begun : Nat} (hturn : InTurn begun none loop) :
    loop.step = none ∨
      (∃ next, loop.step = some next ∧
        (next.Mirrors mirror loop' ∨
          ∃ next', loop'.step = some next' ∧ next.Mirrors mirror next')) ∨
      Loses mirror loop := by
  cases hqueue : loop.queue with
  | nil => exact .inl ((step_eq_none_iff loop).2 hqueue)
  | cons event queue =>
      cases hbelow : event.isBelow mirror.shift with
      | true =>
          exact .inr ((h.step_below hturn hqueue hbelow).imp_left
            fun ⟨next, hnext, hmirrors⟩ => ⟨next, hnext, .inl hmirrors⟩)
      | false =>
          exact .inr ((h.step_beside hturn hqueue hbelow).imp_left
            fun ⟨next, next', hnext, hnext', hmirrors⟩ => ⟨next, hnext, .inr ⟨next', hnext', hmirrors⟩⟩)

/-! ### Many steps -/

/-- A loop with an image runs on with it, or a strand gets lost on the way. -/
theorem run (h : loop.Mirrors mirror loop') {begun : Nat} (hturn : InTurn begun none loop)
    (turns : Nat) :
    (∃ turns', (loop.run turns).Mirrors mirror (loop'.run turns')) ∨
      ∃ before after, turns = before + 1 + after ∧ Loses mirror (loop.run before) := by
  induction turns generalizing begun loop loop' with
  | zero => exact .inl ⟨0, h⟩
  | succ turns ih =>
      rcases h.step hturn with hnone | ⟨next, hnext, hmirrors⟩ | hloses
      · rw [run_of_queue_nil ((step_eq_none_iff loop).1 hnone)]
        exact .inl ⟨0, h⟩
      · obtain ⟨later, hlater⟩ := hturn.step hnext
        have hfound : (∃ turns', (next.run turns).Mirrors mirror (loop'.run turns')) ∨
            ∃ before after, turns = before + 1 + after ∧ Loses mirror (next.run before) := by
          rcases hmirrors with hmirrors | ⟨next', hnext', hmirrors⟩
          · exact ih hmirrors hlater
          · refine (ih hmirrors hlater).imp_left ?_
            rintro ⟨turns', hrun⟩
            refine ⟨turns' + 1, ?_⟩
            rwa [Loop.run, hnext']
        rw [Loop.run, hnext]
        refine hfound.imp_right ?_
        rintro ⟨before, after, heq, hloses⟩
        refine ⟨before + 1, after, by omega, ?_⟩
        rwa [Loop.run, hnext]
      · exact .inr ⟨0, turns, by omega, hloses⟩

/-- Where nothing is due any more, nothing is due in the image. -/
theorem queue_eq_nil (h : loop.Mirrors mirror loop') (hqueue : loop.queue = []) :
    loop'.queue = [] := by
  have hall := h.queue
  rw [hqueue, List.filter_nil] at hall
  exact List.forall₂_nil_left_iff.1 hall

/-- When the head has come to its outcome, its image has come to its own. -/
theorem exists_tip (h : loop.Mirrors mirror loop') {outcome : ρ}
    (houtcome : loop.outcome? mirror.shift = some outcome) :
    ∃ outcome', loop'.outcome? 0 = some outcome' ∧ mirror.tips outcome outcome' := by
  have htip := h.tip
  rw [houtcome] at htip
  generalize loop'.outcome? 0 = found at htip
  cases htip with
  | some htips => exact ⟨_, rfl, htips⟩

/-- Loops run side by side if no strand can get lost and there is none below the head. -/
theorem run_beside (h : loop.Mirrors mirror loop') (hshift : mirror.shift = 0)
    (hlost : ∀ strand rest, ¬ mirror.lost strand rest) {begun : Nat} (hturn : InTurn begun none loop)
    (turns : Nat) : (loop.run turns).Mirrors mirror (loop'.run turns) := by
  induction turns generalizing begun loop loop' with
  | zero => exact h
  | succ turns ih =>
      cases hqueue : loop.queue with
      | nil =>
          rw [run_of_queue_nil hqueue, run_of_queue_nil (h.queue_eq_nil hqueue)]
          exact h
      | cons event queue =>
          have hbeside : event.isBelow mirror.shift = false := by
            rw [hshift]
            unfold Event.isBelow
            split <;> simp
          rcases h.step_beside hturn hqueue hbeside with
            ⟨next, next', hnext, hnext', hmirrors⟩ | ⟨strand, _, rest, _, _, hrest, _⟩
          · obtain ⟨later, hlater⟩ := hturn.step hnext
            rw [Loop.run, Loop.run, hnext, hnext']
            exact ih hmirrors hlater
          · exact absurd hrest (hlost strand rest)

end Mirrors

end Loop

end Strand

end Rulebook
