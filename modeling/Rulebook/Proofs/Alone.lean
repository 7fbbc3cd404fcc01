import Rulebook.Eval

/-!
Steps that are made alone.

When nothing else is due, a step goes through without interruption: what it lets go first is
nothing, and whatever strand it starts and waits for has all the turns until it is done.  `Alone`
says what comes of a step that is made so, its result and the world after it.  There is one rule for
each way to make a step from others; `Alone.task` is the one for a strand that is waited for.
-/

namespace Rulebook

namespace Strand.Loop

variable {σ ρ : Type}

/-- The first thing happens, and then others. -/
theorem run_of_step {loop next : Loop σ ρ} (h : loop.step = some next) (turns : Nat) :
    loop.run (turns + 1) = next.run turns := by
  rw [run, h]

/-- Listening to the strand that was started last, which has no outcome yet. -/
theorem listen_last {loop : Loop σ ρ} {records : List (Record σ ρ)} {hearers : List (Hearer σ ρ)}
    (hrecords : loop.records = records ++ [⟨none, hearers⟩]) (hearer : Hearer σ ρ) :
    loop.listen records.length hearer =
      { loop with records := records ++ [⟨none, hearers ++ [hearer]⟩] } := by
  have hlast : loop.records[records.length]? = some ⟨none, hearers⟩ := by
    rw [hrecords, List.getElem?_concat_length]
  simp only [listen, hlast]
  rw [hrecords]
  simp

theorem outcome?_last {loop : Loop σ ρ} {records : List (Record σ ρ)} {hearers : List (Hearer σ ρ)}
    (hrecords : loop.records = records ++ [⟨none, hearers⟩]) : loop.outcome? records.length = none := by
  rw [outcome?, hrecords, List.getElem?_concat_length]
  rfl

/-- What is put behind a prefix does not change it. -/
theorem prefix_set {α : Type} {items later : List α} (h : items <+: later) {place : Nat}
    (hplace : items.length ≤ place) (item : α) : items <+: later.set place item := by
  obtain ⟨more, rfl⟩ := h
  rw [List.set_append_right _ _ hplace]
  exact List.prefix_append _ _

variable {own number place : Nat} {enough : List (Option ρ) → Bool}
  {next : List (Option ρ) → Strand σ ρ}

/-- Waiting for the strand that was started last, which has no outcome yet. -/
theorem follow_await_last {loop : Loop σ ρ} {records : List (Record σ ρ)}
    {hearers : List (Hearer σ ρ)} (hrecords : loop.records = records ++ [⟨none, hearers⟩])
    (henough : enough [none] = false) :
    follow own (.await [records.length] enough next) loop =
      { loop with
        records := records ++ [⟨none, hearers ++ [.wait loop.waits.length 0]⟩]
        waits := loop.waits ++ [some ⟨own, [records.length], [none], enough, next⟩] } := by
  let waiting : Loop σ ρ := { loop with
    waits := loop.waits ++ [some ⟨own, [records.length], [none], enough, next⟩] }
  have hone : listenEach loop.waits.length [(records.length, 0)] waiting =
      waiting.listen records.length (.wait loop.waits.length 0) := by
    have hnone : waiting.outcome? records.length = none := outcome?_last hrecords
    simp only [listenEach, hnone]
  simp only [follow, List.map_cons, List.map_nil, outcome?_last hrecords, henough,
    Bool.false_eq_true, if_false]
  exact hone.trans (listen_last (show waiting.records = _ from hrecords) _)

/-- A strand is done of whose outcome the world is to hear, and then one who waits for it. -/
theorem run_finish {loop : Loop σ ρ} {change : ρ → σ → σ} {outcome : ρ} {strands : List Nat}
    (hqueue : loop.queue = [])
    (hrecord : loop.records[number]? = some ⟨none, [.world change, .wait place 0]⟩)
    (hwait : loop.waits[place]? = some (some ⟨own, strands, [none], enough, next⟩))
    (henough : enough [some outcome] = true) :
    run 3 (loop.finish number outcome) = follow own (next [some outcome])
      { world := change outcome loop.world
        queue := []
        records := loop.records.set number ⟨some outcome, []⟩
        waits := loop.waits.set place none } := by
  have hfinish : loop.finish number outcome =
      { loop with
        queue := [.news (.world change) outcome, .news (.wait place 0) outcome]
        records := loop.records.set number ⟨some outcome, []⟩ } := by
    simp [finish, hrecord, hqueue]
  rw [hfinish]
  simp [run, step, hear, hwait, henough]

end Strand.Loop

namespace Eval

open Strand

variable {σ α β : Type} {world : σ}

/-- A step that is made in a world while nothing else is due comes to a result, and `post` holds of
that and of the world after it.  Strands and waits that were there stay as they were. -/
def Alone (world : σ) (step : Eval σ α) (post : Except Error α → σ → Prop) : Prop :=
  ∀ (own : Nat) (next : Except Error α → Strand σ Ending) (loop : Loop σ Ending),
    loop.world = world → loop.queue = [] →
      ∃ (turns : Nat) (result : Except Error α) (later : Loop σ Ending),
        (Loop.follow own (step next) loop).run turns = Loop.follow own (next result) later ∧
          post result later.world ∧ later.queue = [] ∧ loop.records <+: later.records ∧
            loop.waits <+: later.waits


namespace Alone

variable {step : Eval σ α} {post : Except Error α → σ → Prop}

theorem imp (h : Alone world step post) {weaker : Except Error α → σ → Prop}
    (hpost : ∀ result after, post result after → weaker result after) : Alone world step weaker := by
  intro own next loop hworld hqueue
  obtain ⟨turns, result, later, hrun, hresult, hrest⟩ := h own next loop hworld hqueue
  exact ⟨turns, result, later, hrun, hpost _ _ hresult, hrest⟩

theorem outcome {result : Except Error α} (h : post result world) :
    Alone world (Eval.outcome result) post := by
  intro own next loop hworld hqueue
  subst hworld
  exact ⟨0, result, loop, rfl, h, hqueue, List.prefix_rfl, List.prefix_rfl⟩

/-- A step and, unless it fails, another one. -/
theorem bind {rest : α → Eval σ β} {last : Except Error β → σ → Prop}
    (h : Alone world step post) (hok : ∀ a after, post (.ok a) after → Alone after (rest a) last)
    (herror : ∀ e after, post (.error e) after → last (.error e) after) :
    Alone world (step >>= rest) last := by
  intro own next loop hworld hqueue
  obtain ⟨turns, result, later, hrun, hresult, hidle, hrecords, hwaits⟩ :=
    h own (fun result => (Eval.outcome result >>= rest) next) loop hworld hqueue
  cases result with
  | error e => exact ⟨turns, .error e, later, hrun, herror e _ hresult, hidle, hrecords, hwaits⟩
  | ok a =>
      obtain ⟨more, result, latest, hmore, hlast, hidle', hrecords', hwaits'⟩ :=
        hok a later.world hresult own next later rfl hidle
      refine ⟨turns + more, result, latest, ?_, hlast, hidle', hrecords.trans hrecords',
        hwaits.trans hwaits'⟩
      rw [Loop.run_add]
      exact (congrArg (Loop.run more) hrun).trans hmore

/-- A step that does not fail, and another one. -/
theorem bind_ok {rest : α → Eval σ β} {between : α → σ → Prop} {last : Except Error β → σ → Prop}
    (h : Alone world step fun result after => ∃ a, result = .ok a ∧ between a after)
    (hrest : ∀ a after, between a after → Alone after (rest a) last) :
    Alone world (step >>= rest) last := by
  refine h.bind ?_ ?_
  · rintro _ after ⟨a, ha, hbetween⟩
    obtain rfl := Except.ok.inj ha
    exact hrest _ after hbetween
  · rintro e after ⟨a, he, -⟩
    cases he

theorem attempt (h : Alone world step post) :
    Alone world step.attempt fun outcome after => ∃ result, outcome = .ok result ∧ post result after := by
  intro own next loop hworld hqueue
  obtain ⟨turns, result, later, hrun, hresult, hrest⟩ :=
    h own (fun result => next (.ok result)) loop hworld hqueue
  exact ⟨turns, .ok result, later, hrun, ⟨result, rfl, hresult⟩, hrest⟩

/-- A step that looks at the world first. -/
theorem get_bind {rest : σ → Eval σ α} (h : Alone world (rest world) post) :
    Alone world (MonadState.get >>= rest) post := by
  intro own next loop hworld hqueue
  have hsame : Loop.follow own ((MonadState.get >>= rest) next) loop =
      Loop.follow own (rest loop.world next) loop := rfl
  rw [hsame, hworld]
  exact h own next loop hworld hqueue

protected theorem modify (change : σ → σ) :
    Alone world (modify change : Eval σ Unit) fun result after =>
      ∃ a, result = .ok a ∧ after = change world := by
  intro own next loop hworld hqueue
  subst hworld
  exact ⟨0, .ok (), { loop with world := change loop.world }, rfl, ⟨(), rfl, rfl⟩, hqueue,
    List.prefix_rfl, List.prefix_rfl⟩

theorem pause : Alone world (Eval.pause : Eval σ Unit) fun result after =>
    ∃ a, result = .ok a ∧ after = world := by
  intro own next loop hworld hqueue
  subst hworld
  refine ⟨1, .ok (), loop, ?_, ⟨(), rfl, rfl⟩, hqueue, List.prefix_rfl, List.prefix_rfl⟩
  have hstep : (loop.enqueue [.turn own (next (.ok ()))]).step =
      some (Loop.follow own (next (.ok ())) loop) := by
    simp only [Loop.enqueue, Loop.step, hqueue, List.nil_append]
    rw [← hqueue]
  exact Loop.run_of_step hstep 0

variable [Parceled α]

/-- A step that is given to a strand of its own, of whose ending the world hears, and is waited for.
Something may be done after the strand was started. -/
theorem task {change : Ending → σ → σ} (aside : Nat → σ → σ)
    (h : ∀ number, Alone (aside number world) step fun result after =>
      post result (change (result.map Parceled.pack) after)) :
    Alone world (do
      let number ← Eval.spawn step change
      modify (aside number)
      Eval.join number) post := by
  intro own next loop hworld hqueue
  let number := loop.records.length
  let enough : List (Option Ending) → Bool := fun known => known.all Option.isSome
  let started : Loop σ Ending :=
    { world := aside number world
      queue := [.turn number step.strand]
      records := loop.records ++ [⟨none, [.world change, .wait loop.waits.length 0]⟩]
      waits := loop.waits ++ [some ⟨own, [number], [none], enough,
        fun known => next (received (known.head?.getD none))⟩] }
  have hstarted : Loop.follow own ((do
      let number ← Eval.spawn step change
      modify (aside number)
      Eval.join number : Eval σ α) next) loop = started := by
    have hwatched : (loop.add step.strand).listen number (.world change) = _ :=
      Loop.listen_last rfl _
    change Loop.follow own (.await [number] enough _)
      { (loop.add step.strand).listen number (.world change) with
        world := aside number ((loop.add step.strand).listen number (.world change)).world } = _
    rw [hwatched]
    refine (Loop.follow_await_last rfl rfl).trans ?_
    simp only [Loop.add, hqueue, hworld]
    rfl
  have hfirst : started.step = some (Loop.follow number step.strand { started with queue := [] }) :=
    rfl
  obtain ⟨turns, result, later, hrun, hresult, hidle, hrecords, hwaits⟩ :=
    h number number (fun result => .done (result.map Parceled.pack)) { started with queue := [] }
      rfl rfl
  have hrecord : later.records[number]? =
      some ⟨none, [.world change, .wait loop.waits.length 0]⟩ := by
    have hlt : number < started.records.length := by simp [started, number]
    rw [List.prefix_iff_getElem?.1 hrecords number hlt]
    simp [started, number]
  have hwait : later.waits[loop.waits.length]? = some (some ⟨own, [number], [none], enough,
      fun known => next (received (known.head?.getD none))⟩) := by
    have hlt : loop.waits.length < started.waits.length := by simp [started]
    rw [List.prefix_iff_getElem?.1 hwaits _ hlt]
    simp [started]
  have hheard := Loop.run_finish hidle hrecord hwait
    (show enough [some (result.map Parceled.pack)] = true from rfl)
  let latest : Loop σ Ending :=
    { world := change (result.map Parceled.pack) later.world
      queue := []
      records := later.records.set number ⟨some (result.map Parceled.pack), []⟩
      waits := later.waits.set loop.waits.length none }
  refine ⟨1 + (turns + 3), result, latest, ?_, hresult, rfl, ?_, ?_⟩
  · rw [hstarted, Loop.run_add, Loop.run_of_step hfirst, Loop.run, Loop.run_add]
    refine (congrArg (Loop.run 3) hrun).trans ?_
    refine hheard.trans ?_
    rw [List.head?_cons, Option.getD_some, received_pack]
  · exact Loop.prefix_set ((List.prefix_append _ _).trans hrecords) (Nat.le_refl _) _
  · exact Loop.prefix_set ((List.prefix_append _ _).trans hwaits) (Nat.le_refl _) _

end Alone

/-! ### What comes out in the end -/

section Settles

variable [Parceled α] {step : Eval σ α} {result other : Except Error α} {after last : σ}

/-- A step that is made in a world comes to this result, and this is the world when nothing is due
any more. -/
def Settles (world : σ) (step : Eval σ α) (result : Except Error α) (after : σ) : Prop :=
  ∃ turns, ((Loop.start world step.strand).run turns).queue = [] ∧
    ((Loop.start world step.strand).run turns).outcome? 0 = some (result.map Parceled.pack) ∧
      ((Loop.start world step.strand).run turns).world = after

/-- A step settles in one way. -/
theorem Settles.unique (h : Settles world step result after) (hother : Settles world step other last) :
    result = other ∧ after = last := by
  obtain ⟨first, hfirst, houtcome, rfl⟩ := h
  obtain ⟨second, hsecond, houtcome', rfl⟩ := hother
  have hsame := Loop.run_eq_run_of_queue_nil hfirst hsecond
  rw [hsame, houtcome', Option.some.injEq] at houtcome
  have hreceived := congrArg (fun ending => received (α := α) (some ending)) houtcome
  simp only [received_pack] at hreceived
  exact ⟨hreceived.symm, by rw [hsame]⟩

/-- A run that is over within the limit gives what the step settles to. -/
theorem Settles.run_eq (h : Settles world step result after)
    (hover : ((Loop.start world step.strand).run turnLimit).queue = []) :
    Eval.run world step = (result, after) := by
  have hsettles : Settles world step (Eval.run world step).1 (Eval.run world step).2 := by
    obtain ⟨turns, hqueue, houtcome, _⟩ := h
    rw [Loop.run_eq_run_of_queue_nil hqueue hover] at houtcome
    refine ⟨turnLimit, hover, ?_, rfl⟩
    rw [houtcome, Eval.run, houtcome, received_pack]
  obtain ⟨hresult, hafter⟩ := h.unique hsettles
  rw [hresult, hafter]

/-- A step that is made alone settles. -/
theorem Alone.settles {post : Except Error α → σ → Prop} (h : Alone world step post) :
    ∃ result after, Settles world step result after ∧ post result after := by
  obtain ⟨turns, result, later, hrun, hresult, hidle, hrecords, _⟩ :=
    h 0 (fun result => .done (result.map Parceled.pack)) ⟨world, [], [⟨none, []⟩], []⟩ rfl rfl
  have hrecord : later.records[0]? = some ⟨none, []⟩ :=
    List.prefix_iff_getElem?.1 hrecords 0 Nat.zero_lt_one
  have hstart : (Loop.start world step.strand).run (1 + turns) =
      later.finish 0 (result.map Parceled.pack) := by
    rw [Loop.run_add]
    exact hrun
  refine ⟨result, later.world, ⟨1 + turns, ?_, ?_, ?_⟩, hresult⟩
  · rw [hstart]
    simp [Loop.finish, hrecord, hidle]
  · have hlt := (List.getElem?_eq_some_iff.1 hrecord).1
    rw [hstart]
    simp [Loop.finish, Loop.outcome?, hlt]
  · rw [hstart]
    rfl

end Settles

end Eval

end Rulebook
