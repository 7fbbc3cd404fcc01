import Rulebook.Proofs.Engine.Stages

/-!
Which rules a run starts.

The strand of a run starts the rules of a group, each in a strand of its own, and goes on when all of
them have ended: with the next group, or with its own end if one of them has failed or somebody has
stopped the engine by then (`Itinerary`).  So whatever the rules and the handlers do, a run that comes to
its end has started the rules of its first groups, and each of them has come to its end.
-/

namespace Rulebook.Engine

open Eval Strand

variable {η : Type} {handling : Handling η} {loop : Loop (Scene η) Ending} {turns gap last : Nat}

/-- A rule that was started, with the strand that processed it and how that has ended. -/
structure Processed where
  entry : Rule × Stamp
  strand : Nat
  ending : Ending

namespace Processed

/-- What came of the rule. -/
def outcome (processed : Processed) : Except Error Unit := received (some processed.ending)

/-- The error with which the rule failed, if it did. -/
def failure? (processed : Processed) : Option Error := errorOf? processed.outcome

/-- What the strand was started with. -/
def code (handling : Handling η) (processed : Processed) : Strand (Scene η) Ending :=
  (process handling processed.entry.1 processed.entry.2).strand

theorem errorOf?_allOk (batch : List Processed) :
    errorOf? (Schedule.allOk (batch.map outcome)) = batch.findSome? failure? := by
  rw [Schedule.errorOf?_allOk, List.findSome?_map]
  rfl

end Processed

variable {batch found : List Processed} {groups rest : List (List (Rule × Stamp))}
  {result : Except Error Unit}

/-- After so many turns the strand of a run starts the rules of a group; after as many as `gap` further
ones, and not before, it goes on, and the rules have come to their ends. -/
structure Leg (handling : Handling η) (loop : Loop (Scene η) Ending) (turns gap : Nat)
    (batch : List Processed) (rest : List (List (Rule × Stamp))) : Prop where
  running : (loop.run turns).world.engine.status = .running
  nonempty : batch ≠ []
  queue : ∃ queue, (loop.run turns).queue =
    .turn 0 (runGroups handling (batch.map Processed.entry :: rest)).strand :: queue
  strands : batch.map Processed.strand =
    List.range' (loop.run turns).records.length batch.length
  gathered : Loop.Gathered 0 (batch.map Processed.strand) (batch.map Processed.ending)
    (goOn handling rest) (loop.run (turns + 1)) gap

/-- From here on, the strand of a run has so many turns to start groups, with these outcomes. -/
inductive Itinerary (handling : Handling η) (loop : Loop (Scene η) Ending) (last : Nat) :
    Nat → List (List (Rule × Stamp)) → List Processed → Except Error Unit → Prop where
  /-- No groups are left, or the engine is stopped. -/
  | rests {turns : Nat} {groups : List (List (Rule × Stamp))} (hlt : turns < last)
      (hqueue : ∃ queue, (loop.run turns).queue = .turn 0 (runGroups handling groups).strand :: queue)
      (hover : groups = [] ∨ (loop.run turns).world.engine.status ≠ .running) :
      Itinerary handling loop last turns groups [] (.ok ())
  /-- Rules of the next group fail. -/
  | fails {turns gap : Nat} {batch : List Processed} {rest : List (List (Rule × Stamp))} {e : Error}
      (hlt : turns + 1 + gap < last) (hleg : Leg handling loop turns gap batch rest)
      (hfails : Schedule.allOk (batch.map Processed.outcome) = .error e) :
      Itinerary handling loop last turns (batch.map Processed.entry :: rest) batch (.error e)
  /-- The next group is left behind. -/
  | goes {turns gap : Nat} {batch found : List Processed} {rest : List (List (Rule × Stamp))}
      {results : List Unit} {result : Except Error Unit} (hlt : turns + 1 + gap < last)
      (hleg : Leg handling loop turns gap batch rest)
      (hgoes : Schedule.allOk (batch.map Processed.outcome) = .ok results)
      (hrest : Itinerary handling loop last (turns + 1 + gap) rest found result) :
      Itinerary handling loop last turns (batch.map Processed.entry :: rest) (batch ++ found) result

/-! ### One group -/

/-- The steps of a group. -/
def stepsOf (handling : Handling η) (group : List (Rule × Stamp)) : List (Act η Unit) :=
  group.map fun entry => process handling entry.1 entry.2

/-- The turn in which a group is started. -/
theorem step_group {group : List (Rule × Stamp)} {queue : List (Event (Scene η) Ending)}
    (hrunning : loop.world.engine.status = .running)
    (hqueue : loop.queue = .turn 0 (runGroups handling (group :: rest)).strand :: queue) :
    loop.step = some (Loop.follow 0 (Eval.each (stepsOf handling group) (goOn handling rest))
      { loop with queue }) := by
  have hpopped : ({ loop with queue } : Loop (Scene η) Ending).world.engine.status = .running :=
    hrunning
  unfold Loop.step
  rw [hqueue]
  exact congrArg some (follow_runGroups hpopped group rest)

theorem run_succ {next : Loop (Scene η) Ending} (hstep : (loop.run turns).step = some next) :
    loop.run (turns + 1) = next := by
  rw [Loop.run_add, Loop.run_succ_of_step hstep]
  rfl

namespace Leg

variable {processed : Processed} {place : Nat}

theorem started (h : Leg handling loop turns gap batch rest) : ∃ queue,
    (loop.run turns).queue =
        .turn 0 (runGroups handling (batch.map Processed.entry :: rest)).strand :: queue ∧
      Loop.follow 0 (Eval.each (stepsOf handling (batch.map Processed.entry)) (goOn handling rest))
        { loop.run turns with queue } = loop.run (turns + 1) := by
  obtain ⟨queue, hqueue⟩ := h.queue
  exact ⟨queue, hqueue, (run_succ (step_group h.running hqueue)).symm⟩

theorem steps_ne_nil (h : Leg handling loop turns gap batch rest) :
    stepsOf handling (batch.map Processed.entry) ≠ [] := by
  simpa [stepsOf] using h.nonempty

theorem strand_eq (h : Leg handling loop turns gap batch rest)
    (hplace : batch[place]? = some processed) :
    processed.strand = (loop.run turns).records.length + place := by
  have hstrand : (batch.map Processed.strand)[place]? = some processed.strand := by
    rw [List.getElem?_map, hplace]
    rfl
  rw [h.strands] at hstrand
  obtain ⟨_, heq⟩ := List.getElem?_eq_some_iff.1 hstrand
  rw [← heq, List.getElem_range', Nat.one_mul]

/-- Each rule of the group has come to its end when the strand of the run goes on. -/
theorem outcome? (h : Leg handling loop turns gap batch rest) (hmem : processed ∈ batch) :
    (loop.run (turns + 1 + gap)).outcome? processed.strand = some processed.ending := by
  have hendings := h.gathered.endings
  rw [Loop.EndWith, List.forall₂_map_left_iff, List.forall₂_map_right_iff, List.forall₂_same]
    at hendings
  rw [Loop.run_add]
  exact hendings processed hmem

/-- Each rule of the group begins while the strand of the run waits. -/
theorem exists_firstTurn (h : Leg handling loop turns gap batch rest) (hproper : loop.Proper)
    (hmem : processed ∈ batch) : ∃ t < gap,
      (loop.run (turns + 1)).FirstTurn processed.strand t (processed.code handling) ∧
        loop.FirstTurn processed.strand (turns + 1 + t) (processed.code handling) := by
  obtain ⟨place, hplace⟩ := List.mem_iff_getElem?.1 hmem
  obtain ⟨queue, _, hstarted⟩ := h.started
  have hstep : (stepsOf handling (batch.map Processed.entry))[place]? =
      some (process handling processed.entry.1 processed.entry.2) := by
    rw [stepsOf, List.getElem?_map, List.getElem?_map, hplace]
    rfl
  have hdue := Loop.turn_mem_follow_each 0 { loop.run turns with queue } h.steps_ne_nil
    (goOn handling rest) hstep
  rw [hstarted] at hdue
  have hending := h.outcome? hmem
  rw [Loop.run_add] at hending
  rw [h.strand_eq hplace] at hending ⊢
  obtain ⟨t, ht, hfirst⟩ := (hproper.run (turns + 1)).exists_firstTurn hdue hending
  exact ⟨t, ht, hfirst, hfirst.of_run hproper (Nat.le_add_right _ _)⟩

/-- The strand of the run goes on. -/
theorem next (h : Leg handling loop turns gap batch rest) : ∃ queue,
    (loop.run (turns + 1 + gap)).queue =
      .turn 0 (goOn handling rest (.ok (batch.map Processed.outcome))) :: queue := by
  obtain ⟨queue, hqueue⟩ := h.gathered.first.queue
  rw [List.map_map, ← Loop.run_add] at hqueue
  exact ⟨queue, hqueue⟩

theorem next_of_error (h : Leg handling loop turns gap batch rest) {e : Error}
    (herror : Schedule.allOk (batch.map Processed.outcome) = .error e) : ∃ queue,
    (loop.run (turns + 1 + gap)).queue = .turn 0 (.done (.error e)) :: queue := by
  have hnext := h.next
  rw [goOn, herror] at hnext
  exact hnext

/-- The strand of the run starts no other strands until it goes on. -/
theorem startedIn (h : Leg handling loop turns gap batch rest) :
    loop.startedIn 0 (List.range' turns (gap + 1)) = batch.map Processed.strand := by
  obtain ⟨queue, hqueue, hstarted⟩ := h.started
  have hlength : (loop.run (turns + 1)).records.length =
      (loop.run turns).records.length + batch.length := by
    rw [← hstarted, Loop.length_follow_each _ _ h.steps_ne_nil]
    simp [stepsOf]
  have hquiet : loop.startedIn 0 (List.range' (turns + 1) gap) = [] := by
    refine Loop.startedIn_of_ne fun t ht => ?_
    rw [List.mem_range'_1] at ht
    obtain ⟨more, rfl⟩ := Nat.exists_eq_add_of_le ht.1
    rw [Loop.run_add]
    exact h.gathered.first.before more (Nat.lt_of_add_lt_add_left ht.2)
  rw [List.range'_succ, Loop.startedIn, List.flatMap_cons, ← Loop.startedIn, hquiet,
    List.append_nil, Loop.startedAt, if_pos (Loop.next?_of_queue hqueue), hlength,
    Nat.add_sub_cancel_left, h.strands]

end Leg

/-! ### The end -/

/-- A strand that has come to its end starts nothing any more. -/
theorem startedIn_of_outcome (hproper : loop.Proper) {own first n : Nat} {ending : Ending}
    (hending : (loop.run first).outcome? own = some ending) :
    loop.startedIn own (List.range' first n) = [] := by
  refine Loop.startedIn_of_ne fun t ht hnext => ?_
  rw [List.mem_range'_1] at ht
  obtain ⟨more, rfl⟩ := Nat.exists_eq_add_of_le ht.1
  obtain ⟨⟨_, hturn⟩, _⟩ := hproper.run first
  obtain ⟨⟨_, hlater⟩, _⟩ := hproper.run (first + more)
  have hthere := hturn.outcome_run hending more
  rw [← Loop.run_add] at hthere
  cases hthere.symm.trans (hlater.unfinished own (by
    simpa [Loop.busy] using .inl (Loop.mem_due_of_next? hnext))).2

/-- The strand of a run comes to its end in its turn, and does nothing else there. -/
theorem ends_of_finish (hproper : loop.Proper) {code : Strand (Scene η) Ending}
    {queue : List (Event (Scene η) Ending)} {ending : Ending}
    (hqueue : (loop.run turns).queue = .turn 0 code :: queue)
    (hfollow : Loop.follow 0 code { loop.run turns with queue } =
      Loop.finish { loop.run turns with queue } 0 ending) (hlt : turns < last) :
    loop.startedIn 0 (List.range' turns (last - turns)) = [] ∧
      (loop.run last).outcome? 0 = some ending := by
  obtain ⟨⟨_, hturn⟩, _⟩ := hproper.run turns
  obtain ⟨_, hhaving⟩ := hturn.exists_turn hqueue
  have hstep : (loop.run turns).step = some (Loop.finish { loop.run turns with queue } 0 ending) := by
    unfold Loop.step
    rw [hqueue]
    exact congrArg some hfollow
  have hthere : 0 < (loop.run turns).records.length :=
    (hhaving.unfinished 0 (by simp [Loop.busy])).1
  have hending : (loop.run (turns + 1)).outcome? 0 = some ending := by
    rw [run_succ hstep]
    simp [Loop.outcome?, Loop.finish, List.getElem?_set_self hthere]
  have hlength : (loop.run (turns + 1)).records.length = (loop.run turns).records.length := by
    rw [run_succ hstep]
    exact List.length_set
  obtain ⟨more, rfl⟩ := Nat.exists_eq_add_of_le (Nat.succ_le_of_lt hlt)
  constructor
  · rw [show turns.succ + more - turns = more + 1 by omega, List.range'_succ, Loop.startedIn,
      List.flatMap_cons, ← Loop.startedIn, startedIn_of_outcome hproper hending, Loop.startedAt,
      hlength]
    simp
  · obtain ⟨⟨_, hlater⟩, _⟩ := hproper.run (turns + 1)
    rw [Loop.run_add]
    exact hlater.outcome_run hending more

theorem follow_over (hover : groups = [] ∨ loop.world.engine.status ≠ .running) :
    Loop.follow 0 (runGroups handling groups).strand loop = loop.finish 0 (.ok .nothing) := by
  cases groups with
  | nil => rfl
  | cons group rest =>
      have hstopped := hover.resolve_left (List.cons_ne_nil _ _)
      change loop.follow 0 ((if loop.world.engine.status = Status.running then
        (do runGroup handling group; runGroups handling rest) else pure ()) _) = _
      rw [if_neg hstopped]
      rfl

/-! ### All groups -/

namespace Itinerary

/-- The rules that are started, and the end of the run. -/
theorem startedIn (h : Itinerary handling loop last turns groups found result)
    (hproper : loop.Proper) :
    loop.startedIn 0 (List.range' turns (last - turns)) = found.map Processed.strand ∧
      (loop.run last).outcome? 0 = some (result.map Parceled.pack) := by
  have hsplit : ∀ {turns gap : Nat}, turns + 1 + gap < last →
      List.range' turns (last - turns) = List.range' turns (gap + 1) ++
        List.range' (turns + 1 + gap) (last - (turns + 1 + gap)) := by
    intro turns gap hlt
    rw [show turns + 1 + gap = turns + (gap + 1) by omega, List.range'_append_1]
    congr 1
    omega
  induction h with
  | rests hlt hqueue hover =>
      obtain ⟨queue, hqueue⟩ := hqueue
      exact ends_of_finish hproper hqueue (follow_over hover) hlt
  | fails hlt hleg hfails =>
      obtain ⟨queue, hqueue⟩ := hleg.next_of_error hfails
      obtain ⟨hnone, hending⟩ := ends_of_finish hproper hqueue rfl hlt
      refine ⟨?_, hending⟩
      rw [hsplit hlt, Loop.startedIn, List.flatMap_append, ← Loop.startedIn, ← Loop.startedIn,
        hleg.startedIn, hnone, List.append_nil]
  | goes hlt hleg _ _ ih =>
      refine ⟨?_, ih.2⟩
      rw [hsplit hlt, Loop.startedIn, List.flatMap_append, ← Loop.startedIn, ← Loop.startedIn,
        hleg.startedIn, ih.1, List.map_append]

/-- Each rule that was started has begun, and has come to its end. -/
theorem processed (h : Itinerary handling loop last turns groups found result)
    (hproper : loop.Proper) {processed : Processed} (hmem : processed ∈ found) :
    (∃ t < last, loop.FirstTurn processed.strand t (processed.code handling)) ∧
      (loop.run last).outcome? processed.strand = some processed.ending := by
  have hbatch : ∀ {turns gap : Nat} {batch : List Processed} {rest : List (List (Rule × Stamp))},
      turns + 1 + gap < last → Leg handling loop turns gap batch rest → processed ∈ batch →
        (∃ t < last, loop.FirstTurn processed.strand t (processed.code handling)) ∧
          (loop.run last).outcome? processed.strand = some processed.ending := by
    intro turns gap batch rest hlt hleg hmem
    obtain ⟨t, ht, _, hfirst⟩ := hleg.exists_firstTurn hproper hmem
    refine ⟨⟨turns + 1 + t, by omega, hfirst⟩, ?_⟩
    obtain ⟨more, rfl⟩ := Nat.exists_eq_add_of_le (Nat.le_of_lt hlt)
    obtain ⟨⟨_, hturn⟩, _⟩ := hproper.run (turns + 1 + gap)
    rw [Loop.run_add]
    exact hturn.outcome_run (hleg.outcome? hmem) more
  induction h with
  | rests _ _ _ => cases hmem
  | fails hlt hleg _ => exact hbatch hlt hleg hmem
  | goes hlt hleg _ _ ih =>
      rcases List.mem_append.1 hmem with hnow | hlater
      · exact hbatch hlt hleg hnow
      · exact ih hlater

end Itinerary

end Rulebook.Engine
