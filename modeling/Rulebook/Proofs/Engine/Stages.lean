import Rulebook.Proofs.Condition.Schedule
import Rulebook.Proofs.Engine.Afterwards
import Rulebook.Proofs.Gathering

/-!
What a run that nothing cuts short comes to, and in which order.

Handlers are free to do what they like, except that they neither take results away nor add any
(`Unobtrusive`).  A run that returns, and during which nobody stops the engine, then leaves one result
for each rule, the results are in the order of the priorities, and events and results go together
(`Complete`); what it hands back are these results, split by verdict (`Returned.Splits`).  The groups
come one after the other: when the strand of the run comes to a group, just the rules of the earlier
groups are recorded (`Boundary.next`, `run_complete`).
-/

namespace Rulebook.Engine

open Eval Strand Stamped

variable {η : Type} {plan : Plan η} {handling : Handling η} {engine : Engine η}
  {entries : List RuntimeEntry} {reused : Option (Almanac × RunJournal)} {place : Nat}
  {group : List Rule} {groups : List (List Rule)} {loop : Loop (Scene η) Ending}

/-! ### From group to group -/

/-- The strand of a run has the next turn, to go on with the groups from a place in the order on;
the rules before that place are through, and no others have begun. -/
def Boundary (plan : Plan η) (handling : Handling η) (place : Nat) (groups : List (List Rule))
    (loop : Loop (Scene η) Ending) : Prop :=
  ∃ queue ledger,
    loop.queue = .turn 0 (runGroups handling (stamped plan.number place groups)).strand :: queue ∧
      Loop.Balanced (charter plan) ledger (some 0) { loop with queue } ∧
        Between plan place ledger loop.world

theorem Boundary.outcome? (h : Boundary plan handling place groups loop) :
    loop.outcome? 0 = none := by
  obtain ⟨queue, ledger, _, hbalanced, _⟩ := h
  exact (hbalanced.inTurn.unfinished 0 (by simp [Loop.busy])).2

/-- What the strand of a run does after a group. -/
def goOn (handling : Handling η) (rest : List (List (Rule × Stamp))) :
    Except Error (List (Except Error Unit)) → Strand (Scene η) Ending
  | .ok outcomes =>
      match Schedule.allOk outcomes with
      | .ok _ => (runGroups handling rest).strand
      | .error e => .done (.error e)
  | .error e => .done (.error e)

theorem strand_group (group : List (Rule × Stamp)) (rest : List (List (Rule × Stamp))) :
    (do runGroup handling group; runGroups handling rest : Act η Unit).strand =
      Eval.each (group.map fun entry => process handling entry.1 entry.2) (goOn handling rest) := by
  have hgroup : runGroup handling group =
      Eval.each (group.map fun entry => process handling entry.1 entry.2) >>= fun outcomes =>
        Eval.outcome (Schedule.allOk outcomes) >>= fun _ => pure () := rfl
  unfold Eval.strand
  rw [hgroup, bind_assoc]
  change Eval.andThen _ _ _ = _
  unfold Eval.andThen
  congr 1
  funext result
  cases result with
  | error e => rfl
  | ok outcomes =>
      dsimp only [goOn]
      cases Schedule.allOk outcomes <;> rfl

/-- The turn in which a group is started. -/
theorem follow_runGroups (hrunning : loop.world.engine.status = .running)
    (group : List (Rule × Stamp)) (rest : List (List (Rule × Stamp))) :
    loop.follow 0 (runGroups handling (group :: rest)).strand =
      loop.follow 0 (Eval.each (group.map fun entry => process handling entry.1 entry.2)
        (goOn handling rest)) := by
  rw [← strand_group]
  change loop.follow 0 ((if loop.world.engine.status = Status.running then
    (do runGroup handling group; runGroups handling rest) else pure ()) _) = _
  rw [if_pos hrunning]
  rfl

/-- When a run returns, its strand comes from each group to the next, unless somebody stops the
engine. -/
theorem Boundary.next (h : Boundary plan handling place (group :: groups) loop)
    (htruth : loop.Truthful) (hrunning : loop.world.engine.status = .running)
    (hearlier : plan.earlier.Before plan.number) (hcourteous : Courteous plan handling)
    (hleft : plan.Left place (group :: groups)) (hsome : group ≠ []) {turns : Nat} {parcel : Parcel}
    (hreturns : (loop.run turns).outcome? 0 = some (.ok parcel)) :
    ∃ t < turns, Boundary plan handling (place + group.length) groups (loop.run t) := by
  cases turns with
  | zero => cases h.outcome?.symm.trans hreturns
  | succ turns =>
      obtain ⟨queue, ledger, hqueue, hbalanced, hbetween⟩ := h
      have hstep : loop.step = some (Loop.follow 0 (Eval.each
          ((stampedGroup plan.number place group).map fun entry => process handling entry.1 entry.2)
          (goOn handling (stamped plan.number (place + group.length) groups)))
            { loop with queue }) := by
        unfold Loop.step
        rw [hqueue]
        have hpopped : ({ loop with queue } : Loop (Scene η) Ending).world.engine.status =
          .running := hrunning
        exact congrArg some (follow_runGroups hpopped _ _)
      rw [Loop.run_succ_of_step hstep] at hreturns
      obtain ⟨hmay, hholds⟩ := at_openEach hbetween hrunning hleft.oneLevel plan.number
      have hentries : stampedGroup plan.number place group ≠ [] := by
        simpa [stampedGroup] using hsome
      have hrest := triple_runGroups hearlier hcourteous hleft.rest
      obtain ⟨t, ht, endings, hgathered⟩ := hbalanced.inTurn.exists_gathered (htruth.tail hqueue)
        (mt List.map_eq_nil_iff.1 hentries) rfl hreturns
      have hnote : ∀ (_ : Scene η) (a b : Account), True → a ≤ b → True := fun _ _ _ _ _ => trivial
      obtain ⟨later, _, ⟨rest, hnow, hbalanced'⟩, hat, hsettled, _⟩ :=
        hbalanced.gathered hnote hentries (fun entry hentry number =>
            (starts_group hearlier hcourteous hleft.order_cons entry hentry number).notes)
          hmay hholds (fun outcomes later scene hat hsettled => by
            rw [goOn]
            cases hall : Schedule.allOk outcomes with
            | error e => exact mayEnd_root hat e
            | ok results =>
                exact hrest (fun result => .done (result.map Parceled.pack)) (fun _ _ _ hend => hend)
                  later scene (between_of_settled hat hsettled (ok_of_allOk hall)))
          rfl hgathered
      refine ⟨t + 1, Nat.succ_lt_succ ht, ?_⟩
      rw [Loop.run_succ_of_step hstep]
      rw [goOn] at hnow
      cases hall : Schedule.allOk
          (endings.map fun ending => (received (some ending) : Except Error Unit)) with
      | ok results =>
          rw [hall] at hnow
          exact ⟨rest, later, hnow, hbalanced', between_of_settled hat hsettled (ok_of_allOk hall)⟩
      | error e =>
          -- The run would have failed with the group.
          rw [hall] at hnow
          obtain ⟨more, rfl⟩ : ∃ more, turns = t + (more + 1) := ⟨turns - t - 1, by omega⟩
          have hfails := hbalanced'.inTurn.outcome_of_done hnow more
          rw [Loop.run_add, hfails] at hreturns
          cases hreturns

/-- When a run returns, its strand comes to each group, unless somebody stops the engine. -/
theorem Boundary.run {first : List (List Rule)} {turns : Nat}
    (h : Boundary plan handling place (first ++ groups) loop)
    (htruth : ∀ t, (loop.run t).Truthful)
    (hrunning : ∀ t < turns, (loop.run t).world.engine.status = .running)
    (hearlier : plan.earlier.Before plan.number) (hcourteous : Courteous plan handling)
    (hleft : plan.Left place (first ++ groups)) (hsome : ∀ group ∈ first, group ≠ [])
    {parcel : Parcel} (hreturns : (loop.run turns).outcome? 0 = some (.ok parcel)) :
    ∃ t < turns, Boundary plan handling (place + first.flatten.length) groups (loop.run t) := by
  have hturns : 0 < turns := by
    rw [Nat.pos_iff_ne_zero]
    rintro rfl
    cases h.outcome?.symm.trans hreturns
  induction first generalizing place loop turns with
  | nil => exact ⟨0, hturns, h⟩
  | cons group first ih =>
      obtain ⟨hgroup, hfirst⟩ := List.forall_mem_cons.1 hsome
      obtain ⟨t, ht, hnext⟩ :=
        h.next (htruth 0) (hrunning 0 hturns) hearlier hcourteous hleft hgroup hreturns
      obtain ⟨more, rfl⟩ := Nat.exists_eq_add_of_le (Nat.le_of_lt ht)
      rw [Loop.run_add] at hreturns
      have hlater : ∀ t' < more, ((loop.run t).run t').world.engine.status = .running := by
        intro t' ht'
        rw [← Loop.run_add]
        exact hrunning (t + t') (Nat.add_lt_add_left ht' t)
      obtain ⟨t', ht', hlast⟩ := ih hnext (fun t' => Loop.run_add t t' loop ▸ htruth (t + t'))
        hlater hleft.rest hfirst hreturns (by omega)
      refine ⟨t + t', Nat.add_lt_add_left ht' t, ?_⟩
      rw [Loop.run_add, List.flatten_cons, List.length_append, ← Nat.add_assoc]
      exact hlast

/-- When the rules so far are through and nobody has stopped the engine, they are recorded. -/
theorem Progress.exists_own {start : Nat} {isOver : Bool} {phases : List Phase} {scene : Scene η}
    (h : Progress plan start isOver phases scene) (hthrough : ∀ phase ∈ phases, phase.IsThrough)
    (hrunning : scene.engine.status = .running) : ∃ own, Own plan own phases.length scene := by
  obtain ⟨n, hle, hstopped, hrecorded⟩ := h.orderly.exists_recorded hthrough
  obtain ⟨own, hown⟩ := h.entries
  obtain rfl : n = phases.length :=
    Nat.le_antisymm hle (Nat.not_lt.1 fun hlt => hstopped hlt hrunning)
  exact ⟨own, own_of_entries hown hrecorded⟩

/-- Between two groups just the rules so far are recorded. -/
theorem Boundary.exists_own (h : Boundary plan handling place groups loop)
    (hrunning : loop.world.engine.status = .running) : ∃ own, Own plan own place loop.world := by
  obtain ⟨_, _, _, _, _, _, phases, _, _, rfl, hprogress, hthrough⟩ := h
  exact hprogress.exists_own hthrough hrunning

/-- When a run has returned, and nobody has stopped the engine, all rules are recorded. -/
theorem exists_own_of_outcome {ledger : Ledger Account}
    (hbalanced : Loop.Balanced (charter plan) ledger none loop)
    (hholds : (charter plan).holds ledger loop.world) {parcel : Parcel}
    (houtcome : loop.outcome? 0 = some (.ok parcel))
    (hrunning : loop.world.engine.status = .running) :
    ∃ own, Own plan own plan.order.length loop.world := by
  obtain ⟨start, finish, isOver, phases, hbooks, _, hprogress⟩ := hholds
  obtain ⟨account, haccount, hsettles⟩ := hbalanced.outcome 0 _ houtcome
  cases hbooks.root.symm.trans haccount
  obtain ⟨hthrough, hlast⟩ := hprogress.isOver (hsettles.resolve_right nofun)
  rw [← hlast.resolve_right fun hstopped => hstopped hrunning]
  exact hprogress.exists_own hthrough hrunning

/-! ### What a run comes to -/

/-- A journal after a run of an engine, in which each of its rules was evaluated once: the results
are in the order of the priorities, and each of them has its event. -/
structure Complete (engine : Engine η) (journal : RunJournal) : Prop where
  order : engine.runOrder.Perm engine.rules
  places : (Stamped.places journal.results).Perm (List.range engine.runOrder.length)
  rule : ∀ entry ∈ journal.results, ∃ rule,
    engine.runOrder[entry.stamp.place]? = some rule ∧ entry.item.Of rule
  sorted : journal.results.Pairwise fun entry later =>
    entry.item.priority.level ≤ later.item.priority.level
  events : ∀ verdict, journal.eventsOf (Journal.outcomeOf verdict) =
    (withVerdict verdict journal.results).map eventOf

/-- What is handed back is split by verdict, in the order of the results and with their events. -/
structure Returned.Splits (returned : Returned) (recorded : List RuleResult) : Prop where
  results : returned.results = recorded.filter (·.result)
  failureResults : returned.failureResults = recorded.filter (!·.result)
  events : returned.events = returned.results.map RuleResult.event
  failureEvents : returned.failureEvents = returned.failureResults.map RuleResult.event

/-- What is handed back by a run that does not fail. -/
theorem Complete.exists_returned {ended : RunEnd η} (h : Complete engine ended.run.journal)
    (hreturns : ended.failure = none) :
    ∃ returned, ended.returned = .ok returned ∧ returned.almanac = ended.run.almanac ∧
      returned.Splits (ended.run.journal.results.map Stamped.item) := by
  unfold RunEnd.returned
  rw [hreturns]
  refine ⟨_, rfl, rfl, ?_⟩
  have hevents : ∀ verdict, (ended.run.journal.eventsOf (Journal.outcomeOf verdict)).map
      Stamped.item = ((withVerdict verdict ended.run.journal.results).map Stamped.item).map
        RuleResult.event := by
    intro verdict
    rw [h.events verdict, List.map_map, List.map_map]
    rfl
  constructor
  · simp [withVerdict, List.filter_map, Function.comp_def]
  · simp [withVerdict, List.filter_map, Function.comp_def]
  · exact hevents true
  · exact hevents false

/-- The strand of a run has the next turn, to start the first of the groups that are left; and just
the rules that come before them in the order of the run are recorded. -/
def ComesTo (handling : Handling η) (number place : Nat) (groups : List (List Rule))
    (loop : Loop (Scene η) Ending) : Prop :=
  (∃ queue, loop.queue = .turn 0 (runGroups handling (stamped number place groups)).strand :: queue) ∧
    (places loop.world.run.journal.results).Perm (List.range place)

theorem Boundary.comesTo (h : Boundary plan handling place groups loop)
    (hrunning : loop.world.engine.status = .running) (hearlier : plan.earlier = Journal.empty) :
    ComesTo handling plan.number place groups loop := by
  obtain ⟨own, hown⟩ := h.exists_own hrunning
  obtain ⟨queue, _, hqueue, _⟩ := h
  have hresults := hown.chronicle.results
  rw [hearlier] at hresults
  exact ⟨⟨queue, hqueue⟩, by rw [hresults]; exact hown.places⟩

/-- The results of a run without earlier ones, once all rules are recorded. -/
theorem Own.complete {own : List (Stamped RuleResult)} {scene : Scene η}
    (h : Own (planOf engine reused (fun rule => rule.priority.level) (fun _ => false) True False) own
      engine.runOrder.length scene) (hgrouped : Grouped engine)
    (hfresh : journalBefore reused = Journal.empty) : Complete engine scene.run.journal := by
  obtain ⟨hchronicle, hplaces, _, hsorted, _⟩ := h
  rw [show (planOf engine reused _ _ True False).earlier = Journal.empty from hfresh] at hchronicle
  have hresults : scene.run.journal.results = own := hchronicle.results
  have hpairs := hsorted hgrouped.runOrder_sorted
  rw [Stamped.places, List.pairwise_map] at hpairs
  constructor
  · rw [hgrouped.runOrder_eq]
    exact batchesBy_perm _ _
  · rw [hresults]
    exact hplaces
  · rw [hresults]
    exact hchronicle.rule
  · rw [hresults]
    refine hpairs.imp_of_mem fun hfirst hsecond hle => ?_
    obtain ⟨rule, hrule, hof⟩ := hchronicle.rule _ hfirst
    obtain ⟨other, hother, hof'⟩ := hchronicle.rule _ hsecond
    rw [hof.priority, hof'.priority]
    exact hle rule other hrule hother
  · intro verdict
    rw [hchronicle.events verdict, hresults]
    exact congrArg (· ++ _) (Journal.eventsOf_empty verdict)

/-- Where a run starts that returns. -/
theorem exists_opening (hreturns : (engine.run handling entries reused).1.failure = none) :
    ∃ almanac parcel,
      let loop := Loop.start (firstScene engine almanac (journalBefore reused))
        (runGroups handling (stamped engine.runs 0 engine.prioritize.1)).strand
      opening handling engine entries reused = some loop ∧
        (loop.run turnLimit).outcome? 0 = some (.ok parcel) := by
  obtain ⟨almanac, hentries⟩ := exists_almanac hreturns
  have hopening : opening handling engine entries reused = some (Loop.start
      (firstScene engine almanac (journalBefore reused))
        (runGroups handling (stamped engine.runs 0 engine.prioritize.1)).strand) := by
    rw [opening, hentries]
  rw [run_of_opening hopening, endOf] at hreturns
  refine ⟨almanac, ?_⟩
  cases hout : ((Loop.start (firstScene engine almanac (journalBefore reused))
      (runGroups handling (stamped engine.runs 0 engine.prioritize.1)).strand).run
        turnLimit).outcome? 0 with
  | none =>
      rw [hout] at hreturns
      cases hreturns
  | some ending =>
      rw [hout] at hreturns
      cases ending with
      | ok parcel => exact ⟨parcel, hopening, hout⟩
      | error e => cases hreturns

/-- A run starts balanced. -/
theorem balanced_first {level : Rule → Nat} {stops : η → Bool} {free counting : Prop}
    (hcourteous : Courteous (planOf engine reused level stops free counting) handling)
    (hearlier : (journalBefore reused).Before engine.runs)
    (hlevel : ∀ group ∈ engine.prioritize.1, ∀ rule ∈ group, ∀ other ∈ group,
      level rule = level other) (almanac : Almanac) :
    Loop.Balanced (charter (planOf engine reused level stops free counting))
      ⟨[.root 0 0 false], 0⟩ none
      (Loop.start (firstScene engine almanac (journalBefore reused))
        (runGroups handling (stamped engine.runs 0 engine.prioritize.1)).strand) :=
  Loop.balanced_start (triple_begins hcourteous hearlier hlevel).starts

/-- Handlers that neither take results away nor add any do as a plan asks in which none of them stops
the engine. -/
theorem courteous_of_unobtrusive {level : Rule → Nat} {free counting : Prop}
    (h : ∀ call, Within (Unobtrusive free counting call.stamp.run) (handling call)) :
    Courteous (planOf engine reused level (fun _ => false) free counting) handling :=
  ⟨fun call hrun _ => hrun ▸ h call, fun _ _ hwrong => nomatch hwrong⟩

/-- A run that returns, and at whose end nobody has stopped the engine, leaves one result for each
rule. -/
theorem complete_of_running
    (hhandling : ∀ call, Within (Unobtrusive True False call.stamp.run) (handling call))
    (hgrouped : Grouped engine) (hfresh : journalBefore reused = Journal.empty)
    (hreturns : (engine.run handling entries reused).1.failure = none)
    (hrunning : ∀ loop, opening handling engine entries reused = some loop →
      (loop.run turnLimit).world.engine.status = .running) :
    Complete engine (engine.run handling entries reused).1.run.journal := by
  have hearlier : (journalBefore reused).Before engine.runs := hfresh ▸ Journal.before_empty _
  obtain ⟨almanac, parcel, hopening, hending⟩ := exists_opening hreturns
  have hstart := balanced_first (courteous_of_unobtrusive hhandling) hearlier hgrouped.oneLevel almanac
  obtain ⟨ledger, _, hbalanced, hworld⟩ := hstart.run
    (holds_first engine reused (fun rule => rule.priority.level) (fun _ => false) True False almanac)
    turnLimit
  obtain ⟨own, hown⟩ := exists_own_of_outcome hbalanced hworld hending (hrunning _ hopening)
  rw [run_of_opening hopening]
  exact hown.complete hgrouped hfresh

/-- Nobody stops the engine while a run goes on. -/
def NeverStopped (handling : Handling η) (engine : Engine η) (entries : List RuntimeEntry)
    (reused : Option (Almanac × RunJournal)) : Prop :=
  ∀ loop, opening handling engine entries reused = some loop →
    ∀ turns ≤ turnLimit, (loop.run turns).world.engine.status = .running

/-- A run that returns, whose almanac had nothing recorded in it, and during which nobody stops the
engine, takes results away or adds any, leaves one result for each rule, in the order of the
priorities, with events to match, and hands them back split by verdict.  Its strand comes to each
group at some turn, and by then just the rules of earlier groups are recorded. -/
theorem run_complete
    (hhandling : ∀ call, Within (Unobtrusive True False call.stamp.run) (handling call))
    (hstop : NeverStopped handling engine entries reused) (hgrouped : Grouped engine)
    (hfresh : journalBefore reused = Journal.empty)
    (hreturns : (engine.run handling entries reused).1.failure = none) :
    Complete engine (engine.run handling entries reused).1.run.journal ∧
      (∃ returned, (engine.run handling entries reused).1.returned = .ok returned ∧
        returned.Splits
          ((engine.run handling entries reused).1.run.journal.results.map Stamped.item)) ∧
      ∃ loop, opening handling engine entries reused = some loop ∧
        (engine.run handling entries reused).1 = endOf (loop.run turnLimit) ∧
          ∀ first rest, groupsOf engine.rules = first ++ rest → ∃ turns < turnLimit,
            ComesTo handling engine.runs first.flatten.length rest (loop.run turns) := by
  let plan := planOf engine reused (fun rule => rule.priority.level) (fun _ => false) True False
  have hearlier : (journalBefore reused).Before engine.runs := hfresh ▸ Journal.before_empty _
  have hcourteous : Courteous plan handling := courteous_of_unobtrusive hhandling
  have hlevel : ∀ group ∈ engine.prioritize.1, ∀ rule ∈ group, ∀ other ∈ group,
      plan.level rule = plan.level other := hgrouped.oneLevel
  obtain ⟨almanac, parcel, hopening, hending⟩ := exists_opening hreturns
  have hrunning := hstop _ hopening
  have hcomplete := complete_of_running hhandling hgrouped hfresh hreturns fun loop hloop =>
    hstop loop hloop turnLimit (Nat.le_refl _)
  obtain ⟨returned, hreturned, _, hsplits⟩ := hcomplete.exists_returned hreturns
  refine ⟨hcomplete, ⟨returned, hreturned, hsplits⟩, _, hopening, run_of_opening hopening,
    fun first rest hgroups => ?_⟩
  have hstart := balanced_first hcourteous hearlier hlevel almanac
  have hholds := holds_first engine reused plan.level plan.stops plan.free plan.counting almanac
  have hfirst : Boundary plan handling 0 engine.prioritize.1 _ :=
    ⟨[], _, rfl, hstart.turnOf_first rfl, between_of_begins ⟨_, rfl, rfl, rfl, hholds⟩⟩
  have hleft : plan.Left 0 engine.prioritize.1 := ⟨rfl, Nat.zero_le _, hlevel⟩
  have hsome : ∀ group ∈ first, group ≠ [] :=
    fun group hgroup => batchesBy_ne_nil (hgroups ▸ List.mem_append_left rest hgroup)
  rw [hgrouped.prioritize_fst, hgroups] at hfirst hleft hending hrunning ⊢
  obtain ⟨turns, hturns, hboundary⟩ := hfirst.run
    (fun t => ((Loop.proper_start _ _).run t).truthful)
    (fun t ht => hrunning t (Nat.le_of_lt ht)) hearlier hcourteous hleft hsome hending
  rw [Nat.zero_add] at hboundary
  exact ⟨turns, hturns, hboundary.comesTo (hrunning turns (Nat.le_of_lt hturns)) hfresh⟩

/-- It is enough to look at the turns of a run until nothing is due any more. -/
theorem neverStopped_of_queue (last : Nat)
    (h : (opening handling engine entries reused).map (fun loop =>
      ((loop.run last).queue.isEmpty, (List.range (last + 1)).all fun turns =>
        (loop.run turns).world.engine.status = .running)) = some (true, true)) :
    NeverStopped handling engine entries reused := by
  intro loop hopening turns _
  rw [hopening, Option.map_some, Option.some.injEq, Prod.mk.injEq, List.isEmpty_iff,
    List.all_eq_true] at h
  obtain ⟨hqueue, hstatus⟩ := h
  have hrunning : ∀ turns < last + 1, (loop.run turns).world.engine.status = .running :=
    fun turns hturns => of_decide_eq_true (hstatus turns (List.mem_range.2 hturns))
  rcases Nat.le_total turns last with hle | hle
  · exact hrunning turns (Nat.lt_succ_of_le hle)
  · rw [Loop.run_eq_of_queue_nil hle hqueue]
    exact hrunning last (Nat.lt_succ_self _)

open Overlap (attended) in
theorem neverStopped_attended : NeverStopped Catalogue.handle attended [] none :=
  neverStopped_of_queue 16 (by decide +kernel)

open Overlap (attended) in
/-- The run of two groups, with a handler that lets others go first. -/
theorem run_complete_attended :
    (attended.run Catalogue.handle [] none).1.failure = none ∧
      (groupsOf attended.rules).length = 2 ∧
      Complete attended (attended.run Catalogue.handle [] none).1.run.journal ∧
      (∃ returned, (attended.run Catalogue.handle [] none).1.returned = .ok returned ∧
        returned.Splits
          ((attended.run Catalogue.handle [] none).1.run.journal.results.map Stamped.item)) ∧
      ∃ loop, opening Catalogue.handle attended [] none = some loop ∧
        (attended.run Catalogue.handle [] none).1 = endOf (loop.run turnLimit) ∧
          ∀ first rest, groupsOf attended.rules = first ++ rest → ∃ turns < turnLimit,
            ComesTo Catalogue.handle attended.runs first.flatten.length rest (loop.run turns) :=
  have hreturns : (attended.run Catalogue.handle [] none).1.failure = none := by decide +kernel
  have hgrouped : Grouped attended := fun _ hgroups => nomatch hgroups
  ⟨hreturns, by decide +kernel, run_complete (fun call =>
    (Catalogue.within_handle call fun _ => trivial).mono fun _ _ hnow => hnow.unobtrusive False)
      neverStopped_attended hgrouped rfl hreturns⟩

end Rulebook.Engine
