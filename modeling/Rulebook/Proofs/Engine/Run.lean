import Rulebook.Proofs.Engine.Groups
import Rulebook.Proofs.Engine.Handlers
import Rulebook.Proofs.Priority

/-!
What a run reports, and what stopping does to it.

A run adds its own results and events to the journal that it is given, one result for each rule that
it evaluates (`run_adds`); so it reports those of earlier runs as well when the journal was used
before.  The rules that are evaluated are the first ones in the order of the run, up to some point in
the group for which a handler stopped the engine (`run_stopped`): no later group starts, but the
group itself may be cut short.
-/

namespace Rulebook.Engine

open Eval Strand Stamped

variable {η : Type} {handling : Handling η} {engine : Engine η} {entries : List RuntimeEntry}
  {reused : Option (Almanac × RunJournal)} {stops : η → Bool} {free counting : Prop}
  {level : Rule → Nat}

/-- The rules in the order of a run. -/
def runOrder (engine : Engine η) : List Rule := engine.prioritize.1.flatten

/-- What was recorded before a run. -/
def journalBefore (reused : Option (Almanac × RunJournal)) : RunJournal :=
  (reused.map (·.2)).getD Journal.empty

/-- How many rules an engine has counted under each label, if it counts anything. -/
def ruleCounts (engine : Engine η) : Option (String → Nat) :=
  engine.tally.map fun tally => tally.amount .rules

/-- The plan of a run. -/
def planOf (engine : Engine η) (reused : Option (Almanac × RunJournal)) (level : Rule → Nat)
    (stops : η → Bool) (free counting : Prop) : Plan η where
  number := engine.runs
  order := engine.runOrder
  level := level
  earlier := journalBefore reused
  counts := engine.ruleCounts
  stops := stops
  free := free
  counting := counting

/-- Polite handlers do as the plan of a run asks, also where the run alone counts rules. -/
theorem Polite.follows (h : Polite stops free handling) :
    Courteous (planOf engine reused level stops free True) handling :=
  h.courteous

/-- How a run that was started leaves things. -/
def Ended (plan : Plan η) (ended : RunEnd η) (later : Engine η) : Prop :=
  ∃ start isOver phases scene, Progress plan start isOver phases scene ∧
    (ended.failure = none → isOver = true) ∧ ended.run = scene.run ∧ later = scene.engine.stop

/-- What a run starts from. -/
def firstScene (engine : Engine η) (almanac : Almanac) (journal : RunJournal) : Scene η where
  engine := { engine.prioritize.2 with runs := engine.runs + 1, status := .running }
  run := { number := engine.runs, almanac, journal, calls := [] }

theorem almanacFor_runs (engine : Engine η) (number : Nat) (reused : Option Almanac) :
    ({ engine with runs := number } : Engine η).almanacFor reused = engine.almanacFor reused := by
  cases reused <;> rfl

theorem prioritize_runs (engine : Engine η) (number : Nat) :
    ({ engine with runs := number } : Engine η).prioritize =
      (engine.prioritize.1, { engine.prioritize.2 with runs := number }) := by
  obtain ⟨_, _, _, _, _, grouping, _, _, _, _, _⟩ := engine
  cases grouping <;> rfl

theorem tally_prioritize (engine : Engine η) : engine.prioritize.2.tally = engine.tally := by
  unfold prioritize
  split <;> rfl

theorem registry_prioritize (engine : Engine η) :
    engine.prioritize.2.registry = engine.registry := by
  unfold prioritize
  split <;> rfl

/-- A run whose entries are refused starts nothing. -/
theorem run_refused (handling : Handling η) {almanac : Almanac} {e : Error}
    (hentries : (engine.almanacFor (reused.map (·.1))).addEntries entries = (almanac, some e)) :
    engine.run handling entries reused =
      (⟨⟨engine.runs, almanac, journalBefore reused, []⟩, some e, false⟩,
        { engine with runs := engine.runs + 1 }) := by
  unfold Engine.run
  dsimp only
  rw [almanacFor_runs, hentries]
  rfl

/-- The steps of a run that is not refused. -/
theorem run_started (handling : Handling η) {almanac : Almanac}
    (hentries : (engine.almanacFor (reused.map (·.1))).addEntries entries = (almanac, none)) :
    let result := Eval.run (firstScene engine almanac (journalBefore reused))
      (runGroups handling (stamped engine.runs 0 engine.prioritize.1))
    engine.run handling entries reused =
      (⟨result.2.run, match result.1 with | .ok _ => none | .error e => some e, true⟩,
        result.2.engine.stop) := by
  unfold Engine.run
  dsimp only
  rw [almanacFor_runs, hentries]
  dsimp only
  rw [prioritize_runs]
  dsimp only [firstScene, journalBefore]
  split <;> simp_all

/-- The charter holds when a run starts. -/
theorem holds_first (engine : Engine η) (reused : Option (Almanac × RunJournal)) (level : Rule → Nat)
    (stops : η → Bool) (free counting : Prop) (almanac : Almanac) :
    (charter (planOf engine reused level stops free counting)).holds ⟨[.root 0 0 false], 0⟩
      (firstScene engine almanac (journalBefore reused)) := by
  refine ⟨0, 0, false, [], ⟨rfl, rfl, fun strand place phase h => ?_, Nat.zero_le _⟩, rfl, ?_⟩
  · cases strand <;> cases h
  · refine .zero rfl rfl rfl rfl rfl ?_
    change engine.prioritize.2.tally.map _ = _
    rw [tally_prioritize]
    rfl

/-- The strand of a run has its first turn. -/
theorem between_of_begins {plan : Plan η} {ledger : Ledger Account} {scene : Scene η}
    (h : Begins (charter plan) 0 (.root 0 0 false) ledger scene) : Between plan 0 ledger scene := by
  obtain ⟨before, rfl, hbegun, haccount, start, finish, isOver, phases, hbooks, hlength,
    hprogress⟩ := h
  cases hbooks.root.symm.trans haccount
  obtain rfl := List.length_eq_zero_iff.1 hlength
  refine ⟨0, 0, [], ?_, rfl, rfl, hprogress, nofun⟩
  exact hbooks.begin_other (hbegun.symm ▸ haccount) rfl

/-- The strand of a run keeps to the charter from its first turn on. -/
theorem triple_begins
    (hcourteous : Courteous (planOf engine reused level stops free counting) handling)
    (hearlier : (journalBefore reused).Before engine.runs)
    (hlevel : ∀ group ∈ engine.prioritize.1, ∀ rule ∈ group, ∀ other ∈ group,
      level rule = level other) :
    let plan := planOf engine reused level stops free counting
    Triple (charter plan) 0 (Begins (charter plan) 0 (.root 0 0 false))
      (runGroups handling (stamped engine.runs 0 engine.prioritize.1))
      (MayEnd (charter plan) 0) :=
  Triple.imp (triple_runGroups hearlier hcourteous ⟨rfl, Nat.zero_le _, hlevel⟩)
    (fun _ _ => between_of_begins) fun _ _ _ h => h

/-- A run follows its plan. -/
theorem run_ended (level : Rule → Nat)
    (hcourteous : Courteous (planOf engine reused level stops free counting) handling)
    (hearlier : (journalBefore reused).Before engine.runs)
    (hlevel : ∀ group ∈ engine.prioritize.1, ∀ rule ∈ group, ∀ other ∈ group,
      level rule = level other) {almanac : Almanac}
    (hentries : (engine.almanacFor (reused.map (·.1))).addEntries entries = (almanac, none)) :
    Ended (planOf engine reused level stops free counting) (engine.run handling entries reused).1
      (engine.run handling entries reused).2 := by
  let scene := firstScene engine almanac (journalBefore reused)
  obtain ⟨ledger, ⟨start, finish, isOver, phases, hend, _, hprogress⟩, hresult⟩ :=
    (triple_begins hcourteous hearlier hlevel).run
      (show (charter _).holds _ scene from holds_first engine reused level stops free counting _)
  rw [run_started handling hentries]
  refine ⟨start, isOver, phases, _, hprogress, fun hok => ?_, rfl, rfl⟩
  cases hout : (Eval.run scene
      (runGroups handling (stamped engine.runs 0 engine.prioritize.1))).1 with
  | error e =>
      simp only [scene] at hout
      simp [hout] at hok
  | ok u =>
      obtain ⟨account, parcel, haccount, hsettles⟩ := hresult u hout
      cases hend.root.symm.trans haccount
      rcases hsettles with hover | ⟨e, hwrong⟩
      · exact hover
      · cases hwrong

/-! ### What a run adds -/

/-- The results of a run that was not cut off by a failure are those of the first `n` rules. -/
structure Own (plan : Plan η) (own : List (Stamped RuleResult)) (n : Nat) (scene : Scene η) :
    Prop where
  chronicle : Chronicle plan.number plan.order plan.earlier own scene.run.journal
  places : (places own).Perm (List.range n)
  le : n ≤ plan.order.length
  sorted : plan.Sorted → (Stamped.places own).Pairwise plan.MayPrecede
  counts : plan.counting → (HasSession.session scene).ruleCounts =
    plan.counts.map fun count label => count label + counted own label

theorem own_of_entries {plan : Plan η} {own : List (Stamped RuleResult)} {phases : List Phase}
    {scene : Scene η} (h : Entries plan own phases scene) {n : Nat}
    (hrecorded : ∀ place, place < n ↔
      ∃ phase, phases[place]? = some phase ∧ phase.isRecorded = true) : Own plan own n scene := by
  have hmem : ∀ place, place ∈ places own ↔ place < n :=
    fun place => (h.places place).trans (hrecorded place).symm
  refine ⟨h.chronicle, ?_, ?_, h.sorted, h.counts⟩
  · refine (List.perm_ext_iff_of_nodup h.chronicle.nodup List.nodup_range).2 fun place => ?_
    rw [hmem, List.mem_range]
  · by_contra hlt
    obtain ⟨entry, hentry, hplace⟩ := List.mem_map.1
      ((hmem plan.order.length).2 (Nat.lt_of_not_le hlt))
    obtain ⟨rule, hrule, _⟩ := h.chronicle.rule entry hentry
    rw [hplace, List.getElem?_eq_none (Nat.le_refl _)] at hrule
    cases hrule

theorem exists_almanac (hreturns : (engine.run handling entries reused).1.failure = none) :
    ∃ almanac, (engine.almanacFor (reused.map (·.1))).addEntries entries = (almanac, none) := by
  cases hentries : (engine.almanacFor (reused.map (·.1))).addEntries entries with
  | mk almanac refused =>
      cases refused with
      | none => exact ⟨almanac, rfl⟩
      | some e =>
          rw [run_refused handling hentries] at hreturns
          cases hreturns

/-- A rule that holds always. -/
def always (name type : String) : Rule where
  name := some name
  priority := Priority.first
  event := ⟨type, none⟩
  conditions := .all [] none Priority.first

/-- An engine with rules and handlers, and the default configuration. -/
def equipped (rules : List Rule) (handlers : Table Value (List Catalogue.Handler)) :
    Engine Catalogue.Handler :=
  let plain : Engine Catalogue.Handler :=
    create (Config.settings.map fun setting => (setting.name, setting.default))
  { plain.withRules rules with handlers }

/-- What is so of all handlers that are subscribed is so of those of each event. -/
theorem forall_mem_handlersOf {P : η → Prop}
    (h : ∀ handlers ∈ engine.handlers.values, ∀ handler ∈ handlers, P handler) (event : Value)
    (handler : η) (hhandler : handler ∈ engine.handlersOf event) : P handler := by
  unfold handlersOf at hhandler
  cases hfound : engine.handlers.find? event with
  | none =>
      rw [hfound] at hhandler
      cases hhandler
  | some handlers =>
      rw [hfound] at hhandler
      exact h handlers (Table.mem_values_of_find? hfound) handler hhandler

/-- The first run of an engine with a single rule, which always holds. -/
def single : RunEnd Catalogue.Handler × Engine Catalogue.Handler :=
  (equipped [always "a" "x"] []).run Catalogue.handle [] none

/-- What the first run leaves, for use in a second one. -/
def again : Option (Almanac × RunJournal) := some (single.1.run.almanac, single.1.run.journal)

/-- The groups that an engine keeps are those of its rules. -/
def Grouped (engine : Engine η) : Prop :=
  ∀ groups, engine.grouping = some groups → groups = groupsOf engine.rules

theorem grouped_create (config : Config) : Grouped (create config : Engine η) := nofun

theorem grouped_withRules (engine : Engine η) (rules : List Rule) :
    Grouped (engine.withRules rules) :=
  nofun

theorem Grouped.prioritize_fst (h : Grouped engine) :
    engine.prioritize.1 = groupsOf engine.rules := by
  unfold prioritize
  split
  · next groups hgroups => exact h groups hgroups
  · rfl

theorem Grouped.prioritize_snd (h : Grouped engine) : Grouped engine.prioritize.2 := by
  unfold prioritize
  split
  · exact h
  · exact fun groups hgroups => (Option.some.inj hgroups).symm

/-- The rules of a group that is run are of one priority. -/
theorem Grouped.oneLevel (h : Grouped engine) :
    ∀ group ∈ engine.prioritize.1, ∀ rule ∈ group, ∀ other ∈ group,
      rule.priority.level = other.priority.level := by
  rw [h.prioritize_fst]
  exact fun group hgroup rule hrule other hother => batchesBy_level hgroup hrule hother

theorem Grouped.runOrder_eq (h : Grouped engine) :
    engine.runOrder = (groupsOf engine.rules).flatten := by
  rw [runOrder, h.prioritize_fst]

/-- A run goes by the priorities. -/
theorem Grouped.runOrder_sorted (h : Grouped engine) :
    engine.runOrder.Pairwise fun rule later => rule.priority.level ≤ later.priority.level :=
  h.runOrder_eq ▸ batchesBy_flatten_sorted _ _

/-- When handlers stop the engine, the rules that are evaluated are the first ones, up to some place
after the rule for which such a handler was called, and none of them has a larger priority number
than that rule.  All rules are evaluated unless a handler stops the engine. -/
theorem run_stopped (hpolite : Polite stops False handling) (hgrouped : Grouped engine)
    (hearlier : (journalBefore reused).Before engine.runs)
    (hreturns : (engine.run handling entries reused).1.failure = none) :
    ∃ own n, Chronicle engine.runs engine.runOrder (journalBefore reused) own
        (engine.run handling entries reused).1.run.journal ∧
      (places own).Perm (List.range n) ∧ n ≤ engine.runOrder.length ∧
      (n < engine.runOrder.length →
        ∃ call ∈ (engine.run handling entries reused).1.run.calls, stops call.handler = true) ∧
      ∀ call ∈ (engine.run handling entries reused).1.run.calls, stops call.handler = true →
        call.stamp.place < n ∧ ∀ place < n, ∀ rule other, engine.runOrder[place]? = some rule →
          engine.runOrder[call.stamp.place]? = some other →
            rule.priority.level ≤ other.priority.level := by
  obtain ⟨almanac, hentries⟩ := exists_almanac hreturns
  obtain ⟨start, isOver, phases, scene, hprogress, hover, hrun, hlater⟩ :=
    run_ended (fun rule => rule.priority.level) hpolite.follows hearlier hgrouped.oneLevel hentries
  obtain ⟨hthrough, hlast⟩ := hprogress.isOver (hover hreturns)
  obtain ⟨n, hn, hstopped, hrecorded⟩ := hprogress.orderly.exists_recorded hthrough
  obtain ⟨own, hown⟩ := hprogress.entries
  obtain ⟨hchronicle, hplaces, hle, _⟩ := own_of_entries hown hrecorded
  rw [hrun]
  refine ⟨own, n, hchronicle, hplaces, hle, fun hlt => ?_, fun call hcall hstops => ?_⟩
  · refine hprogress.cause id (.inl ?_)
    rcases hlast with hall | hstop
    · exact hstopped (hall.symm ▸ hlt)
    · exact hstop
  · obtain ⟨hstart, phase, hphase, hphaseRecorded, _⟩ := hprogress.timely call hcall hstops
    have hcalled := (hrecorded call.stamp.place).2 ⟨phase, hphase, hphaseRecorded⟩
    refine ⟨hcalled, fun place hplace rule other hrule hother => ?_⟩
    by_cases hle : start ≤ place
    · exact Nat.le_of_eq (hprogress.level place call.stamp.place rule other hle hstart
        (Nat.lt_of_lt_of_le hplace hn) (Nat.lt_of_lt_of_le hcalled hn) hrule hother)
    · -- The rules of earlier groups come first because their priority numbers are smaller.
      obtain ⟨hlt, rfl⟩ := List.getElem?_eq_some_iff.1 hrule
      obtain ⟨hlt', rfl⟩ := List.getElem?_eq_some_iff.1 hother
      exact List.pairwise_iff_getElem.1 hgrouped.runOrder_sorted place call.stamp.place hlt hlt' (by omega)

/-- An engine with two rules of one priority; a handler of the first one's event stops it. -/
def halting : Engine Catalogue.Handler :=
  equipped [always "a" "x", always "b" "y"] [(.str "x", [⟨.str "S", .stop, false⟩])]

/-- The run of two rules that is stopped while the first one is reported. -/
theorem run_stopped_halting : (halting.run Catalogue.handle [] none).1.failure = none ∧
    ∃ own n, Chronicle halting.runs halting.runOrder Journal.empty own
        (halting.run Catalogue.handle [] none).1.run.journal ∧
      (places own).Perm (List.range n) ∧ n ≤ halting.runOrder.length ∧
      (n < halting.runOrder.length → ∃ call ∈ (halting.run Catalogue.handle [] none).1.run.calls,
        call.handler.stops = true) ∧
      ∀ call ∈ (halting.run Catalogue.handle [] none).1.run.calls, call.handler.stops = true →
        call.stamp.place < n ∧ ∀ place < n, ∀ rule other, halting.runOrder[place]? = some rule →
          halting.runOrder[call.stamp.place]? = some other →
            rule.priority.level ≤ other.priority.level :=
  have hreturns : (halting.run Catalogue.handle [] none).1.failure = none := by decide +kernel
  have hgrouped : Grouped halting := fun _ hgroups => nomatch hgroups
  ⟨hreturns, run_stopped Catalogue.polite_handle hgrouped
    (show (journalBefore none).Before _ from Journal.before_empty _) hreturns⟩

/-- When a handler stops the engine, all rules with the priority of its rule are evaluated and
recorded. -/
def FinishesGroup (engine : Engine η) (stops : η → Bool) (ended : RunEnd η) : Prop :=
  ∀ call ∈ ended.run.calls, stops call.handler = true →
    ∀ place rule other, engine.runOrder[place]? = some rule →
      engine.runOrder[call.stamp.place]? = some other →
        rule.priority.level = other.priority.level →
          ∃ entry ∈ ended.run.journal.results, entry.stamp.place = place

/-- A rule of the same group that has not begun when the engine is stopped is skipped. -/
theorem not_finishesGroup_halting : (halting.run Catalogue.handle [] none).1.failure = none ∧
    ¬ FinishesGroup halting Catalogue.Handler.stops
      (halting.run Catalogue.handle [] none).1 := by
  refine ⟨by decide +kernel, fun hfinishes => ?_⟩
  have hcalls : ((halting.run Catalogue.handle [] none).1.run.calls.map fun call =>
      (call.handler.stops, call.stamp.place)) = [(true, 0)] := by decide +kernel
  have hplaces : ((halting.run Catalogue.handle [] none).1.run.journal.results.map fun entry =>
      entry.stamp.place) = [0] := by decide +kernel
  obtain ⟨call, hcall, hpair⟩ := List.mem_map.1 (hcalls ▸ List.mem_singleton_self (true, 0))
  obtain ⟨hstops, hplace⟩ := Prod.mk.inj hpair
  obtain ⟨entry, hentry, hlast⟩ := hfinishes call hcall hstops 1 (always "b" "y") (always "a" "x")
    rfl (by rw [hplace]; rfl) rfl
  have hmem : entry.stamp.place ∈ [0] := hplaces ▸ List.mem_map.2 ⟨entry, hentry, rfl⟩
  rw [hlast] at hmem
  cases List.mem_singleton.1 hmem

end Rulebook.Engine
