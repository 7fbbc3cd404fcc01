import Rulebook.Engine.Run
import Rulebook.Proofs.Condition.Twins
import Rulebook.Proofs.Engine.Renumbering
import Rulebook.Proofs.Operator.Known

/-!
What a run does not depend on.

A run finds in its engine the facts, the named conditions, the operators and the handlers, and it
finds whether the engine is stopped.  It has no use for how often something was counted, what was
noted, which operators were put together already, or how many runs there were.  So a run comes out
the same on two engines that differ in no more than that, under whatever numbers
(`Heedful.twins_runGroups`), provided that this is so of its handlers as well (`Considerate` for runs
with one number, `Heedful` for any).
-/

namespace Rulebook

open Session Eval
open Registry (Remembers Outdated)

variable {σ η : Type}

namespace Engine

theorem prioritize_fst (engine : Engine η) :
    engine.prioritize.1 = engine.grouping.getD (groupsOf engine.rules) := by
  unfold prioritize
  split
  · next groups hgroups => rw [hgroups, Option.getD_some]
  · next hnone => rw [hnone, Option.getD_none]

/-- The engine is as another one was, but for the operators put together already, the counters, the
notes, its status, and how many runs it had. -/
structure Kept (engine later : Engine η) : Prop where
  config : later.config = engine.config
  facts : later.facts = engine.facts
  conditions : later.conditions = engine.conditions
  groups : later.prioritize.1 = engine.prioritize.1
  handlers : later.handlers = engine.handlers
  remembers : Remembers Outdated later.registry
  operators : ∀ name, (later.registry.get name).1 = (engine.registry.get name).1

theorem Kept.refl {engine : Engine η} (h : Remembers Outdated engine.registry) :
    Kept engine engine :=
  ⟨rfl, rfl, rfl, rfl, rfl, h, fun _ => rfl⟩

theorem Kept.trans {engine middle later : Engine η} (h : Kept engine middle)
    (hlater : Kept middle later) : Kept engine later where
  config := hlater.config.trans h.config
  facts := hlater.facts.trans h.facts
  conditions := hlater.conditions.trans h.conditions
  groups := hlater.groups.trans h.groups
  handlers := hlater.handlers.trans h.handlers
  remembers := hlater.remembers
  operators name := (hlater.operators name).trans (h.operators name)

theorem Kept.handlersOf {engine later : Engine η} (h : Kept engine later) (event : Value) :
    later.handlersOf event = engine.handlersOf event := by
  rw [Engine.handlersOf, Engine.handlersOf, h.handlers]

/-- Other operators put together, other counts and notes. -/
theorem Kept.setAside {engine later : Engine η} (h : Kept engine later) {registry : Registry}
    (hremembers : Remembers Outdated registry)
    (hoperators : ∀ name, (registry.get name).1 = (engine.registry.get name).1)
    (tally : Option Tally) (notes : List (String × Value)) :
    Kept engine { later with registry, tally, notes } where
  config := h.config
  facts := h.facts
  conditions := h.conditions
  groups := by
    have hgroups := h.groups
    rw [prioritize_fst later] at hgroups
    rw [prioritize_fst]
    exact hgroups
  handlers := h.handlers
  remembers := hremembers
  operators := hoperators

/-- Another status, and another number of runs. -/
theorem Kept.inStage {engine later : Engine η} (h : Kept engine later) (runs : Nat)
    (status : Status) : Kept engine { later with runs, status } where
  config := h.config
  facts := h.facts
  conditions := h.conditions
  groups := by
    have hgroups := h.groups
    rw [prioritize_fst later] at hgroups
    rw [prioritize_fst]
    exact hgroups
  handlers := h.handlers
  remembers := h.remembers
  operators := h.operators

/-- An engine that has put its rules in groups is as it was. -/
theorem Kept.prioritize {engine later : Engine η} (h : Kept engine later) :
    Kept engine later.prioritize.2 := by
  obtain ⟨hconfig, hfacts, hconditions, hgroups, hhandlers, hremembers, hoperators⟩ := h
  unfold Engine.prioritize at hgroups ⊢
  split at hgroups
  · next groups hgrouping =>
      refine ⟨hconfig, hfacts, hconditions, ?_, hhandlers, hremembers, hoperators⟩
      rw [prioritize_fst, hgrouping]
      exact hgroups
  · exact ⟨hconfig, hfacts, hconditions, hgroups, hhandlers, hremembers, hoperators⟩

theorem Kept.almanacFor {engine later : Engine η} (h : Kept engine later)
    (reused : Option Almanac) : later.almanacFor reused = engine.almanacFor reused := by
  cases reused with
  | none => rw [Engine.almanacFor, Engine.almanacFor, h.facts, h.config]
  | some almanac => rw [Engine.almanacFor, Engine.almanacFor, h.facts]

/-- One run in two scenes: both engines are as the given one, and running. -/
structure Alongside (engine : Engine η) (scene scene' : Scene η) : Prop where
  kept : Kept engine scene.engine
  kept' : Kept engine scene'.engine
  running : scene.engine.status = .running
  running' : scene'.engine.status = .running
  run : scene.run = scene'.run
  pure : scene.run.almanac.Pure

/-- On another engine that is as the given one, the run is still the same. -/
theorem Alongside.onEngine {engine other : Engine η} {scene scene' : Scene η}
    (h : Alongside engine scene scene') (hkept : Kept engine other)
    (hrunning : other.status = .running) :
    Alongside engine { scene with engine := other } scene' :=
  ⟨hkept, h.kept', hrunning, h.running', h.run, h.pure⟩

/-- What the handlers of the engine do depends on no more than a run does, and leaves as much as it
is. -/
def Considerate (handling : Handling η) (engine : Engine η) : Prop :=
  ∀ (event : Value) (call : Call η), call.handler ∈ engine.handlersOf event →
    Twins (Alongside engine) (handling call) (handling call)

/-- What is asked of an engine says that it is as the given one, and nothing of what a run does not
depend on. -/
structure Steady (engine : Engine η) (asked : Engine η → Prop) : Prop where
  kept : ∀ later, asked later → Kept engine later
  setAside : ∀ later registry tally notes, asked later → Remembers Outdated registry →
    (∀ name, (registry.get name).1 = (engine.registry.get name).1) →
      asked { later with registry, tally, notes }

theorem steady_kept (engine : Engine η) : Steady engine (Kept engine) where
  kept _ h := h
  setAside _ _ tally notes h hremembers hoperators := h.setAside hremembers hoperators tally notes

/-- One run in two scenes, but for its number: both engines are as is asked, and running. -/
structure Beside (asked : Engine η → Prop) (other : Nat → Nat) (scene scene' : Scene η) : Prop where
  engine : asked scene.engine
  engine' : asked scene'.engine
  running : scene.engine.status = .running
  running' : scene'.engine.status = .running
  run : scene'.run = scene.run.renumber other
  pure : scene.run.almanac.Pure

theorem alongside_eq (engine : Engine η) : Alongside engine = Beside (Kept engine) id := by
  funext scene scene'
  refine propext ⟨fun h => ?_, fun h => ?_⟩
  · exact ⟨h.kept, h.kept', h.running, h.running', h.run.symm.trans (Run.renumber_id _).symm, h.pure⟩
  · exact ⟨h.engine, h.engine', h.running, h.running', (h.run.trans (Run.renumber_id _)).symm, h.pure⟩

/-- What the handlers of the engine do depends neither on the number of the run nor on more than a
run does, and leaves the engine as is asked. -/
def Heedful (handling : Handling η) (engine : Engine η) (asked : Engine η → Prop)
    (other : Nat → Nat) : Prop :=
  ∀ (event : Value) (call : Call η), call.handler ∈ engine.handlersOf event →
    Twins (Beside asked other) (handling call) (handling (call.renumber other))

variable {engine : Engine η} {asked : Engine η → Prop} {other : Nat → Nat}

theorem considerate_iff {handling : Handling η} :
    Considerate handling engine ↔ Heedful handling engine (Kept engine) id := by
  rw [Considerate, alongside_eq]
  exact Iff.rfl

/-- Looking facts up is the same in both scenes of a run. -/
theorem Steady.insulated (h : Steady engine asked) (other : Nat → Nat) :
    Insulated (Beside asked other) fun registry => Remembers Outdated registry ∧
      ∀ name, (registry.get name).1 = (engine.registry.get name).1 where
  almanac _ _ hscene := (congrArg Run.almanac hscene.run).symm
  pure _ _ hscene := hscene.pure
  registry _ _ hscene :=
    ⟨⟨(h.kept _ hscene.engine).remembers, (h.kept _ hscene.engine).operators⟩,
      (h.kept _ hscene.engine').remembers, (h.kept _ hscene.engine').operators⟩
  get _ hregistry name := ⟨(hregistry.1.lookup name).2.2, fun last =>
    (hregistry.1.get_lookup name last).trans (hregistry.2 last)⟩
  answer _ _ hregistry hregistry' name := (hregistry.2 name).trans (hregistry'.2 name).symm
  consulted _ _ _ _ hscene hregistry hregistry' :=
    ⟨h.setAside _ _ _ _ hscene.engine hregistry.1 hregistry.2,
      h.setAside _ _ _ _ hscene.engine' hregistry'.1 hregistry'.2,
      hscene.running, hscene.running', hscene.run, hscene.pure⟩
  aside _ _ _ _ _ _ hscene :=
    ⟨h.setAside _ _ _ _ hscene.engine (h.kept _ hscene.engine).remembers
        (h.kept _ hscene.engine).operators,
      h.setAside _ _ _ _ hscene.engine' (h.kept _ hscene.engine').remembers
        (h.kept _ hscene.engine').operators,
      hscene.running, hscene.running', hscene.run, hscene.pure⟩
  cached _ _ change hscene :=
    ⟨h.setAside _ _ _ _ hscene.engine (h.kept _ hscene.engine).remembers
        (h.kept _ hscene.engine).operators,
      h.setAside _ _ _ _ hscene.engine' (h.kept _ hscene.engine').remembers
        (h.kept _ hscene.engine').operators,
      hscene.running, hscene.running', congrArg (fun run : Run η =>
        { run with almanac := { run.almanac with cache := change run.almanac.cache } }) hscene.run,
      hscene.pure⟩

end Engine

/-- A rule comes out the same in related worlds in which the same conditions have names. -/
theorem Congruent.twins_rule [HasSession σ] {R : σ → σ → Prop} (h : Congruent R)
    {named : σ → Table Value Condition}
    (hnamed : ∀ world world', R world world' → named world = named world') (rule : Rule) :
    Twins R (rule.evaluate named) (rule.evaluate named) := by
  refine (h.twins_evaluate hnamed rule.conditions).bind fun conditions => ?_
  refine (h.count .rules _).bind fun _ => ?_
  exact (Twins.modify h.timed).bind fun _ => .outcome _

namespace Engine

variable {handling : Handling η} {engine : Engine η} {asked : Engine η → Prop}
  {other : Nat → Nat}

/-- Doing the same with the run, whatever its number. -/
theorem twins_onRun {change change' : Run η → Run η}
    (hchange : ∀ run, change' (run.renumber other) = (change run).renumber other)
    (hpure : ∀ run, run.almanac.Pure → (change run).almanac.Pure) :
    Twins (Beside asked other) (Act.onRun change) (Act.onRun change') :=
  .modify fun scene _ h => ⟨h.engine, h.engine', h.running, h.running',
    (congrArg change' h.run).trans (hchange scene.run), hpure _ h.pure⟩

/-- Changing the almanac, as long as its facts stay pure. -/
theorem twins_onAlmanac {change : Almanac → Except Error Almanac}
    (hpure : ∀ almanac later, almanac.Pure → change almanac = .ok later → later.Pure) :
    Twins (Beside asked other) (Act.onAlmanac change) (Act.onAlmanac change) := by
  refine .get_bind fun scene scene' hscene => ?_
  rw [hscene.run, Run.renumber]
  cases hchange : change scene.run.almanac with
  | error e => exact .outcome (.error e)
  | ok almanac =>
      have hafter : almanac.Pure := hpure _ _ hscene.pure hchange
      change Twins _ (Act.onRun fun run => { run with almanac })
        (Act.onRun fun run => { run with almanac })
      exact twins_onRun (fun _ => rfl) fun _ _ => hafter

theorem twins_record (stamp : Stamp) (result : RuleResult) (outcome : Value) :
    Twins (Beside asked other) (record stamp result outcome : Act η Unit)
      (record (stamp.renumber other) result outcome) := by
  refine twins_onRun (fun run => ?_) fun _ hpure => hpure
  have hjournal : ((run.journal.renumber other).addResult
      (Stamped.renumber other ⟨stamp, result⟩)).addEvent outcome
        (Stamped.renumber other ⟨stamp, result.event⟩) =
      ((run.journal.addResult ⟨stamp, result⟩).addEvent outcome
        ⟨stamp, result.event⟩).renumber other := by
    rw [Journal.renumber_addResult, Journal.renumber_addEvent]
  exact congrArg (fun journal => { run.renumber other with journal }) hjournal

theorem Heedful.twins_callEach (h : Heedful handling engine asked other)
    (hother : Function.Injective other) (rule : Rule) (result : Bool) (stamp : Stamp)
    (subject : Subject) {handlers : List η} {event : Value}
    (hhandlers : ∀ handler ∈ handlers, handler ∈ engine.handlersOf event) :
    Twins (Beside asked other) (callEach handling rule result stamp subject handlers)
      (callEach handling rule result (stamp.renumber other) subject handlers) := by
  induction handlers with
  | nil => exact .outcome _
  | cons handler rest ih =>
      rw [List.forall_mem_cons] at hhandlers
      refine .get_bind fun scene scene' hscene => ?_
      rw [hscene.run, Run.event?_renumber hother]
      refine Twins.bind (twins_onRun (fun run => ?_) fun _ hpure => hpure) fun _ => ?_
      · simp [Run.renumber, Call.renumber]
      · exact (h event _ hhandlers.1).bind fun _ => ih hhandlers.2

theorem Heedful.twins_emit (h : Heedful handling engine asked other)
    (hsteady : Steady engine asked) (hother : Function.Injective other) (rule : Rule)
    (result : Bool) (stamp : Stamp) (event : Value) (subject : Subject) :
    Twins (Beside asked other) (emit handling rule result stamp event subject)
      (emit handling rule result (stamp.renumber other) event subject) := by
  refine .get_bind fun scene scene' hscene => ?_
  rw [(hsteady.kept _ hscene.engine).handlersOf event, (hsteady.kept _ hscene.engine').handlersOf event]
  exact h.twins_callEach hother rule result stamp subject fun _ hhandler => hhandler

theorem Heedful.twins_report (h : Heedful handling engine asked other)
    (hsteady : Steady engine asked) (hother : Function.Injective other) (rule : Rule)
    (stamp : Stamp) (result : RuleResult) :
    Twins (Beside asked other) (report handling rule stamp result)
      (report handling rule (stamp.renumber other) result) := by
  have hemit := h.twins_emit hsteady hother rule
  unfold report
  split
  · refine (twins_record stamp result _).bind fun _ => ?_
    exact (hemit true stamp _ _).bind fun _ => hemit true stamp _ _
  · exact (twins_record stamp result _).bind fun _ => hemit false stamp _ _

theorem Steady.twins_evaluateRule (hsteady : Steady engine asked) (rule : Rule) :
    Twins (Beside asked other) (evaluateRule rule) (evaluateRule rule) := by
  have hcongruent := (hsteady.insulated other).congruent
  have hnamed : ∀ scene scene', Beside asked other scene scene' →
      namedIn scene = namedIn scene' := fun _ _ hscene =>
    (hsteady.kept _ hscene.engine).conditions.trans (hsteady.kept _ hscene.engine').conditions.symm
  refine (hcongruent.twins_rule hnamed rule).attempt.bind fun result => ?_
  cases result with
  | ok result => exact .outcome _
  | error e => exact (hcongruent.count .errors _).bind fun _ => .outcome _

theorem Heedful.twins_process (h : Heedful handling engine asked other)
    (hsteady : Steady engine asked) (hother : Function.Injective other) (rule : Rule)
    (stamp : Stamp) : Twins (Beside asked other) (process handling rule stamp)
      (process handling rule (stamp.renumber other)) := by
  refine .get_bind fun scene scene' hscene => ?_
  rw [if_pos hscene.running, if_pos hscene.running']
  exact (hsteady.twins_evaluateRule rule).bind fun result =>
    h.twins_report hsteady hother rule stamp result

/-- The rules of a group with the stamps of a run with another number. -/
def renumbered (other : Nat → Nat) (group : List (Rule × Stamp)) : List (Rule × Stamp) :=
  group.map fun entry => (entry.1, entry.2.renumber other)

theorem stamped_renumber (other : Nat → Nat) (number place : Nat) (groups : List (List Rule)) :
    stamped (other number) place groups =
      (stamped number place groups).map (renumbered other) := by
  induction groups generalizing place with
  | nil => rfl
  | cons group rest ih =>
      rw [stamped, stamped, List.map_cons, ih, renumbered, List.map_map]
      rfl

theorem Heedful.twins_runGroup (h : Heedful handling engine asked other)
    (hsteady : Steady engine asked) (hother : Function.Injective other)
    (group : List (Rule × Stamp)) :
    Twins (Beside asked other) (runGroup handling group)
      (runGroup handling (renumbered other group)) := by
  refine Twins.bind (.each ?_) fun outcomes => ?_
  · rw [renumbered, List.map_map, List.forall₂_map_left_iff, List.forall₂_map_right_iff]
    exact List.forall₂_same.2 fun entry _ => h.twins_process hsteady hother entry.1 entry.2
  · exact (Twins.outcome (Schedule.allOk outcomes)).bind fun _ => .outcome _

/-- The rules of a run come out the same on every engine that is as the given one. -/
theorem Heedful.twins_runGroups (h : Heedful handling engine asked other)
    (hsteady : Steady engine asked) (hother : Function.Injective other)
    (groups : List (List (Rule × Stamp))) :
    Twins (Beside asked other) (runGroups handling groups)
      (runGroups handling (groups.map (renumbered other))) := by
  induction groups with
  | nil => exact .outcome _
  | cons group rest ih =>
      refine .get_bind fun scene scene' hscene => ?_
      rw [if_pos hscene.running, if_pos hscene.running']
      exact (h.twins_runGroup hsteady hother group).bind fun _ => ih

/-- The same for runs with one number. -/
theorem Considerate.twins_runGroups (h : Considerate handling engine)
    (groups : List (List (Rule × Stamp))) :
    Twins (Alongside engine) (runGroups handling groups) (runGroups handling groups) := by
  have htwins := (considerate_iff.1 h).twins_runGroups (steady_kept engine)
    Function.injective_id groups
  have hid : renumbered id = id := funext fun group => List.map_id group
  rw [hid, List.map_id] at htwins
  rwa [alongside_eq]

end Engine

end Rulebook
