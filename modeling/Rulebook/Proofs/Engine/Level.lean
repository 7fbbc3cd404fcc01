import Rulebook.Proofs.Engine.Run
import Rulebook.Proofs.Engine.Twins
import Rulebook.Proofs.Operator.Peers

/-!
Runs on engines that cannot be told apart.

Two engines are `Level` if they are the same but for which operators were put together already, and
their registries cannot be told apart.  A run comes out the same on both, with everything that it
counts, notes and records, and leaves the engines level (`Level.run`), as long as what the handlers do
does not tell the engines apart either (`Indifferent`).
-/

namespace Rulebook.Engine

open Session Eval
open Registry (Peers)

variable {η : Type} {handling : Handling η}

/-- The engines are the same, but for which operators were put together already. -/
def Level (engine other : Engine η) : Prop :=
  ∃ registry, Peers engine.registry registry ∧ other = engine.withRegistry registry

/-- The scenes of level engines, with the same run. -/
def Even (scene scene' : Scene η) : Prop :=
  ∃ registry, Peers scene.engine.registry registry ∧
    scene' = { scene with engine := scene.engine.withRegistry registry }

/-- What a handler does is the same in the scenes of level engines, and leaves them level. -/
def Indifferent (handling : Handling η) : Prop :=
  ∀ call, Twins Even (handling call) (handling call)

theorem Even.engine {scene scene' : Scene η} (h : Even scene scene') :
    Level scene.engine scene'.engine := by
  obtain ⟨registry, hpeers, rfl⟩ := h
  exact ⟨registry, hpeers, rfl⟩

theorem Even.run {scene scene' : Scene η} (h : Even scene scene') : scene'.run = scene.run := by
  obtain ⟨registry, hpeers, rfl⟩ := h
  rfl

/-! ### Looking facts up -/

theorem twins_note_even (label : String) (params : Value) :
    Twins Even (note label params : Act η Nat) (note label params) := by
  refine Twins.bind (.modify ?_) fun _ => twins_current_bind ?_
  · rintro scene _ ⟨registry, hpeers, rfl⟩
    exact ⟨registry, hpeers, rfl⟩
  · rintro scene _ ⟨registry, hpeers, rfl⟩
    exact .outcome _

theorem twins_program_even {ask : FactRequest → Act η Value}
    (hask : ∀ request, Twins Even (ask request) (ask request)) (program : Program) :
    Twins Even (program.run ask) (program.run ask) := by
  induction program with
  | done value => exact .outcome _
  | fail e => exact .outcome _
  | ask request next ih => exact (hask request).attempt.bind ih
  | note label params next ih => exact (twins_note_even label params).bind ih
  | pause next ih => exact Twins.pause.bind fun _ => ih

/-- Looking facts up is the same in the scenes of level engines. -/
theorem congruent_even : Congruent (Even : Scene η → Scene η → Prop) where
  almanac := by
    rintro scene _ ⟨registry, hpeers, rfl⟩
    rfl
  count _ _ := by
    refine .modify ?_
    rintro scene _ ⟨registry, hpeers, rfl⟩
    exact ⟨registry, hpeers, rfl⟩
  operator name := by
    refine twins_current_bind ?_
    rintro scene _ ⟨registry, hpeers, rfl⟩
    refine Twins.bind (.modify ?_) fun _ => ?_
    · rintro seen _ ⟨known, _, rfl⟩
      exact ⟨(registry.get name).2, hpeers.lookup name, rfl⟩
    · have hget := hpeers.get_eq name
      change Twins Even (Eval.outcome (scene.engine.registry.get name).1)
        (Eval.outcome (registry.get name).1)
      rw [hget]
      exact .outcome _
  program _ _ _ _ _ _ _ _ _ hask := twins_program_even hask _
  cached := by
    rintro scene _ change ⟨registry, hpeers, rfl⟩
    exact ⟨registry, hpeers, rfl⟩
  timed := by
    rintro scene _ ⟨registry, hpeers, rfl⟩
    exact ⟨registry, hpeers, rfl⟩

/-! ### Rules -/

theorem twins_onRun_even (change : Run η → Run η) :
    Twins Even (Act.onRun change) (Act.onRun change) := by
  refine .modify ?_
  rintro scene _ ⟨registry, hpeers, rfl⟩
  exact ⟨registry, hpeers, rfl⟩

namespace Indifferent

theorem twins_callEach (h : Indifferent handling) (rule : Rule) (result : Bool) (stamp : Stamp)
    (subject : Subject) (handlers : List η) :
    Twins Even (callEach handling rule result stamp subject handlers)
      (callEach handling rule result stamp subject handlers) := by
  induction handlers with
  | nil => exact .outcome _
  | cons handler rest ih =>
      refine .get_bind fun scene scene' hscene => ?_
      rw [hscene.run]
      exact (twins_onRun_even _).bind fun _ => (h _).bind fun _ => ih

theorem twins_emit (h : Indifferent handling) (rule : Rule) (result : Bool) (stamp : Stamp)
    (event : Value) (subject : Subject) :
    Twins Even (emit handling rule result stamp event subject)
      (emit handling rule result stamp event subject) := by
  refine .get_bind ?_
  rintro scene _ ⟨registry, hpeers, rfl⟩
  exact h.twins_callEach rule result stamp subject _

theorem twins_report (h : Indifferent handling) (rule : Rule) (stamp : Stamp)
    (result : RuleResult) :
    Twins Even (report handling rule stamp result) (report handling rule stamp result) := by
  unfold report
  split
  · refine (twins_onRun_even _).bind fun _ => ?_
    exact (h.twins_emit rule true stamp _ _).bind fun _ => h.twins_emit rule true stamp _ _
  · exact (twins_onRun_even _).bind fun _ => h.twins_emit rule false stamp _ _

theorem twins_evaluateRule (rule : Rule) :
    Twins (Even (η := η)) (evaluateRule rule) (evaluateRule rule) := by
  have hnamed : ∀ scene scene' : Scene η, Even scene scene' → namedIn scene = namedIn scene' := by
    rintro scene _ ⟨registry, hpeers, rfl⟩
    rfl
  refine (congruent_even.twins_rule hnamed rule).attempt.bind fun result => ?_
  cases result with
  | ok result => exact .outcome _
  | error e => exact (congruent_even.count .errors _).bind fun _ => .outcome _

theorem twins_process (h : Indifferent handling) (rule : Rule) (stamp : Stamp) :
    Twins Even (process handling rule stamp) (process handling rule stamp) := by
  refine .get_bind ?_
  rintro scene _ ⟨registry, hpeers, rfl⟩
  change Twins Even (if scene.engine.status = .running then _ else _)
    (if scene.engine.status = .running then _ else _)
  split
  · exact (twins_evaluateRule rule).bind fun result => h.twins_report rule stamp result
  · exact .outcome _

theorem twins_runGroup (h : Indifferent handling) (group : List (Rule × Stamp)) :
    Twins Even (runGroup handling group) (runGroup handling group) := by
  refine Twins.bind (.each ?_) fun outcomes => ?_
  · rw [List.forall₂_map_left_iff, List.forall₂_map_right_iff]
    exact List.forall₂_same.2 fun entry _ => h.twins_process entry.1 entry.2
  · exact (Twins.outcome (Schedule.allOk outcomes)).bind fun _ => .outcome _

/-- The rules of a run come out the same in the scenes of level engines. -/
theorem twins_runGroups (h : Indifferent handling) (groups : List (List (Rule × Stamp))) :
    Twins Even (runGroups handling groups) (runGroups handling groups) := by
  induction groups with
  | nil => exact .outcome _
  | cons group rest ih =>
      refine .get_bind ?_
      rintro scene _ ⟨registry, hpeers, rfl⟩
      change Twins Even (if scene.engine.status = .running then _ else _)
        (if scene.engine.status = .running then _ else _)
      split
      · exact (h.twins_runGroup group).bind fun _ => ih
      · exact .outcome _

end Indifferent

/-! ### Runs -/

variable {engine other : Engine η}

theorem prioritize_withRegistry (engine : Engine η) (registry : Registry) :
    (engine.withRegistry registry).prioritize =
      (engine.prioritize.1, engine.prioritize.2.withRegistry registry) := by
  obtain ⟨_, _, _, _, _, grouping, _, _, _, _, _⟩ := engine
  cases grouping <;> rfl

theorem Level.prioritize (h : Level engine other) :
    other.prioritize.1 = engine.prioritize.1 ∧ Level engine.prioritize.2 other.prioritize.2 := by
  obtain ⟨registry, hpeers, rfl⟩ := h
  rw [prioritize_withRegistry]
  exact ⟨rfl, registry, (registry_prioritize engine).symm ▸ hpeers, rfl⟩

theorem almanacFor_withRegistry (engine : Engine η) (registry : Registry)
    (reused : Option Almanac) :
    (engine.withRegistry registry).almanacFor reused = engine.almanacFor reused := by
  cases reused <;> rfl

theorem even_firstScene (h : Level engine other) (almanac : Almanac) (journal : RunJournal) :
    Even (firstScene engine almanac journal) (firstScene other almanac journal) := by
  obtain ⟨registry, hpeers, rfl⟩ := h
  refine ⟨registry, (registry_prioritize engine).symm ▸ hpeers, ?_⟩
  unfold firstScene
  rw [prioritize_withRegistry]
  rfl

/-- A run ends in the same way on level engines, and leaves them level. -/
theorem Level.run (h : Level engine other) (hhandling : Indifferent handling)
    (entries : List RuntimeEntry) (reused : Option (Almanac × RunJournal)) :
    (other.run handling entries reused).1 = (engine.run handling entries reused).1 ∧
      Level (engine.run handling entries reused).2 (other.run handling entries reused).2 := by
  have hgroups := h.prioritize.1
  have hscene := even_firstScene h
  obtain ⟨registry, hpeers, rfl⟩ := h
  have halmanac := almanacFor_withRegistry engine registry (reused.map (·.1))
  cases hentries : (engine.almanacFor (reused.map (·.1))).addEntries entries with
  | mk almanac refused =>
    cases refused with
    | some e =>
        rw [run_refused handling hentries, run_refused handling (halmanac.symm ▸ hentries)]
        exact ⟨rfl, registry, hpeers, rfl⟩
    | none =>
        rw [run_started handling hentries, run_started handling (halmanac.symm ▸ hentries), hgroups]
        obtain ⟨hresult, later, hlater, heven⟩ :=
          (hhandling.twins_runGroups (stamped engine.runs 0 engine.prioritize.1)).run
            (hscene almanac (journalBefore reused))
        have hruns : (engine.withRegistry registry).runs = engine.runs := rfl
        dsimp only
        rw [hruns, ← hresult, heven]
        exact ⟨rfl, later, hlater, rfl⟩

end Rulebook.Engine
