import Rulebook.Proofs.Condition.Combinator
import Rulebook.Proofs.Condition.Requests
import Rulebook.Proofs.Fact.Mirrors

/-!
Evaluating conditions is mirrored.

Conditions are put into batches by priorities that do not depend on what was computed.  So evaluating
a condition in one world is mirrored in another one, if comparing is and the names in references
stand for the same (`Meaning.Mirrors.evaluateIn`).
-/

namespace Rulebook

open Session Eval Strand

variable {σ τ : Type}

namespace Schedule

variable {mirror : Mirror σ τ Ending} {start : Almanac}
  {run : Condition → Eval σ ConditionResult} {run' : Condition → Eval τ ConditionResult}

theorem mirrors_runBatch {spots : List (Condition × Nat)}
    (hrun : ∀ spot ∈ spots, Mirrors mirror (run spot.1) (run' spot.1)) :
    Mirrors mirror (runBatch (batchOf run spots)) (runBatch (batchOf run' spots)) := by
  have hsteps : List.Forall₂ (Mirrors mirror)
      ((batchOf run spots).map fun entry => entry.1.run)
      ((batchOf run' spots).map fun entry => entry.1.run) := by
    simp only [batchOf, List.map_map, List.forall₂_map_left_iff, List.forall₂_map_right_iff,
      List.forall₂_same, Function.comp_apply]
    exact hrun
  have hplaces : (batchOf run spots).map (·.2) = (batchOf run' spots).map (·.2) := by
    simp [batchOf, Function.comp_def]
  refine (Mirrors.each hsteps).bind fun outcomes => (Mirrors.outcome _).bind fun results => ?_
  rw [hplaces]
  exact .outcome _

variable [HasSession σ] [HasSession τ]

theorem mirrors_skipEach (h : Faithful mirror start) (spots : List (Condition × Nat)) :
    Mirrors mirror (skipEach (batchOf run spots)) (skipEach (batchOf run' spots)) := by
  induction spots with
  | nil => exact .outcome _
  | cons spot rest ih => exact (h.mirrors_count _ _).bind fun _ => ih.bind fun _ => .outcome _

theorem mirrors_runBatches (h : Faithful mirror start) (join : Join)
    {batches : List (List (Condition × Nat))}
    (hrun : ∀ spots ∈ batches, ∀ spot ∈ spots, Mirrors mirror (run spot.1) (run' spot.1)) :
    Mirrors mirror (runBatches join (batches.map (batchOf run)))
      (runBatches join (batches.map (batchOf run'))) := by
  induction batches with
  | nil => exact .outcome _
  | cons spots rest ih =>
      obtain ⟨hspots, hrest⟩ := List.forall_mem_cons.1 hrun
      refine (mirrors_runBatch hspots).bind fun results => ?_
      rw [flatten_batchOf, flatten_batchOf]
      split
      · exact (mirrors_skipEach h _).bind fun _ => .outcome _
      · exact (ih hrest).bind fun _ => .outcome _

theorem mirrors_run (h : Faithful mirror start) (join : Join) {children : List Condition}
    (hrun : ∀ child ∈ children, Mirrors mirror (run child) (run' child)) :
    Mirrors mirror (Schedule.run join (children.map fun child => ⟨child, run child⟩))
      (Schedule.run join (children.map fun child => ⟨child, run' child⟩)) := by
  match children with
  | [] => exact .outcome _
  | [child] => exact (hrun child List.mem_cons_self).bind fun _ => .outcome _
  | first :: second :: rest =>
      refine h.current_bind fun session session' hsession => ?_
      have hfacts : session.almanac.facts = start.facts := by rw [hsession.almanac]
      have hfacts' : session'.almanac.facts = start.facts := by rw [hsession.almanac']
      dsimp only
      rw [batches_congr hfacts, batches_congr hfacts']
      have hbatches := batches_map start run (first :: second :: rest)
      have hbatches' := batches_map start run' (first :: second :: rest)
      rw [List.map_cons] at hbatches hbatches'
      rw [hbatches, hbatches']
      refine (mirrors_runBatches h join fun spots hspots spot hspot => ?_).bind fun _ => ?_
      · exact hrun spot.1 (mem_of_mem_batch hspots hspot)
      · simp only [List.length_cons, List.length_map]
        exact .outcome _

end Schedule

variable [HasSession σ] [HasSession τ] {mirror : Mirror σ τ Ending} {start : Almanac}

/-- A comparison, given that what it asks for is mirrored. -/
theorem Faithful.mirrors_compareBy (h : Faithful mirror start)
    {askFact askValue : FactRequest → Eval σ Value} {askFact' askValue' : FactRequest → Eval τ Value}
    (hfact : ∀ request, Eval.Mirrors mirror (askFact request) (askFact' request))
    (hvalue : ∀ request, Eval.Mirrors mirror (askValue request) (askValue' request)) (leaf : Leaf) :
    Eval.Mirrors mirror (leaf.compareBy askFact askValue) (leaf.compareBy askFact' askValue') := by
  refine (h.mirrors_operator _).bind fun operator => ?_
  refine (Mirrors.both ?_ (hfact _)).bind fun _ => (Mirrors.outcome _).bind fun _ => .outcome _
  split
  · exact hvalue _
  · exact .outcome _

/-- Comparing is mirrored, and names stand for the same in worlds that belong together. -/
structure Meaning.Mirrors (mirror : Mirror σ τ Ending) (start : Almanac) (meaning : Meaning σ)
    (meaning' : Meaning τ) : Prop where
  faithful : Faithful mirror start
  compare : ∀ leaf, Eval.Mirrors mirror (meaning.compare leaf) (meaning'.compare leaf)
  named : ∀ world world', mirror.related world world' → meaning.named world = meaning'.named world'

namespace Meaning.Mirrors

variable {meaning : Meaning σ} {meaning' : Meaning τ}
  {follow : Condition → Eval σ ConditionResult} {follow' : Condition → Eval τ ConditionResult}

theorem reference (h : meaning.Mirrors mirror start meaning')
    (hfollow : ∀ condition, Eval.Mirrors mirror (follow condition) (follow' condition))
    (target : String) (name : Option String) (priority : Option Priority) :
    Eval.Mirrors mirror ((Condition.reference target name priority).evaluateWith meaning follow)
      ((Condition.reference target name priority).evaluateWith meaning' follow') := by
  rw [Condition.evaluateWith, Condition.evaluateWith]
  refine (h.faithful.mirrors_count _ _).bind fun _ => .get_bind fun world world' hworld => ?_
  dsimp only
  rw [h.named world world' hworld]
  split
  · exact (hfollow _).bind fun _ => .outcome _
  · refine h.faithful.current_bind fun session session' hsession => ?_
    obtain ⟨hallow, hallow'⟩ :=
      hsession.read_eq Almanac.allowUndefinedConditions fun _ _ => rfl
    rw [hallow, hallow']
    split
    · exact .outcome _
    · split
      · exact .outcome _
      · exact .outcome _

theorem comparison (h : meaning.Mirrors mirror start meaning') (leaf : Leaf) (name : Option String)
    (priority : Option Priority) :
    Eval.Mirrors mirror ((Condition.comparison leaf name priority).evaluateWith meaning follow)
      ((Condition.comparison leaf name priority).evaluateWith meaning' follow') := by
  rw [Condition.evaluateWith, Condition.evaluateWith]
  refine (h.faithful.mirrors_count _ _).bind fun _ => (h.compare leaf).bind fun found =>
    h.faithful.current_bind fun session session' hsession => ?_
  obtain ⟨hpriority, hpriority'⟩ := hsession.read_eq
    (fun almanac => Condition.priority? almanac (.comparison leaf name priority)) fun _ _ => rfl
  dsimp only at hpriority hpriority' ⊢
  rw [hpriority, hpriority']
  exact .outcome _

theorem combinator (h : meaning.Mirrors mirror start meaning') (join : Join)
    {children : List Condition} (name : Option String) (priority : Priority)
    (hchildren : ∀ child ∈ children, Eval.Mirrors mirror (child.evaluateWith meaning follow)
      (child.evaluateWith meaning' follow')) :
    Eval.Mirrors mirror ((join.condition children name priority).evaluateWith meaning follow)
      ((join.condition children name priority).evaluateWith meaning' follow') := by
  rw [Schedule.evaluateWith_combinator, Schedule.evaluateWith_combinator,
    Condition.branches_eq_map, Condition.branches_eq_map]
  exact (h.faithful.mirrors_count _ _).bind fun _ =>
    (Schedule.mirrors_run h.faithful join hchildren).bind fun _ => .outcome _

/-- A condition, given that the targets of references are mirrored. -/
theorem evaluateWith (h : meaning.Mirrors mirror start meaning')
    (hfollow : ∀ condition, Eval.Mirrors mirror (follow condition) (follow' condition))
    (condition : Condition) :
    Eval.Mirrors mirror (condition.evaluateWith meaning follow)
      (condition.evaluateWith meaning' follow') := by
  induction condition with
  | all children name priority ih => exact h.combinator .all name priority ih
  | any children name priority ih => exact h.combinator .any name priority ih
  | not child name priority ih =>
      rw [Condition.evaluateWith, Condition.evaluateWith]
      exact (h.faithful.mirrors_count _ _).bind fun _ => ih.bind fun _ => .outcome _
  | never name =>
      rw [Condition.evaluateWith, Condition.evaluateWith]
      exact (h.faithful.mirrors_count _ _).bind fun _ => .outcome _
  | reference target name priority => exact h.reference hfollow target name priority
  | comparison leaf name priority => exact h.comparison leaf name priority

/-- A condition, with references inside references as deep as may be. -/
theorem evaluateIn (h : meaning.Mirrors mirror start meaning') (depth : Nat)
    (condition : Condition) :
    Eval.Mirrors mirror (condition.evaluateIn meaning depth)
      (condition.evaluateIn meaning' depth) := by
  induction depth generalizing condition with
  | zero => exact h.evaluateWith (fun _ => .outcome _) condition
  | succ depth ih => exact h.evaluateWith ih condition

end Meaning.Mirrors

end Rulebook
