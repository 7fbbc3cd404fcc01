import Rulebook.Proofs.Condition.Trail
import Rulebook.Proofs.Priority

/-!
Combinators.

`all` and `any` differ in how they join verdicts only, so both are one step over their children
(`evaluateWith_combinator`).  The children are put into batches by the almanac of the turn in which
the combinator begins; what comes out is the same if that almanac is given in advance
(`follow_combine`).
-/

namespace Rulebook

open Session Eval Strand

namespace Join

/-- The kind of a combinator. -/
def kind : Join → Kind
  | .all => .all
  | .any => .any

/-- A combinator. -/
def condition : Join → List Condition → Option String → Priority → Condition
  | .all => .all
  | .any => .any

/-- The result of a combinator. -/
def result : Join → ResultHead → List ConditionResult → ConditionResult
  | .all => .all
  | .any => .any

end Join

namespace Schedule

variable {σ : Type} [HasSession σ]

/-- Evaluate children, and join their verdicts in one result. -/
def combine (join : Join) (name : Option String) (priority : Priority)
    (branches : List (Branch σ)) : Eval σ ConditionResult := do
  count .evaluations join.kind.name
  let (verdict, results) ← run join branches
  return join.result ⟨some verdict, some priority, name, none⟩ results

theorem evaluateWith_combinator (join : Join) (meaning : Meaning σ)
    (follow : Condition → Eval σ ConditionResult) (children : List Condition)
    (name : Option String) (priority : Priority) :
    (join.condition children name priority).evaluateWith meaning follow =
      combine join name priority (Condition.branches meaning follow children) := by
  cases join <;> rw [Join.condition, Condition.evaluateWith] <;> rfl

theorem evaluateIn_combinator (join : Join) (meaning : Meaning σ) (depth : Nat)
    (children : List Condition) (name : Option String) (priority : Priority) :
    (join.condition children name priority).evaluateIn meaning depth =
      combine join name priority (children.map fun child => ⟨child, child.evaluateIn meaning depth⟩) := by
  cases depth <;>
    rw [Condition.evaluateIn, evaluateWith_combinator, Condition.branches_eq_map]

/-- Conditions at their places, with the steps that evaluate them. -/
def batchOf (run : Condition → Eval σ ConditionResult) (spots : List (Condition × Nat)) : Batch σ :=
  spots.map fun spot => (⟨spot.1, run spot.1⟩, spot.2)

/-- Conditions at their places, in batches of one effective priority each. -/
def spotsIn (almanac : Almanac) (children : List Condition) : List (List (Condition × Nat)) :=
  batchesBy (fun spot => spot.1.effectivePriority almanac) children.zipIdx

omit [HasSession σ] in
theorem batches_map (almanac : Almanac) (run : Condition → Eval σ ConditionResult)
    (children : List Condition) :
    batches almanac (children.map fun child => ⟨child, run child⟩) =
      (spotsIn almanac children).map (batchOf run) := by
  have hzip : (children.map fun child => (⟨child, run child⟩ : Branch σ)).zipIdx =
      batchOf run children.zipIdx := by
    refine List.ext_getElem? fun place => ?_
    simp only [batchOf, List.getElem?_zipIdx, List.getElem?_map, Option.map_map, Nat.zero_add]
    rfl
  rw [batches, hzip, batchOf, batchesBy_map]
  rfl

/-- The conditions in the batches in which they are evaluated. -/
def conditionBatches (almanac : Almanac) (branches : List (Branch σ)) : List (List Condition) :=
  (batches almanac branches).map (List.map fun entry => entry.1.condition)

omit [HasSession σ] in
theorem conditionBatches_map (almanac : Almanac) (run : Condition → Eval σ ConditionResult)
    (children : List Condition) :
    conditionBatches almanac (children.map fun child => ⟨child, run child⟩) =
      batchesBy (Condition.effectivePriority almanac) children := by
  have hspots : batchesBy (Condition.effectivePriority almanac) (children.zipIdx.map (·.1)) =
      (spotsIn almanac children).map (List.map (·.1)) := batchesBy_map _ _
  rw [List.zipIdx_map_fst] at hspots
  rw [conditionBatches, batches_map, hspots, List.map_map]
  refine List.map_congr_left fun spots _ => ?_
  rw [Function.comp_apply, batchOf, List.map_map]
  rfl

omit [HasSession σ] in
theorem flatten_batchOf (run : Condition → Eval σ ConditionResult)
    (batches : List (List (Condition × Nat))) :
    (batches.map (batchOf run)).flatten = batchOf run batches.flatten := by
  simp only [batchOf, List.map_flatten]
  rfl

/-- Evaluate children, with the batches they are put into given in advance. -/
def runGiven (join : Join) (batches : List (Batch σ)) :
    List (Branch σ) → Eval σ (Bool × List ConditionResult)
  | [] => pure (true, [])
  | [branch] => do
      let result ← branch.run
      return (result.holds, [result])
  | branches => do
      let (verdict, results) ← runBatches join batches
      return (verdict, inOrder branches.length results)

/-- Evaluate children, with their batches given, and join their verdicts in one result. -/
def combineGiven (join : Join) (name : Option String) (priority : Priority)
    (batches : List (Batch σ)) (branches : List (Branch σ)) : Eval σ ConditionResult := do
  count .evaluations join.kind.name
  let (verdict, results) ← runGiven join batches branches
  return join.result ⟨some verdict, some priority, name, none⟩ results

theorem follow_combine (join : Join) (name : Option String) (priority : Priority)
    (branches : List (Branch σ)) (own : Nat)
    (next : Except Error ConditionResult → Strand σ Ending) (loop : Loop σ Ending) :
    Loop.follow own (combine join name priority branches next) loop =
      Loop.follow own (combineGiven join name priority
        (batches (HasSession.session loop.world).almanac branches) branches next) loop := by
  match branches with
  | [] => rfl
  | [_] => rfl
  | first :: second :: rest =>
      have halmanac : (HasSession.session loop.world).almanac = (HasSession.session
          (HasSession.withSession ((HasSession.session loop.world).counting .evaluations
            join.kind.name) loop.world)).almanac := by
        rw [HasSession.session_withSession]
        rfl
      rw [halmanac]
      rfl

theorem endsIn_combineGiven {join : Join} {name : Option String} {priority : Priority}
    {branches : List (Branch σ)} {world after : σ} {result : Except Error ConditionResult}
    (h : EndsIn world (combine join name priority branches) result after) :
    EndsIn world (combineGiven join name priority
      (batches (HasSession.session world).almanac branches) branches) result after := by
  refine h.congr fun loop hloop => ?_
  rw [← hloop]
  exact follow_combine join name priority branches 0 _ loop

end Schedule

end Rulebook
