import Rulebook.Condition.Result
import Rulebook.Session

/-!
Scheduling the children of a combinator.

Several children are put into batches of one effective priority each, and the batches run in
ascending order.  The children of a batch are evaluated side by side, and every one of them is let
finish, even when another one fails; the failure that is reported is that of the child that comes
first in the definition.  As soon as a batch decides the verdict, a false child for `all` or a true
one for `any`, the children of the later batches are skipped.  Each result goes into the slot of its
child.  A single child is evaluated without a strand of its own, and no children at all are true.
-/

namespace Rulebook

open Session

/-- How the verdicts of children are joined. -/
inductive Join where
  | all
  | any
  deriving DecidableEq, Repr

/-- The verdict that decides, whatever the other children say. -/
def Join.deciding : Join → Bool
  | .all => false
  | .any => true

/-- A child with the step that evaluates it. -/
structure Branch (σ : Type) where
  condition : Condition
  run : Eval σ ConditionResult

/-- A child with its place among its siblings. -/
abbrev Batch (σ : Type) := List (Branch σ × Nat)

/-- A result with the place of its child. -/
abbrev Placed := ConditionResult × Nat

namespace Schedule

variable {σ : Type} [HasSession σ]

/-- The children in batches of one effective priority each, the lowest first. -/
def batches (almanac : Almanac) (branches : List (Branch σ)) : List (Batch σ) :=
  batchesBy (fun entry => entry.1.condition.effectivePriority almanac) branches.zipIdx

/-- The results, or the first failure among them. -/
def allOk {α : Type} : List (Except Error α) → Except Error (List α)
  | [] => .ok []
  | .error e :: _ => .error e
  | .ok a :: rest => (allOk rest).map (a :: ·)

/-- Run a batch; it fails with its first failing child. -/
def runBatch (batch : Batch σ) : Eval σ (List Placed) := do
  let outcomes ← Eval.each (batch.map fun entry => entry.1.run)
  let results ← Eval.outcome (allOk outcomes)
  return results.zip (batch.map (·.2))

/-- Skip children. -/
def skipEach : Batch σ → Eval σ (List Placed)
  | [] => pure []
  | (branch, place) :: rest => do
      count .skips branch.condition.kind.name
      let results ← skipEach rest
      return (branch.condition.skip, place) :: results

/-- Does one of the results decide the verdict? -/
def decides (join : Join) (results : List Placed) : Bool :=
  results.any fun entry => entry.1.holds == join.deciding

/-- Run batches until the verdict is decided, and skip the rest. -/
def runBatches (join : Join) : List (Batch σ) → Eval σ (Bool × List Placed)
  | [] => pure (!join.deciding, [])
  | batch :: rest => do
      let results ← runBatch batch
      if decides join results then
        let skipped ← skipEach rest.flatten
        return (join.deciding, results ++ skipped)
      else
        let (verdict, others) ← runBatches join rest
        return (verdict, results ++ others)

/-- Put a result into the slot of its child. -/
def fill (slots : List (Option ConditionResult)) (placed : Placed) : List (Option ConditionResult) :=
  slots.set placed.2 (some placed.1)

/-- A slot for each child, filled with the results one after the other. -/
def slots (size : Nat) (results : List Placed) : List (Option ConditionResult) :=
  results.foldl fill (List.replicate size none)

/-- The results of children in the order of the definition. -/
def inOrder (size : Nat) (results : List Placed) : List ConditionResult :=
  (slots size results).filterMap id

/-- Evaluate the children of a combinator: the joint verdict, and the results in the order of the
definition. -/
def run (join : Join) : List (Branch σ) → Eval σ (Bool × List ConditionResult)
  | [] => pure (true, [])
  | [branch] => do
      let result ← branch.run
      return (result.holds, [result])
  | branches => do
      let (verdict, results) ← runBatches join (batches (← current).almanac branches)
      return (verdict, inOrder branches.length results)

end Schedule

end Rulebook
