import Rulebook.Condition.Schedule

/-!
Evaluating conditions in a world that holds a session.
-/

namespace Rulebook

open Session

variable {σ : Type} [HasSession σ]

/-- What conditions mean: how a comparison comes out, and what the names in references stand for
at the time. -/
structure Meaning (σ : Type) where
  compare : Leaf → Eval σ (Bool × Sides)
  named : σ → Table Value Condition

namespace Condition

mutual

/-- Evaluate a condition; `follow` evaluates the targets of references. -/
def evaluateWith (meaning : Meaning σ) (follow : Condition → Eval σ ConditionResult) :
    Condition → Eval σ ConditionResult
  | .all children name priority => do
      count .evaluations Kind.all.name
      let (verdict, results) ← Schedule.run .all (branches meaning follow children)
      return .all ⟨some verdict, some priority, name, none⟩ results
  | .any children name priority => do
      count .evaluations Kind.any.name
      let (verdict, results) ← Schedule.run .any (branches meaning follow children)
      return .any ⟨some verdict, some priority, name, none⟩ results
  | .not child name priority => do
      count .evaluations Kind.not.name
      let result ← child.evaluateWith meaning follow
      return .not ⟨some (!result.holds), some priority, name, none⟩ result
  | .never name => do
      count .evaluations Kind.never.name
      return .never ⟨some false, some Priority.first, name, none⟩
  | .reference target name priority => do
      count .evaluations Kind.reference.name
      let named := meaning.named (← get)
      match named.find? (.str target) with
      | some condition => return .referred target name (← follow condition)
      | none =>
          if (← current).almanac.allowUndefinedConditions then
            return .reference ⟨some false, priority, name, some target⟩
          else if named.isEmpty then throw (.missingConditionMap target)
          else throw (.undefinedCondition target)
  | .comparison leaf name priority => do
      count .evaluations Kind.comparison.name
      let (verdict, sides) ← meaning.compare leaf
      let priority := Condition.priority? (← current).almanac (.comparison leaf name priority)
      return .comparison ⟨some verdict, priority, name, none⟩ leaf (some sides)

/-- Conditions with the steps that evaluate them. -/
def branches (meaning : Meaning σ) (follow : Condition → Eval σ ConditionResult) :
    List Condition → List (Branch σ)
  | [] => []
  | condition :: rest =>
      ⟨condition, condition.evaluateWith meaning follow⟩ :: branches meaning follow rest

end

/-- Evaluate a condition, following references inside references at most `depth` deep. -/
def evaluateIn (meaning : Meaning σ) : (depth : Nat) → Condition → Eval σ ConditionResult
  | 0 => evaluateWith meaning fun _ => throw .exhausted
  | depth + 1 => evaluateWith meaning (evaluateIn meaning depth)

end Condition

/-- Compare.  The operator is looked up first; then both sides are, side by side.  The failure of a
side ends the comparison as soon as it is heard of, but does not keep the other side from going
on. -/
def Leaf.compare (depth : Nat) (leaf : Leaf) : Eval σ (Bool × Sides) := do
  let operator ← Session.operator leaf.operator
  let (value, fact) ← Eval.both (valueOf depth leaf.value) (factValue depth leaf.request)
  let verdict ← Eval.outcome (operator.evaluate fact value)
  return (verdict, ⟨fact, value⟩)

/-- Evaluate a condition.  References are looked up in what `named` finds in the world. -/
def Condition.evaluate (named : σ → Table Value Condition) (condition : Condition) :
    Eval σ ConditionResult :=
  condition.evaluateIn ⟨Leaf.compare depthLimit, named⟩ depthLimit

end Rulebook
