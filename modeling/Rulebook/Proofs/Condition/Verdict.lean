import Rulebook.Proofs.Condition.Plain

/-!
Verdicts do not depend on priorities.

Priorities decide which children of a combinator are evaluated, and in which order.  Evaluations
that differ in nothing else have the same verdict if they have one, and they all have the plain
verdict if nothing that they may meet fails (`verdict_of_assignment`).
-/

namespace Rulebook.Condition

open Eval Strand

/-- A way to assign priorities to the nodes of a condition, to the conditions it refers to, and in
some world to whatever else has priorities there.  In that world, comparisons have the given
outcomes whatever goes on besides. -/
structure Assignment (shape : Condition) (names : Table Value Condition)
    (outcome : Leaf → Option Bool) : Type 1 where
  σ : Type
  session : HasSession σ
  condition : Condition
  named : Table Value Condition
  sameShape : condition.unranked = shape.unranked
  sameNames : unrankedNames named = unrankedNames names
  meaning : Meaning σ
  lenient : Bool
  inv : σ → Prop
  waits : ℕ
  reads : Reads (.ofWorld inv) waits meaning (fixedReading named lenient outcome)
  world : σ
  holds : inv world

namespace Assignment

attribute [instance] Assignment.session

variable {shape : Condition} {names : Table Value Condition} {outcome : Leaf → Option Bool}

/-- Evaluating the condition with its priorities returns a result, references inside references
being followed at most `depth` deep. -/
def Returns (assignment : Assignment shape names outcome) (depth : Nat)
    (result : ConditionResult) : Prop :=
  Yields assignment.world (assignment.condition.evaluateIn assignment.meaning depth) (.ok result)

/-- Evaluation returns, or fails as some part of the condition does. -/
theorem exists_yields (assignment : Assignment shape names outcome) (depth : Nat) :
    ∃ result, Yields assignment.world (assignment.condition.evaluateIn assignment.meaning depth)
      result ∧ Outcome (fixedReading assignment.named assignment.lenient outcome)
        (Blames (fixedReading assignment.named assignment.lenient outcome) depth
          assignment.condition) assignment.condition result := by
  obtain ⟨waits, h⟩ := ensures_evaluateIn assignment.reads depth assignment.condition
  exact h.exists_yields (ENat.natCast_ne_top (assignment.waits + waits)) assignment.holds

/-- What evaluation returns is determined by the shape. -/
theorem Returns.determined {assignment : Assignment shape names outcome} {depth : Nat}
    {result : ConditionResult} (h : assignment.Returns depth result) :
    ∃ verdict, result.head.verdict = some verdict ∧
      Determined (unrankedNames names) outcome shape.unranked verdict := by
  obtain ⟨waits, hensures⟩ := ensures_evaluateIn assignment.reads depth assignment.condition
  obtain ⟨hevaluated, htrail⟩ := hensures.post_of_yields assignment.holds h
  have hverdict := Schedule.verdict_eq_some_holds hevaluated
  have hdetermined := (htrail.determined hverdict).unranked
  rw [assignment.sameNames, assignment.sameShape] at hdetermined
  exact ⟨_, hverdict, hdetermined⟩

end Assignment

/-- Priorities never change a verdict.  Two evaluations that return have the same verdict.  A sound
condition has a plain verdict, and where there is one, every evaluation returns it that follows
references as deep as was needed to find it. -/
theorem verdict_of_assignment (shape : Condition) (names : Table Value Condition)
    (outcome : Leaf → Option Bool) :
    (∀ (first second : Assignment shape names outcome) (depth depth' : Nat)
      (result result' : ConditionResult), first.Returns depth result →
        second.Returns depth' result' → result.head.verdict = result'.head.verdict) ∧
    (Sound names outcome shape → ∃ depth verdict, plain names outcome depth shape = some verdict) ∧
    ∀ depth verdict, plain names outcome depth shape = some verdict →
      ∀ (assignment : Assignment shape names outcome) (deeper : Nat), depth ≤ deeper →
        ∃ result, assignment.Returns deeper result ∧ result.head.verdict = some verdict := by
  refine ⟨?_, exists_plain, ?_⟩
  · intro first second depth depth' result result' hfirst hsecond
    obtain ⟨verdict, hverdict, hdetermined⟩ := hfirst.determined
    obtain ⟨other, hother, hdetermined'⟩ := hsecond.determined
    rw [hverdict, hother, hdetermined.unique hdetermined']
  · intro depth verdict hplain assignment deeper hle
    obtain ⟨came, hyields, hcame⟩ := assignment.exists_yields deeper
    cases came with
    | error e =>
        have hsame : plain assignment.named outcome depth assignment.condition = some verdict := by
          rw [← plain_unranked, assignment.sameNames, assignment.sameShape, plain_unranked, hplain]
        exact absurd hcame (not_blames_of_plain hsame hle)
    | ok result =>
        have hreturns : assignment.Returns deeper result := hyields
        obtain ⟨found, hfound, hdetermined⟩ := hreturns.determined
        refine ⟨result, hreturns, ?_⟩
        rw [hfound, hdetermined.unique (determined_of_plain hplain).unranked]

end Rulebook.Condition
