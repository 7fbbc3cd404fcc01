import Rulebook.Proofs.Number.Overflow
import Rulebook.Proofs.Operator.Builtin

/-!
What comes of the built-in operators.

Whatever the two values are, a built-in operator comes to a verdict or to an overflow, and which of
them it is follows from the values (`operators_raise`).  The fact value is examined first, so after one
that is no number the condition value may be of any size.
-/

namespace Rulebook

/-- The value is a whole number that rounds past the greatest number of 64 bits. -/
def Value.Oversized (value : Value) : Prop :=
  ∃ n : Int, value = .int n ∧ Binary64.overflowLimit ≤ n.natAbs

theorem Value.not_measurable_iff {value : Value} : ¬ value.Measurable ↔ value.Oversized := by
  simp only [Measurable, Classical.not_forall, Oversized, ← Binary64.ofInt?_eq_none_iff,
    exists_prop, Bool.not_eq_true, Option.isSome_eq_false_iff, Option.isNone_iff_eq_none]

namespace Builtin

/-- Ordering the values comes upon a number that is too large: the fact value, or the condition value
beside a fact value that is a number. -/
def Overflows (fact value : Value) : Prop :=
  fact.Oversized ∨ isNumber fact = .ok true ∧ value.Oversized

/-- The operators that order numbers overflow exactly where ordering the values does; apart from that,
every operator comes to a verdict. -/
theorem operators_raise {operator : Operator} (h : operator ∈ operators) (fact value : Value) :
    (operator.name ∈ orderings → Overflows fact value →
        operator.evaluate fact value = .error (.misuse .overflow)) ∧
      (¬ (operator.name ∈ orderings ∧ Overflows fact value) →
        ∃ verdict, operator.evaluate fact value = .ok verdict) := by
  have herror : ∀ e, operator.evaluate fact value = .error e ↔
      e = .misuse .overflow ∧ operator.name ∈ orderings ∧ Overflows fact value := by
    intro e
    rw [operators_eq_error_iff h, Value.not_measurable_iff, Value.not_measurable_iff]
    rfl
  refine ⟨fun hname hover => (herror _).2 ⟨rfl, hname, hover⟩, fun hnot => ?_⟩
  cases hevaluate : operator.evaluate fact value with
  | ok verdict => exact ⟨verdict, rfl⟩
  | error e => exact absurd ((herror e).1 hevaluate).2 hnot

/-- A text that spells a number is asked of a power of two that is too large, and nothing at all is
asked of it beside a text that spells none. -/
theorem operators_raise_power :
    (lessThan ∈ operators ∧ lessThan.evaluate (.str "12") (.int (2 ^ 1024 : Nat)) =
        .error (.misuse .overflow)) ∧
      ∃ verdict, lessThan.evaluate (.str "twelve") (.int (2 ^ 1024 : Nat)) = .ok verdict := by
  have hmem : lessThan ∈ operators := by simp [operators]
  have hlarge : Value.Oversized (.int (2 ^ 1024 : Nat)) := ⟨_, rfl, by decide +kernel⟩
  have htext : isNumber (.str "12") = .ok true := by
    have hfloat : Numeral.float? "12" = some (.finite false (3 * 2 ^ 51) (-49)) := by
      decide +kernel
    rw [isNumber, hfloat]
    rfl
  have hword : isNumber (.str "twelve") = .ok false := by
    have hfloat : Numeral.float? "twelve" = none := by decide +kernel
    rw [isNumber, hfloat]
  have hnot : ¬ Overflows (.str "twelve") (.int (2 ^ 1024 : Nat)) := by
    rintro (⟨n, hn, _⟩ | ⟨haccepted, _⟩)
    · cases hn
    · cases hword.symm.trans haccepted
  exact ⟨⟨hmem, (operators_raise hmem _ _).1 (by decide) (.inr ⟨htext, hlarge⟩)⟩,
    (operators_raise hmem _ _).2 fun hboth => hnot hboth.2⟩

end Builtin

end Rulebook
