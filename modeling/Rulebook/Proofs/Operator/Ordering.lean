import Mathlib.Algebra.Order.Ring.Rat
import Rulebook.Proofs.Operator.Outcomes

/-!
The order of numbers.

Whole numbers, floating point numbers and texts that spell one are ordered together, as the rationals
that they are (`orderings_total`).  No rounding takes part in comparing them; a text is rounded when it
is read, so it is ordered as the number that it is read as.
-/

namespace Rulebook

namespace Number

/-- The exact value of a number; infinities and NaN have none. -/
def rat? : Number → Option ℚ
  | .int n => some n
  | .float x => x.toRat?

variable {a b : Number} {p q : ℚ}

theorem place?_of_rat? (h : a.rat? = some p) : a.place? = some (.at p) := by
  cases a with
  | int n => exact congrArg (Option.map Place.at) h
  | float x =>
      cases x with
      | finite negative m e => exact congrArg (Option.map Place.at) h
      | _ => cases h

theorem less_eq (ha : a.rat? = some p) (hb : b.rat? = some q) : a.less b = decide (p < q) := by
  rw [less, place?_of_rat? ha, place?_of_rat? hb]
  rfl

theorem lessEqual_eq (ha : a.rat? = some p) (hb : b.rat? = some q) :
    a.lessEqual b = decide (p ≤ q) := by
  rw [lessEqual, less_eq ha hb, equal, place?_of_rat? ha, place?_of_rat? hb, Bool.eq_iff_iff]
  simp [le_iff_lt_or_eq]

end Number

theorem Binary64.exists_toRat? {x : Binary64} (h : x.isFinite = true) : ∃ r, x.toRat? = some r := by
  cases x with
  | finite negative m e => exact ⟨_, rfl⟩
  | _ => cases h

namespace Builtin

/-! ### What is a number -/

/-- The rational that a value is ordered as. -/
def rat? (value : Value) : Option ℚ := (toNumber? value).bind Number.rat?

/-- Whole numbers that are not too large are numbers, and so are finite floating point numbers and
texts that spell one. -/
theorem isNumber_eq_true_iff {value : Value} : isNumber value = .ok true ↔
    (∃ n : Int, value = .int n ∧ n.natAbs < Binary64.overflowLimit) ∨
      (∃ x, value = .float x ∧ x.isFinite = true) ∨
        ∃ text x, value = .str text ∧ Numeral.float? text = some x ∧ x.isFinite = true := by
  cases value with
  | int n =>
      have hsome : (Binary64.ofInt? n).isSome = true ↔ n.natAbs < Binary64.overflowLimit := by
        rw [Option.isSome_iff_ne_none, ne_eq, Binary64.ofInt?_eq_none_iff, Nat.not_le]
      simp [isNumber, hsome]
  | float x => simp [isNumber]
  | str text =>
      cases hfloat : Numeral.float? text <;> simp [isNumber, hfloat]
  | _ => simp [isNumber]

/-- What is a number is ordered as a rational. -/
theorem exists_rat {value : Value} (h : isNumber value = .ok true) : ∃ r, rat? value = some r := by
  rcases isNumber_eq_true_iff.1 h with ⟨n, rfl, _⟩ | ⟨x, rfl, hx⟩ | ⟨text, x, rfl, htext, hx⟩
  · exact ⟨n, rfl⟩
  · exact Binary64.exists_toRat? hx
  · obtain ⟨r, hr⟩ := Binary64.exists_toRat? hx
    exact ⟨r, by simp [rat?, toNumber?, htext, Number.rat?, hr]⟩

/-- A value that is a number. -/
abbrev Numeric := { value : Value // isNumber value = .ok true }

/-- The rational that it is ordered as. -/
def Numeric.rat (a : Numeric) : ℚ := (rat? a.val).get (Option.isSome_iff_exists.2 (exists_rat a.prop))

theorem Numeric.rat?_eq (a : Numeric) : rat? a.val = some a.rat := (Option.some_get _).symm

/-! ### Comparing -/

/-- What is no number, or is compared with what is no number, is not ordered. -/
theorem evaluate_ordering_of_rejected {name : String} {holds : Number → Number → Bool}
    {fact value : Value} (h : isNumber fact = .ok false ∨
      isNumber fact = .ok true ∧ isNumber value = .ok false) :
    (ordering name holds).evaluate fact value = .ok false := by
  rcases h with hfact | ⟨hfact, hvalue⟩
  · simp [Operator.evaluate, ordering, hfact]
  · simp [Operator.evaluate, ordering, ordered, hfact, hvalue]

/-- Numbers are compared as the rationals that they are, if the test is one of rationals. -/
theorem evaluate_ordering_of_numeric {name : String} {holds : Number → Number → Bool}
    {relates : ℚ → ℚ → Bool}
    (h : ∀ {a b : Number} {p q : ℚ}, a.rat? = some p → b.rat? = some q → holds a b = relates p q)
    (a b : Numeric) : (ordering name holds).evaluate a.val b.val = .ok (relates a.rat b.rat) := by
  obtain ⟨x, hx, hxrat⟩ := Option.bind_eq_some_iff.1 a.rat?_eq
  obtain ⟨y, hy, hyrat⟩ := Option.bind_eq_some_iff.1 b.rat?_eq
  simp [Operator.evaluate, ordering, ordered, a.prop, b.prop, hx, hy, h hxrat hyrat]

/-! ### The order -/

/-- The map gives each number its exact value, and a text that of the number that it spells. -/
structure Measures (num : Numeric → ℚ) : Prop where
  int : ∀ n h, num ⟨.int n, h⟩ = n
  float : ∀ x h, x.toRat? = some (num ⟨.float x, h⟩)
  text : ∀ text x h, Numeral.float? text = some x → x.toRat? = some (num ⟨.str text, h⟩)

/-- The four operators compare numbers by the map, and nothing else is ordered. -/
structure Orders (num : Numeric → ℚ) : Prop where
  less : ∀ a b : Numeric, lessThan.evaluate a.val b.val = .ok (decide (num a < num b))
  lessEqual : ∀ a b : Numeric,
    lessThanInclusive.evaluate a.val b.val = .ok (decide (num a ≤ num b))
  greater : ∀ a b : Numeric, greaterThan.evaluate a.val b.val = .ok (decide (num a > num b))
  greaterEqual : ∀ a b : Numeric,
    greaterThanInclusive.evaluate a.val b.val = .ok (decide (num a ≥ num b))
  rejected : ∀ fact value : Value, isNumber fact = .ok false ∨
      isNumber fact = .ok true ∧ isNumber value = .ok false →
    ∀ operator ∈ [lessThan, lessThanInclusive, greaterThan, greaterThanInclusive],
      operator.evaluate fact value = .ok false

/-- The operator holds of two values. -/
def Holds (operator : Operator) (fact value : Value) : Prop :=
  operator.evaluate fact value = .ok true

/-- One of three things is so, and the others are not. -/
def ExactlyOne (first second third : Prop) : Prop :=
  first ∧ ¬ second ∧ ¬ third ∨ ¬ first ∧ second ∧ ¬ third ∨ ¬ first ∧ ¬ second ∧ third

/-- Numbers are in one total order, whatever they are written as. -/
structure Total : Prop where
  trans : ∀ a b c : Numeric, Holds lessThan a.val b.val → Holds lessThan b.val c.val →
    Holds lessThan a.val c.val
  trichotomy : ∀ a b : Numeric, ExactlyOne (Holds lessThan a.val b.val)
    (Holds lessThan b.val a.val)
    (Holds lessThanInclusive a.val b.val ∧ Holds lessThanInclusive b.val a.val)
  swap : ∀ a b : Numeric, greaterThan.evaluate a.val b.val = lessThan.evaluate b.val a.val
  negation : ∀ a b : Numeric,
    lessThanInclusive.evaluate a.val b.val = (greaterThan.evaluate a.val b.val).map (!·)

theorem measures_rat : Measures Numeric.rat where
  int n h := Option.some.inj (Numeric.rat?_eq ⟨.int n, h⟩).symm
  float x h := Numeric.rat?_eq ⟨.float x, h⟩
  text text x h hx := by
    have hrat := Numeric.rat?_eq ⟨.str text, h⟩
    rwa [rat?, toNumber?, hx] at hrat

theorem orders_rat : Orders Numeric.rat where
  less := evaluate_ordering_of_numeric Number.less_eq
  lessEqual := evaluate_ordering_of_numeric Number.lessEqual_eq
  greater := evaluate_ordering_of_numeric fun ha hb => Number.less_eq hb ha
  greaterEqual := evaluate_ordering_of_numeric fun ha hb => Number.lessEqual_eq hb ha
  rejected fact value h := by
    simp only [List.forall_mem_cons, List.not_mem_nil, false_imp_iff, implies_true, and_true]
    exact ⟨evaluate_ordering_of_rejected h, evaluate_ordering_of_rejected h,
      evaluate_ordering_of_rejected h, evaluate_ordering_of_rejected h⟩

/-- Operators that compare numbers by a map to the rationals put them in one total order. -/
theorem Orders.total {num : Numeric → ℚ} (h : Orders num) : Total := by
  have hless : ∀ a b : Numeric, Holds lessThan a.val b.val ↔ num a < num b := fun a b => by
    simp [Holds, h.less]
  have hlessEqual : ∀ a b : Numeric, Holds lessThanInclusive a.val b.val ↔ num a ≤ num b :=
    fun a b => by simp [Holds, h.lessEqual]
  constructor
  case trans =>
    simp only [hless]
    exact fun a b c => lt_trans
  case trichotomy =>
    intro a b
    rw [ExactlyOne, hless, hless, hlessEqual, hlessEqual, ← le_antisymm_iff]
    rcases lt_trichotomy (num a) (num b) with hlt | heq | hgt
    · exact .inl ⟨hlt, hlt.not_gt, hlt.ne⟩
    · exact .inr (.inr ⟨heq.not_lt, heq.not_gt, heq⟩)
    · exact .inr (.inl ⟨hgt.not_gt, hgt, hgt.ne'⟩)
  case swap =>
    intro a b
    rw [h.greater, h.less]
  case negation =>
    intro a b
    have hnot : decide (num a ≤ num b) = !decide (num a > num b) := by
      rw [Bool.eq_iff_iff]
      simp
    rw [h.greater, h.lessEqual, hnot]
    rfl

/-- The numeric operators are one total order: that of the rationals that the numbers are. -/
theorem orderings_total :
    (∀ value, isNumber value = .ok true ↔
      (∃ n : Int, value = .int n ∧ n.natAbs < Binary64.overflowLimit) ∨
        (∃ x, value = .float x ∧ x.isFinite = true) ∨
          ∃ text x, value = .str text ∧ Numeral.float? text = some x ∧ x.isFinite = true) ∧
      (∃ num : Numeric → ℚ, Measures num ∧ Orders num) ∧ Total :=
  ⟨fun _ => isNumber_eq_true_iff, ⟨Numeric.rat, measures_rat, orders_rat⟩, orders_rat.total⟩

-- The text is read as `2 ^ 53`, which is less than the number that it spells.
example : (lessThan.evaluate (.str "9007199254740993") (.int 9007199254740993)).toOption =
    some true := by
  decide +kernel

end Builtin

end Rulebook
