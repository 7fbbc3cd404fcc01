import Rulebook.Proofs.Operator.Builtin

/-!
Laws of the built-in decorators.

Two decorators cancel, or change places, whatever the operator below them does: it may be guarded,
fail, or be decorated itself (`interchangeable`).  Both sides of a law ask the operator about the
same values in the same order, so going through the values stops at the same one, and fails with the
same error.  The decorators that go through the fact value refuse one that is no array, and those
that go through the condition value do not, so some of the laws need an array.
-/

namespace Rulebook

/-- A decorated operator runs its wrapping on the values that its guard accepts. -/
theorem Decorator.evaluate_decorate (decorator : Decorator) {fact : Value}
    (h : decorator.guard fact = .ok true) (operator : Operator) (value : Value) :
    (decorator.decorate operator).evaluate fact value =
      decorator.wrap operator.evaluate fact value := by
  rw [Operator.evaluate]
  dsimp only [Decorator.decorate]
  rw [h]

namespace Builtin

/-! ### Laws of the wrappings -/

/-- That no item satisfies a test is that every item satisfies the opposite one: going through them
stops at the same item, and fails at the same item. -/
theorem not_someItem (test : Value → Except Error Bool) (items : List Value) :
    (someItem test items).map (!·) = everyItem (fun item => (test item).map (!·)) items := by
  induction items with
  | nil => rfl
  | cons item rest ih =>
      unfold someItem everyItem
      cases test item with
      | error e => rfl
      | ok verdict =>
          cases verdict with
          | true => rfl
          | false => exact ih

/-- A value without items fails alike, whether the opposite verdict is taken of all its items
together or of each. -/
theorem not_overItems (test : Value → Except Error Bool) (value : Value) :
    (itemsOf value >>= someItem test).map (!·) =
      itemsOf value >>= everyItem fun item => (test item).map (!·) := by
  cases itemsOf value with
  | error e => rfl
  | ok items => exact not_someItem test items

section Wrappings

variable (next : Comparison) (fact value : Value)

theorem negate_negate : negate (negate next) fact value = next fact value := by
  change ((next fact value).map (!·)).map (!·) = next fact value
  cases next fact value with
  | error e => rfl
  | ok verdict => exact congrArg Except.ok (Bool.not_not verdict)

theorem negate_someFact :
    negate (someFact next) fact value = everyFact (negate next) fact value :=
  not_overItems (fun item => next item value) fact

theorem negate_someValue :
    negate (someValue next) fact value = everyValue (negate next) fact value :=
  not_overItems (next fact) value

end Wrappings

/-! ### The decorators, one by one -/

/-- One of the built-in decorators. -/
abbrev Part := { decorator : Decorator // decorator ∈ decorators }

namespace Part

def name (part : Part) : String := part.val.name

def decorate (part : Part) : Operator → Operator := part.val.decorate

def someFact : Part := ⟨⟨"someFact", isArray, Builtin.someFact⟩, by simp [decorators]⟩

def someValue : Part := ⟨⟨"someValue", Guard.none, Builtin.someValue⟩, by simp [decorators]⟩

def everyFact : Part := ⟨⟨"everyFact", isArray, Builtin.everyFact⟩, by simp [decorators]⟩

def everyValue : Part := ⟨⟨"everyValue", Guard.none, Builtin.everyValue⟩, by simp [decorators]⟩

def swap : Part := ⟨⟨"swap", Guard.none, Builtin.swap⟩, by simp [decorators]⟩

def not : Part := ⟨⟨"not", Guard.none, negate⟩, by simp [decorators]⟩

end Part

end Builtin

namespace Registry

variable {registry : Registry}

/-! ### Decorators by name -/

/-- The built-in decorators are registered under their names. -/
def HasBuiltins (registry : Registry) : Prop :=
  ∀ decorator ∈ Builtin.decorators, registry.decorators.find? decorator.name = some decorator

/-- Wrapping an operator in the decorators of either list of names, the last one first, gives
operators that compare the two values alike: with the same verdict, or with the same error. -/
def Interchangeable (registry : Registry) (left right : List String) (operator : Operator)
    (fact value : Value) : Prop :=
  ∃ one other, left.foldrM registry.apply operator = .ok one ∧
    right.foldrM registry.apply operator = .ok other ∧
    one.evaluate fact value = other.evaluate fact value

theorem HasBuiltins.foldrM_apply (h : registry.HasBuiltins) (decorators : List Builtin.Part)
    (operator : Operator) :
    (decorators.map Builtin.Part.name).foldrM registry.apply operator =
      .ok (decorators.foldr Builtin.Part.decorate operator) := by
  induction decorators with
  | nil => rfl
  | cons decorator rest ih =>
      rw [List.map_cons, List.foldrM_cons, ih]
      change registry.apply decorator.val.name _ = _
      rw [apply, h decorator.val decorator.property]
      rfl

/-- Names stand for what they wrap: it is enough to compare with the wrapped operators. -/
theorem HasBuiltins.interchangeable_of_evaluate (h : registry.HasBuiltins)
    (left right : List Builtin.Part) {operator : Operator} {fact value : Value}
    (hevaluate : (left.foldr Builtin.Part.decorate operator).evaluate fact value =
      (right.foldr Builtin.Part.decorate operator).evaluate fact value) :
    registry.Interchangeable (left.map Builtin.Part.name) (right.map Builtin.Part.name)
      operator fact value :=
  ⟨_, _, h.foldrM_apply left operator, h.foldrM_apply right operator, hevaluate⟩

/-- The laws of the built-in decorators.  `not` and `swap` undo themselves; `not` takes one of
`someValue`, `someFact` to its dual, and `swap` takes decorators of the fact value to those of the
condition value, where the array that the former ask for is one. -/
theorem interchangeable (h : registry.HasBuiltins) (operator : Operator) (fact value : Value) :
    registry.Interchangeable ["not", "not"] [] operator fact value ∧
    registry.Interchangeable ["swap", "swap"] [] operator fact value ∧
    registry.Interchangeable ["not", "someValue"] ["everyValue", "not"] operator fact value ∧
    (fact.isArray = true →
      registry.Interchangeable ["not", "someFact"] ["everyFact", "not"] operator fact value) ∧
    (value.isArray = true →
      registry.Interchangeable ["swap", "someFact"] ["someValue", "swap"] operator fact value ∧
      registry.Interchangeable ["swap", "everyFact"] ["everyValue", "swap"]
        operator fact value) := by
  refine ⟨?twice, ?back, ?anyValue, fun hfact => ?anyFact, fun hvalue => ⟨?anyOther, ?eachOther⟩⟩
  case twice =>
    exact h.interchangeable_of_evaluate [.not, .not] []
      (Builtin.negate_negate operator.evaluate fact value)
  case back =>
    exact h.interchangeable_of_evaluate [.swap, .swap] [] rfl
  case anyValue =>
    exact h.interchangeable_of_evaluate [.not, .someValue] [.everyValue, .not]
      (Builtin.negate_someValue operator.evaluate fact value)
  case anyFact =>
    have harray : Builtin.isArray fact = .ok true := congrArg Except.ok hfact
    refine h.interchangeable_of_evaluate [.not, .someFact] [.everyFact, .not] ?_
    calc Builtin.negate (Builtin.Part.someFact.decorate operator).evaluate fact value
        = Builtin.negate (Builtin.someFact operator.evaluate) fact value :=
          congrArg (Except.map (!·))
            (Builtin.Part.someFact.val.evaluate_decorate harray operator value)
      _ = Builtin.everyFact (Builtin.negate operator.evaluate) fact value :=
          Builtin.negate_someFact operator.evaluate fact value
      _ = (Builtin.Part.everyFact.decorate (Builtin.Part.not.decorate operator)).evaluate fact
            value := 
          (Builtin.Part.everyFact.val.evaluate_decorate harray
            (Builtin.Part.not.decorate operator) value).symm
  -- What the guard of the decorator below is asked about is the condition value.
  case anyOther =>
    exact h.interchangeable_of_evaluate [.swap, .someFact] [.someValue, .swap]
      (Builtin.Part.someFact.val.evaluate_decorate (congrArg Except.ok hvalue) operator fact)
  case eachOther =>
    exact h.interchangeable_of_evaluate [.swap, .everyFact] [.everyValue, .swap]
      (Builtin.Part.everyFact.val.evaluate_decorate (congrArg Except.ok hvalue) operator fact)

theorem hasBuiltins_withDefaults : withDefaults.HasBuiltins := by
  simp only [HasBuiltins, Builtin.decorators, List.forall_mem_cons]
  exact ⟨rfl, rfl, rfl, rfl, rfl, rfl, List.forall_mem_nil _⟩

/-- An operator that finds two texts alike when both are the same, and fails on other values. -/
def touchy : Operator where
  name := "touchy"
  guard := fun fact => if fact == .null then .ok false else .ok true
  compare := fun fact value =>
    match fact, value with
    | .str one, .str other => .ok (one == other)
    | _, _ => .error .type

/-- Going through three values, the second is refused by the guard and the third fails. -/
theorem interchangeable_touchy :
    (Value.list [.str "a", .null, .int 1]).isArray = true ∧
    withDefaults.Interchangeable ["not", "someFact"] ["everyFact", "not"] touchy
      (.list [.str "a", .null, .int 1]) (.tuple [.str "b"]) ∧
    (Value.tuple [.str "b"]).isArray = true ∧
    withDefaults.Interchangeable ["swap", "everyFact"] ["everyValue", "swap"] touchy
      (.list [.str "a", .null, .int 1]) (.tuple [.str "b"]) :=
  have hlaws := interchangeable hasBuiltins_withDefaults touchy
    (.list [.str "a", .null, .int 1]) (.tuple [.str "b"])
  ⟨rfl, hlaws.2.2.2.1 rfl, rfl, (hlaws.2.2.2.2 rfl).2⟩

end Registry

end Rulebook
