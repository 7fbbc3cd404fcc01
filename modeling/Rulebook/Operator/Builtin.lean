import Rulebook.Operator.Basic
import Rulebook.Value.Equality
import Rulebook.Number.Numeral

/-!
The built-in operators and decorators.

Equality is the loose equality of values.  The four orderings compare numbers, and texts that spell
a finite floating point number; anything else is not ordered and compares as false.  A whole number
past the greatest floating point number cannot be examined: asking for it is an overflow.
-/

namespace Rulebook.Builtin

/-- A floating point number that a text spells, or the number that a value is. -/
def toNumber? : Value → Option Number
  | .str text => (Numeral.float? text).map .float
  | .int n => some (.int n)
  | .float x => some (.float x)
  | _ => none

/-- Is the value a finite number, or a text that spells one?  Truth values are not numbers here. -/
def isNumber : Guard
  | .int n => if (Binary64.ofInt? n).isSome then .ok true else .error (.misuse .overflow)
  | .float x => .ok x.isFinite
  | .str text =>
      match Numeral.float? text with
      | some x => .ok x.isFinite
      | none => .ok false
  | _ => .ok false

/-- Is the value a list or a tuple? -/
def isArray : Guard := fun value => .ok value.isArray

/-- Compare two values as numbers, once the second one is known to be a number.  What is no number
has no place in the order. -/
def ordered (holds : Number → Number → Bool) : Comparison := fun fact value =>
  match isNumber value with
  | .error e => .error e
  | .ok false => .ok false
  | .ok true =>
      match toNumber? fact, toNumber? value with
      | some a, some b => .ok (holds a b)
      | _, _ => .error .type

/-- Does a text hold another as a part? -/
def hasPart (text part : List Char) : Bool :=
  part.isPrefixOf text ||
    match text with
    | [] => false
    | _ :: rest => hasPart rest part

/-- Can the value hold others? -/
def isContainer : Value → Bool
  | .list _ | .tuple _ | .set _ | .object _ | .str _ => true
  | _ => false

/-- Look for an item in a value: among the items of an array or a set, the names in an object, the
parts of a text.  What cannot be hashed cannot be looked for in a set or an object, nothing but a text
in a text, and nothing at all in a value that holds nothing. -/
def search (item container : Value) : Except Error Bool :=
  match container with
  | .list items => .ok (item.among items)
  | .tuple items => .ok (item.among items)
  | .set items => if item.hashable then .ok (item.among items) else .error .type
  | .object members =>
      if item.hashable then .ok (item.among (members.map fun member => .str member.1))
      else .error .type
  | .str text =>
      match item with
      | .str part => .ok (hasPart text.toList part.toList)
      | _ => .error .type
  | _ => .error .type

/-- Is `item` one of the things in `container`?  What cannot be looked for there is not there. -/
def isIn (item container : Value) : Except Error Bool :=
  match container, item with
  | .str _, .str _ => search item container
  | .str _, _ => .ok false
  | _, _ =>
      match search item container with
      | .error (.misuse .type) => .ok false
      | found => found

/-- An operator that orders numbers. -/
def ordering (name : String) (holds : Number → Number → Bool) : Operator :=
  ⟨name, isNumber, ordered holds⟩

def lessThan : Operator := ordering "lessThan" Number.less

def lessThanInclusive : Operator := ordering "lessThanInclusive" Number.lessEqual

def greaterThan : Operator := ordering "greaterThan" fun a b => b.less a

def greaterThanInclusive : Operator := ordering "greaterThanInclusive" fun a b => b.lessEqual a

/-- The built-in operators. -/
def operators : List Operator := [
  ⟨"equal", Guard.none, fun a b => .ok (a == b)⟩,
  ⟨"notEqual", Guard.none, fun a b => .ok (!(a == b))⟩,
  ⟨"in", Guard.none, fun a b => if isContainer b then isIn a b else .ok false⟩,
  ⟨"notIn", Guard.none, fun a b => if isContainer b then (isIn a b).map (!·) else .ok false⟩,
  ⟨"contains", isArray, fun a b => search b a⟩,
  ⟨"doesNotContain", isArray, fun a b => (search b a).map (!·)⟩,
  lessThan,
  lessThanInclusive,
  greaterThan,
  greaterThanInclusive]

/-- Does some item satisfy a test?  The items after it are not tested. -/
def someItem (test : Value → Except Error Bool) : List Value → Except Error Bool
  | [] => .ok false
  | item :: rest =>
      match test item with
      | .error e => .error e
      | .ok true => .ok true
      | .ok false => someItem test rest

/-- Does every item satisfy a test?  The items after one that does not are not tested. -/
def everyItem (test : Value → Except Error Bool) : List Value → Except Error Bool
  | [] => .ok true
  | item :: rest =>
      match test item with
      | .error e => .error e
      | .ok false => .ok false
      | .ok true => everyItem test rest

/-- The items of a value that has some. -/
def itemsOf (value : Value) : Except Error (List Value) :=
  match value.items? with
  | some items => .ok items
  | none => .error .type

/-- Some item of the fact value compares as true. -/
def someFact : Wrapping := fun next fact value => do
  someItem (fun item => next item value) (← itemsOf fact)

/-- Every item of the fact value compares as true. -/
def everyFact : Wrapping := fun next fact value => do
  everyItem (fun item => next item value) (← itemsOf fact)

/-- Some item of the condition value compares as true. -/
def someValue : Wrapping := fun next fact value => do
  someItem (next fact) (← itemsOf value)

/-- Every item of the condition value compares as true. -/
def everyValue : Wrapping := fun next fact value => do
  everyItem (next fact) (← itemsOf value)

/-- Compare the other way round. -/
def swap : Wrapping := fun next fact value => next value fact

/-- The opposite verdict. -/
def negate : Wrapping := fun next fact value => (next fact value).map (!·)

/-- The built-in decorators. -/
def decorators : List Decorator := [
  ⟨"someFact", isArray, someFact⟩,
  ⟨"someValue", Guard.none, someValue⟩,
  ⟨"everyFact", isArray, everyFact⟩,
  ⟨"everyValue", Guard.none, everyValue⟩,
  ⟨"swap", Guard.none, swap⟩,
  ⟨"not", Guard.none, negate⟩]

end Rulebook.Builtin
