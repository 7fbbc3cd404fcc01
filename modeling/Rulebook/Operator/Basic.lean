import Rulebook.Error

/-!
Operators compare the value of a fact with the value of a condition.  A decorator turns an operator
into a new one by running it on other values or by changing its verdict.
-/

namespace Rulebook

/-- The comparison of a fact value (first) with a condition value (second). -/
abbrev Comparison := Value → Value → Except Error Bool

/-- A question about a fact value that is asked before it is compared. -/
abbrev Guard := Value → Except Error Bool

/-- The guard that accepts every value. -/
def Guard.none : Guard := fun _ => .ok true

/-- A named comparison, guarded: a fact value that the guard rejects compares as false. -/
structure Operator where
  name : String
  guard : Guard
  compare : Comparison

namespace Operator

/-- Compare two values; the comparison does not run when the guard rejects the fact value. -/
def evaluate (operator : Operator) : Comparison := fun fact value =>
  match operator.guard fact with
  | .error e => .error e
  | .ok false => .ok false
  | .ok true => operator.compare fact value

/-- Names are texts; any other value names what its literal form says, and only null and the empty
text are no names. -/
def nameOf? : Value → Option String
  | .null => none
  | .str "" => none
  | value => some value.display

/-- Define an operator; it needs a name and a comparison. -/
def define (name : Value) (compare : Option Comparison) (guard : Guard) : Except Error Operator :=
  match nameOf? name, compare with
  | none, _ => .error (.operatorDefinition (.noName .operator))
  | some name, none => .error (.operatorDefinition (.noCallback .operator name))
  | some name, some compare => .ok { name, guard, compare }

/-- The literal form of an operator. -/
def literal (operator : Operator) : String := s!"Operator({Text.quoted operator.name})"

end Operator

/-- How a decorator makes one comparison from another. -/
abbrev Wrapping := Comparison → Comparison

/-- A named, guarded wrapping. -/
structure Decorator where
  name : String
  guard : Guard
  wrap : Wrapping

namespace Decorator

/-- The character between the names of decorators and the operator they wrap. -/
def separator : String := ":"

/-- The operator that `decorator` makes of another.  Its guard is the decorator's; the guard of the
inner operator is asked whenever that one is run. -/
def decorate (decorator : Decorator) (operator : Operator) : Operator where
  name := decorator.name ++ separator ++ operator.name
  guard := decorator.guard
  compare := decorator.wrap operator.evaluate

/-- Define a decorator; it needs a name and a wrapping. -/
def define (name : Value) (wrap : Option Wrapping) (guard : Guard) : Except Error Decorator :=
  match Operator.nameOf? name, wrap with
  | none, _ => .error (.operatorDefinition (.noName .decorator))
  | some name, none => .error (.operatorDefinition (.noCallback .decorator name))
  | some name, some wrap => .ok { name, guard, wrap }

/-- The literal form of a decorator. -/
def literal (decorator : Decorator) : String :=
  s!"OperatorDecorator({Text.quoted decorator.name})"

end Decorator

end Rulebook
