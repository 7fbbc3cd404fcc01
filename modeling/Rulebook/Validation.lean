import Rulebook.Priority
import Rulebook.Validation.Whole

/-!
Lenient reading of the fields of a record.  A whole number may come as a truth value, as a whole
floating point number or as a text; a truth value may come as zero, one or one of a few words; a
text and an object must be what they are.
-/

namespace Rulebook.Validation

/-- A floating point number is whole and lies strictly between the ends of the signed 64-bit
numbers. -/
def intOfFloat (x : Binary64) : Except FieldCause Int :=
  if !x.isFinite then .error .notFinite
  else
    match x.toInt? with
    | none => .error .fractionalInt
    | some n => if -(Nat.pow 2 63 : Int) < n ∧ n < Nat.pow 2 63 then .ok n else .error .oversizedInt

/-- A whole number. -/
def int : Value → Except FieldCause Int
  | .bool b => .ok (if b then 1 else 0)
  | .int n => .ok n
  | .float x => intOfFloat x
  | .str text => intOfText text
  | _ => .error .notInt

/-- A priority, which is a whole number of at least one. -/
def priority (value : Value) : Except FieldCause Priority := do
  match Priority.ofInt? (← int value) with
  | some priority => .ok priority
  | none => .error .belowOne

/-- The words for false. -/
def falseWords : List String := ["0", "off", "f", "false", "n", "no"]

/-- The words for true. -/
def trueWords : List String := ["1", "on", "t", "true", "y", "yes"]

/-- The truth value that a number stands for. -/
def boolOfInt (n : Int) : Except FieldCause Bool :=
  if n = 0 then .ok false else if n = 1 then .ok true else .error .unreadableBool

/-- A truth value.  A number that a signed 64-bit word cannot hold, and one that is not whole, is
of the wrong kind; any other number is a value that cannot be read. -/
def bool : Value → Except FieldCause Bool
  | .bool b => .ok b
  | .int n =>
      if -(Nat.pow 2 63 : Int) ≤ n ∧ n < Nat.pow 2 63 then boolOfInt n else .error .notBool
  | .float x =>
      match intOfFloat x with
      | .ok n => boolOfInt n
      | .error _ => .error .notBool
  | .str text =>
      let word := String.ofList (text.toList.map Char.toLower)
      if falseWords.contains word then .ok false
      else if trueWords.contains word then .ok true
      else .error .unreadableBool
  | _ => .error .notBool

/-- A text. -/
def text : Value → Except FieldCause String
  | .str text => .ok text
  | _ => .error .notText

/-- A text or null. -/
def optionalText : Value → Except FieldCause (Option String)
  | .null => .ok none
  | value => (text value).map some

/-- An object. -/
def object : Value → Except FieldCause Members
  | .object members => .ok members
  | _ => .error .notObject

/-- The outcome of reading one field: the value, or what was wrong with it. -/
abbrev Reading (α : Type) := Except (List FieldFault) α

/-- Read the field of a name; a missing one has the default, or is a fault without one. -/
def field {α : Type} (members : Members) (name : String) (read : Value → Except FieldCause α)
    (default : Option α) : Reading α :=
  match Table.find? members name with
  | some value =>
      match read value with
      | .ok a => .ok a
      | .error cause => .error [⟨[name], cause⟩]
  | none =>
      match default with
      | some a => .ok a
      | none => .error [⟨[name], .missing⟩]

/-- The faults of a field. -/
def faults {α : Type} : Reading α → List FieldFault
  | .ok _ => []
  | .error faults => faults

/-- Put two fields together; the faults of both are told, in order. -/
def both {α β γ : Type} (make : α → β → γ) (a : Reading α) (b : Reading β) : Reading γ :=
  match a, b with
  | .ok a, .ok b => .ok (make a b)
  | a, b => .error (faults a ++ faults b)

end Rulebook.Validation
