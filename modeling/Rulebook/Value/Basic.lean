import Rulebook.Number.Binary64
import Rulebook.Table

/-!
Values: the data that facts hold, that conditions compare with and that definitions are written in.
They are the values of JSON, with whole and floating point numbers kept apart, and besides lists
there are tuples and sets.
-/

namespace Rulebook

/-- A value.  The members of an object are in order and have distinct names; the items of a set are
distinct and hashable. -/
inductive Value where
  | null
  | bool (b : Bool)
  | int (n : Int)
  | float (x : Binary64)
  | str (text : String)
  | list (items : List Value)
  | tuple (items : List Value)
  | set (items : List Value)
  | object (members : List (String × Value))
  deriving Repr, Inhabited

/-- The members of an object. -/
abbrev Members := Table String Value

namespace Value

/-- The empty object. -/
def empty : Value := .object []

/-- A text or nothing. -/
def ofText? : Option String → Value
  | some text => .str text
  | none => .null

/-- A natural number as a value. -/
def nat (n : Nat) : Value := .int n

/-- A value counts as true unless it is null, false, a zero, or empty. -/
def truthy : Value → Bool
  | .null => false
  | .bool b => b
  | .int n => n != 0
  | .float x => !x.isZero
  | .str text => !text.isEmpty
  | .list items => !items.isEmpty
  | .tuple items => !items.isEmpty
  | .set items => !items.isEmpty
  | .object members => !members.isEmpty

/-- The name of a value's type, as messages give it. -/
def typeName : Value → String
  | .null => "NoneType"
  | .bool _ => "bool"
  | .int _ => "int"
  | .float _ => "float"
  | .str _ => "str"
  | .list _ => "list"
  | .tuple _ => "tuple"
  | .set _ => "set"
  | .object _ => "dict"

/-- The number that a value is; truth values count as one and zero. -/
def number? : Value → Option Number
  | .bool b => some (.int (if b then 1 else 0))
  | .int n => some (.int n)
  | .float x => some (.float x)
  | _ => none

/-- The items of an array: a list or a tuple. -/
def array? : Value → Option (List Value)
  | .list items => some items
  | .tuple items => some items
  | _ => none

/-- Is the value a list or a tuple? -/
def isArray (value : Value) : Bool := value.array?.isSome

/-- The members of an object. -/
def members? : Value → Option Members
  | .object members => some members
  | _ => none

/-- The text that a value is. -/
def text? : Value → Option String
  | .str text => some text
  | _ => none

mutual

/-- Can the value be a key or the item of a set?  Lists, sets and objects cannot, nor can a tuple
that holds one. -/
def hashable : Value → Bool
  | .list _ => false
  | .set _ => false
  | .object _ => false
  | .tuple items => hashableAll items
  | _ => true

/-- Are all the items hashable? -/
def hashableAll : List Value → Bool
  | [] => true
  | item :: rest => item.hashable && hashableAll rest

end

/-- What one gets by going through a value item by item: the characters of a text, the names in an
object. -/
def items? : Value → Option (List Value)
  | .str text => some (text.toList.map fun c => .str c.toString)
  | .list items => some items
  | .tuple items => some items
  | .set items => some items
  | .object members => some (members.map fun member => .str member.1)
  | _ => none

/-- The member of an object. -/
def member? (value : Value) (name : String) : Option Value :=
  match value with
  | .object members => Table.find? members name
  | _ => none

end Value

end Rulebook
