import Rulebook.Value.Basic
import Rulebook.Number.Shortest
import Rulebook.Text.Quoted

/-!
The literal form of a value, as messages show it: quoted texts, `None`, `True` and `False`, square
brackets for lists, round ones for tuples (with a comma after a single item), braces for objects
and sets.
-/

namespace Rulebook.Value

mutual

/-- The literal form of a value. -/
def literal : Value → String
  | .null => "None"
  | .bool true => "True"
  | .bool false => "False"
  | .int n => toString n
  | .float x => x.toText
  | .str text => Text.quoted text
  | .list items => "[" ++ ", ".intercalate (literals items) ++ "]"
  | .tuple [item] => "(" ++ item.literal ++ ",)"
  | .tuple items => "(" ++ ", ".intercalate (literals items) ++ ")"
  | .set [] => "set()"
  | .set items => "\x7b" ++ ", ".intercalate (literals items) ++ "\x7d"
  | .object members => "\x7b" ++ ", ".intercalate (memberLiterals members) ++ "\x7d"

/-- The literal forms of items. -/
def literals : List Value → List String
  | [] => []
  | item :: rest => item.literal :: literals rest

/-- The literal forms of members. -/
def memberLiterals : List (String × Value) → List String
  | [] => []
  | (name, value) :: rest => (Text.quoted name ++ ": " ++ value.literal) :: memberLiterals rest

end

/-- The text of a value inside a message: a text stands for itself, any other value is shown in
literal form. -/
def display : Value → String
  | .str text => text
  | value => value.literal

end Rulebook.Value
