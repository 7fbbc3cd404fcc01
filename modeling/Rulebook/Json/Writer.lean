import Rulebook.Order
import Rulebook.Value.Literal

/-!
JSON text of values.  All text is ASCII: other characters are written as escapes of their UTF-16
units.  Tuples are written as lists.  JSON has no sets; `strict` refuses them, and otherwise a set
is written as the text of its literal form.
-/

namespace Rulebook.Json

/-- How the parts of a JSON text are set off. -/
structure Style where
  itemSeparator : String
  memberSeparator : String
  sortMembers : Bool

/-- A space after each comma and colon, members in order. -/
def Style.spaced : Style := ⟨", ", ": ", false⟩

/-- No spaces, members sorted by name. -/
def Style.canonical : Style := ⟨",", ":", true⟩

/-- An escape of one UTF-16 unit. -/
def unit (n : Nat) : String := "\\u" ++ Text.hex 4 n

/-- One character inside a JSON string. -/
def escapeChar (c : Char) : String :=
  if c = '"' then "\\\""
  else if c = '\\' then "\\\\"
  else if c = '\n' then "\\n"
  else if c = '\r' then "\\r"
  else if c = '\t' then "\\t"
  else if c = '\x0c' then "\\f"
  else if c = '\x08' then "\\b"
  else if 0x20 ≤ c.toNat ∧ c.toNat < 0x7f then c.toString
  else if c.toNat < 0x10000 then unit c.toNat
  else
    let high := (c.toNat - 0x10000) / 0x400
    let low := (c.toNat - 0x10000) % 0x400
    unit (0xd800 + high) ++ unit (0xdc00 + low)

/-- A JSON string. -/
def string (text : String) : String :=
  "\"" ++ String.join (text.toList.map escapeChar) ++ "\""

mutual

/-- The JSON text of a value. -/
def write (style : Style) : Value → String
  | .null => "null"
  | .bool true => "true"
  | .bool false => "false"
  | .int n => toString n
  | .float x => Binary64.Layout.json.render x
  | .str text => string text
  | .list items => "[" ++ style.itemSeparator.intercalate (writeItems style items) ++ "]"
  | .tuple items => "[" ++ style.itemSeparator.intercalate (writeItems style items) ++ "]"
  | .set items => string (Value.set items).literal
  | .object members =>
      let written := writeMembers style members
      let written := if style.sortMembers then sortBy (fun a b => a.1 ≤ b.1) written else written
      "\x7b" ++ style.itemSeparator.intercalate
        (written.map fun member => string member.1 ++ style.memberSeparator ++ member.2) ++ "\x7d"

/-- The JSON texts of items. -/
def writeItems (style : Style) : List Value → List String
  | [] => []
  | item :: rest => write style item :: writeItems style rest

/-- The names of members with the JSON texts of their values. -/
def writeMembers (style : Style) : List (String × Value) → List (String × String)
  | [] => []
  | (name, value) :: rest => (name, write style value) :: writeMembers style rest

end

mutual

/-- Is there no set in the value? -/
def isPlain : Value → Bool
  | .set _ => false
  | .list items => isPlainAll items
  | .tuple items => isPlainAll items
  | .object members => isPlainMembers members
  | _ => true

/-- Is there no set in the items? -/
def isPlainAll : List Value → Bool
  | [] => true
  | item :: rest => isPlain item && isPlainAll rest

/-- Is there no set in the members? -/
def isPlainMembers : List (String × Value) → Bool
  | [] => true
  | (_, value) :: rest => isPlain value && isPlainMembers rest

end

/-- The JSON text of a value, sets written as texts. -/
def text (value : Value) : String := write .spaced value

/-- The JSON text of a value without sets. -/
def strictText? (value : Value) : Option String :=
  if isPlain value then some (text value) else none

/-- The canonical JSON text of a value: equal objects have equal texts, whatever the order of their
members. -/
def canonical (value : Value) : String := write .canonical value

example : text (.list [.int 1, .str "é", .null]) = "[1, \"\\u00e9\", null]" := by decide +kernel

example : canonical (.object [("b", .int 2), ("a", .int 1)]) =
    canonical (.object [("a", .int 1), ("b", .int 2)]) := by
  decide +kernel

end Rulebook.Json
