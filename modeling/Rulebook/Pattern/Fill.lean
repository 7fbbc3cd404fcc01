import Rulebook.Pattern.Basic
import Rulebook.Pattern.Conversion

/-!
Filling the places of a pattern with values, from left to right.
-/

namespace Rulebook.Pattern

/-- The values for the places that are still left, and the value whose members have names. -/
structure Supply where
  named : Option Value
  left : List Value

/-- A tuple supplies its items, any other value itself.  An object and a list may be asked for
members by name. -/
def Supply.ofValue : Value → Supply
  | .tuple items => ⟨none, items⟩
  | .object members => ⟨some (.object members), [.object members]⟩
  | .list items => ⟨some (.list items), [.list items]⟩
  | value => ⟨none, [value]⟩

/-- Take the next value. -/
def Supply.next (supply : Supply) : Except Error (Value × Supply) :=
  match supply.left with
  | [] => .error .type
  | value :: rest => .ok (value, { supply with left := rest })

/-- Supply the member of a name, and nothing else. -/
def Supply.select (supply : Supply) (key : Key) : Except Error Supply :=
  match supply.named, key with
  | none, _ => .error .type
  | some _, .unclosed => .error (.misuse .value)
  | some (.object members), .named name =>
      match Table.find? members name with
      | some value => .ok { supply with left := [value] }
      | none => .error (.misuse .key)
  | some _, .named _ => .error .type

/-- Is a value left over?  Where members have names, values need not be used up. -/
def Supply.isLeftOver (supply : Supply) : Bool := supply.named.isNone && !supply.left.isEmpty

/-- The greatest width. -/
def widthLimit : Nat := Nat.pow 2 63 - 1

/-- The greatest precision. -/
def precisionLimit : Nat := Nat.pow 2 31 - 1

/-- The size of an extent; one that is taken from the values must be a whole number. -/
def Supply.extent (supply : Supply) (limit : Nat) : Extent → Except Error (Int × Supply)
  | .given n => if limit < n then .error (.misuse .value) else .ok (n, supply)
  | .next => do
      let (value, supply) ← supply.next
      match wholeOf? value with
      | none => .error .type
      | some n => if limit < n.natAbs then .error (.misuse .overflow) else .ok (n, supply)

/-- Fill a place. -/
def fillPlace (place : Place) (supply : Supply) : Except Error (String × Supply) := do
  let supply ← match place.key with
    | some key => supply.select key
    | none => .ok supply
  let (width, supply) ← supply.extent widthLimit (place.width.getD (.given 0))
  let (precision, supply) ← match place.precision with
    | none => .ok (none, supply)
    | some precision => do
        let (precision, supply) ← supply.extent precisionLimit precision
        .ok (some precision.toNat, supply)
  match place.conversion with
  | none => .error (.misuse .value)
  | some conversion =>
      let (value, supply) ← supply.next
      let flags := if width < 0 then '-' :: place.flags else place.flags
      let shown ← convert conversion (flags.contains '#') precision value
      .ok (shown.setOut flags width.natAbs, supply)

/-- Fill the places of a pattern; no value may be left over. -/
def fillPieces : List Piece → Supply → Except Error String
  | [], supply => if supply.isLeftOver then .error .type else .ok ""
  | .char c :: rest, supply => (fillPieces rest supply).map (c.toString ++ ·)
  | .place place :: rest, supply => do
      let (text, supply) ← fillPlace place supply
      return text ++ (← fillPieces rest supply)

/-- Put a value, or the items of a tuple, into the places of a pattern. -/
def fill (pattern : String) (value : Value) : Except Error String :=
  fillPieces (pieces pattern.toList) (.ofValue value)

theorem fillPieces_char (c : Char) (rest : List Piece) (supply : Supply) :
    fillPieces (.char c :: rest) supply = (fillPieces rest supply).map (c.toString ++ ·) := rfl

example : (fill "%d-%s" (.tuple [.int 2, .str "z"])).toOption = some "2-z" := by decide +kernel

end Rulebook.Pattern
