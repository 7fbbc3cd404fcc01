import Rulebook.Order
import Rulebook.Value.Basic

/-!
Loose equality of values.  Numbers are equal when they are the same rational, whole or floating
point, and truth values are the numbers one and zero; NaN equals nothing.  Objects are equal
whatever the order of their members, and sets whatever the order of their items.  Values of
different kinds are unequal otherwise, so a tuple never equals a list.
-/

namespace Rulebook.Value

mutual

/-- Loose equality. -/
def equal : Value → Value → Bool
  | .null, .null => true
  | .str a, .str b => a == b
  | .list a, .list b => equalItems a b
  | .tuple a, .tuple b => equalItems a b
  | .set a, .set b => a.length == b.length && eachAmong a b
  | .object a, .object b => a.length == b.length && eachMember a b
  | a, b =>
      match a.number?, b.number? with
      | some x, some y => x.equal y
      | _, _ => false

/-- Item by item. -/
def equalItems : List Value → List Value → Bool
  | [], [] => true
  | a :: as, b :: bs => a.equal b && equalItems as bs
  | _, _ => false

/-- Does each item equal one of the others? -/
def eachAmong : List Value → List Value → Bool
  | [], _ => true
  | a :: as, bs => bs.any (fun b => a.equal b) && eachAmong as bs

/-- Does each member have an equal under its name? -/
def eachMember : List (String × Value) → List (String × Value) → Bool
  | [], _ => true
  | (name, a) :: as, bs =>
      (match Table.find? (κ := String) bs name with
        | some b => a.equal b
        | none => false) && eachMember as bs

end

instance : BEq Value := ⟨equal⟩

/-- Is the value equal to one of the items? -/
def among (value : Value) (items : List Value) : Bool :=
  items.any fun item => item == value

/-- Keep the first of equal items. -/
def distinct (items : List Value) : List Value :=
  items.foldl (fun kept item => if item.among kept then kept else kept ++ [item]) []

/-- The whole number that a value is. -/
def int? : Value → Option Int
  | .int n => some n
  | _ => none

/-- A set of the given items: the first of equal ones stays; whole numbers stand in ascending order.
There is none when an item is not hashable. -/
def setOf? (items : List Value) : Option Value :=
  if hashableAll items then
    let items := distinct items
    match items.mapM int? with
    | some numbers => some (.set ((sortBy (fun a b : Int => a ≤ b) numbers).map .int))
    | none => some (.set items)
  else none

end Rulebook.Value
