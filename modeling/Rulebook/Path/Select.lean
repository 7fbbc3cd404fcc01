import Rulebook.Path.Basic

/-!
The values that a path selects.
-/

namespace Rulebook.Path

/-- The items of an array or the members of an object. -/
def children : Value → List Value
  | .list items => items
  | .tuple items => items
  | .object members => members.map (·.2)
  | _ => []

mutual

/-- A value and everything below it: first the value, then what lies below each of its children in
order.  Tuples are not entered. -/
def walk : Value → List Value
  | .list items => .list items :: walkItems items
  | .object members => .object members :: walkMembers members
  | value => [value]

/-- The items and everything below them. -/
def walkItems : List Value → List Value
  | [] => []
  | item :: rest => walk item ++ walkItems rest

/-- The members and everything below them. -/
def walkMembers : List (String × Value) → List Value
  | [] => []
  | (_, value) :: rest => walk value ++ walkMembers rest

end

/-- The item at a place, a negative one counted from the end. -/
def itemAt? (items : List Value) (place : Int) : Option Value :=
  if 0 ≤ place then items[place.toNat]?
  else
    let place := place + items.length
    if 0 ≤ place then items[place.toNat]? else none

/-- A bound of a slice, counted from the end when negative and kept between two limits. -/
def clampBound (length : Nat) (low high bound : Int) : Int :=
  let bound := if bound < 0 then bound + length else bound
  max low (min high bound)

/-- The places `start`, `start + stride`, … before `stop`, at most `fuel` of them. -/
def places (stop stride : Int) (fuel : Nat) (start : Int) : List Int :=
  match fuel with
  | 0 => []
  | fuel + 1 =>
      if (0 < stride ∧ start < stop) ∨ (stride < 0 ∧ stop < start) then
        start :: places stop stride fuel (start + stride)
      else []

/-- The places that a slice selects among `length` items; a stride of zero selects none. -/
def Slice.places (bounds : Slice) (length : Nat) : List Int :=
  let stride := bounds.stride.getD 1
  if stride = 0 then []
  else if 0 < stride then
    let limit (bound : Int) := clampBound length 0 length bound
    let start := (bounds.start.map limit).getD 0
    let stop := (bounds.stop.map limit).getD length
    Path.places stop stride length start
  else
    let limit (bound : Int) := clampBound length (-1) (length - 1) bound
    let start := (bounds.start.map limit).getD (length - 1)
    let stop := (bounds.stop.map limit).getD (-1)
    Path.places stop stride length start

/-- What a pick selects from a value. -/
def Pick.from (pick : Pick) (value : Value) : List Value :=
  match pick with
  | .names wanted =>
      match value with
      | .object members => wanted.filterMap fun name => Table.find? members name
      | _ => []
  | .all => children value
  | .indices wanted =>
      match value.array? with
      | some items => wanted.filterMap (itemAt? items)
      | none => []
  | .slice bounds =>
      match value.array? with
      | some items => (bounds.places items.length).filterMap (itemAt? items)
      | none => []

/-- What a move selects from a value. -/
def Move.from (move : Move) (value : Value) : List Value :=
  match move with
  | .child pick => pick.from value
  | .descend pick => (walk value).flatMap pick.from

/-- What moves one after the other select from a value. -/
def follow (moves : List Move) (value : Value) : List Value :=
  moves.foldl (fun reached move => reached.flatMap move.from) [value]

/-- Equality inside a filter: truth values are no numbers. -/
def sameValue : Value → Value → Bool
  | .bool a, .bool b => a == b
  | .bool _, _ => false
  | _, .bool _ => false
  | a, b => a == b

/-- The order of two values inside a filter: two numbers or two texts are ordered. -/
def below? : Value → Value → Option Bool
  | .str a, .str b => some (a < b)
  | .bool _, _ => none
  | _, .bool _ => none
  | a, b =>
      match a.number?, b.number? with
      | some x, some y => some (x.less y)
      | _, _ => none

/-- Does the relation hold?  Values that are not ordered can only be equal or unequal. -/
def Relation.holds (relation : Relation) (a b : Value) : Bool :=
  match relation with
  | .equal => sameValue a b
  | .unequal => !sameValue a b
  | .less => (below? a b).getD false
  | .greater => (below? b a).getD false
  | .lessEqual => (below? a b).getD false || sameValue a b
  | .greaterEqual => (below? b a).getD false || sameValue a b

/-- Does an item pass the filter?  Where there is nothing to compare, only "unequal" holds. -/
def Test.passes (test : Test) (item : Value) : Bool :=
  match test with
  | .present moves => !(follow moves item).isEmpty
  | .compare moves relation constant =>
      match follow moves item with
      | [] => relation == .unequal
      | reached => reached.any fun value => relation.holds value constant
  | .both left right => left.passes item && right.passes item
  | .either left right => left.passes item || right.passes item

/-- The items of a list or the members of an object that pass a filter. -/
def filtered (test : Test) (value : Value) : List Value :=
  match value with
  | .tuple _ => []
  | value => (children value).filter test.passes

/-- What a step selects from a value. -/
def Step.from (step : Step) (value : Value) : List Value :=
  match step with
  | .move m => m.from value
  | .filter test => filtered test value
  | .descendFilter test => (walk value).flatMap (filtered test)

/-- All values that a path selects, in order. -/
def selectAll (path : Path) (value : Value) : List Value :=
  path.foldl (fun reached step => reached.flatMap step.from) [value]

/-- The value at a path: null when nothing is selected, the one value selected, or the list of
several. -/
def select (path : Path) (value : Value) : Value :=
  match selectAll path value with
  | [] => .null
  | [found] => found
  | found => .list found

example : (Slice.mk none none (some (-2))).places 5 = [4, 2, 0] := by decide +kernel

end Rulebook.Path
