import Rulebook.Error
import Rulebook.Number.Numeral
import Rulebook.Order
import Rulebook.Table

/-!
Priorities are whole numbers from one on.  Lower ones run first.  Things with priorities are run in
batches of one priority each.
-/

namespace Rulebook

/-- A priority. -/
structure Priority where
  level : Nat
  one_le : 1 ≤ level
  deriving DecidableEq, Repr

namespace Priority

/-- The priority of what has none of its own. -/
def first : Priority := ⟨1, Nat.le_refl 1⟩

/-- A whole number as a priority. -/
def ofInt? (n : Int) : Option Priority :=
  if h : 1 ≤ n.toNat then some ⟨n.toNat, h⟩ else none

/-- A priority as data. -/
def toValue (priority : Priority) : Value := .int priority.level

/-- A whole number that must be a priority. -/
def ofInt (n : Int) : Except PriorityCause Priority :=
  match ofInt? n with
  | some priority => .ok priority
  | none => .error (.belowOne n)

/-- Read a priority: null is none; otherwise it is a whole number, a whole floating point number,
or a text that spells a whole number. -/
def ofValue (value : Value) : Except PriorityCause (Option Priority) :=
  let refused := Except.error (PriorityCause.notInteger value.literal)
  match value with
  | .null => .ok none
  | .int n => (ofInt n).map some
  | .float x =>
      match x.toInt? with
      | some n => (ofInt n).map some
      | none => refused
  | .str text =>
      match Numeral.int? (Text.trim text) with
      | some n => (ofInt n).map some
      | none => refused
  | _ => refused

end Priority

/-- Put an item at the end of the batch of its priority; the batch of a new priority comes last. -/
def collect {α : Type} (batches : Table Nat (List α)) (priority : Nat) (item : α) :
    Table Nat (List α) :=
  batches.insert priority ((batches.find? priority).getD [] ++ [item])

/-- The items in batches of one priority each, the lowest first; inside a batch they keep their
order. -/
def batchesBy {α : Type} (priority : α → Nat) (items : List α) : List (List α) :=
  let batches := items.foldl (fun batches item => collect batches (priority item) item) []
  (sortBy (fun a b => a ≤ b) batches.keys).filterMap batches.find?

example : batchesBy (·.1) [(3, 'a'), (1, 'b'), (3, 'c'), (2, 'd')] =
    [[(1, 'b')], [(2, 'd')], [(3, 'a'), (3, 'c')]] := by
  decide

end Rulebook
