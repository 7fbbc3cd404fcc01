import Rulebook.Error
import Rulebook.Number.Binary64

/-!
Sums of values.  Numbers are added, truth values counting as one and zero; texts, lists and tuples
are put together.  Whole numbers are added exactly; with a floating point number on one side, the
other is rounded to one first, which fails when it is past the greatest of them.
-/

namespace Rulebook

/-- A number rounded to a floating point number. -/
def Number.toBinary64? : Number → Option Binary64
  | .int n => Binary64.ofInt? n
  | .float x => some x

/-- The sum of two numbers. -/
def Number.sum (a b : Number) : Except Error Value :=
  match a, b with
  | .int m, .int n => .ok (.int (m + n))
  | a, b =>
      match a.toBinary64?, b.toBinary64? with
      | some x, some y => .ok (.float (x.add y))
      | _, _ => .error (.misuse .overflow)

/-- The sum of two values. -/
def Value.sum (a b : Value) : Except Error Value :=
  match a, b with
  | .str s, .str t => .ok (.str (s ++ t))
  | .list xs, .list ys => .ok (.list (xs ++ ys))
  | .tuple xs, .tuple ys => .ok (.tuple (xs ++ ys))
  | a, b =>
      match a.number?, b.number? with
      | some x, some y => x.sum y
      | _, _ => .error .type

end Rulebook
