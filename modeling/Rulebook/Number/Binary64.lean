/-!
Binary floating point numbers with 53 significant bits, as exact data.  A finite number is a sign,
a whole significand and a power of two, so its value is a rational, and every operation is
"compute exactly, then round to the nearest number, a tie going to the even significand".
-/

namespace Rulebook

/-- A binary floating point number.  The finite number `finite s m e` has the value
`± m * 2 ^ e`. -/
inductive Binary64 where
  | nan
  | infinite (negative : Bool)
  | finite (negative : Bool) (significand : Nat) (exponent : Int)
  deriving DecidableEq, Repr

namespace Binary64

/-- The number of significant bits. -/
def precision : Nat := 53

/-- The least exponent of a significand. -/
def leastExponent : Int := -1074

/-- The greatest exponent of a significand. -/
def greatestExponent : Int := 971

/-- Zero with a sign. -/
def zero (negative : Bool) : Binary64 := .finite negative 0 leastExponent

/-- One. -/
def one : Binary64 := .finite false (Nat.pow 2 52) (-52)

/-- The whole number nearest to `num / den`; a tie goes to the even one. -/
def nearestEven (num den : Nat) : Nat :=
  let quotient := num / den
  let twice := 2 * (num % den)
  if twice < den then quotient
  else if twice = den then quotient + quotient % 2
  else quotient + 1

/-- The numerator and denominator of `num / den / 2 ^ exponent`. -/
def unscale (num den : Nat) (exponent : Int) : Nat × Nat :=
  if 0 ≤ exponent then (num, den * Nat.pow 2 exponent.toNat)
  else (num * Nat.pow 2 (-exponent).toNat, den)

/-- The exponent at which `num / den` has a significand of 53 bits, but at least the least one. -/
def exponentFor (num den : Nat) : Int :=
  let guess : Int := (num.log2 : Int) - (den.log2 : Int) - 52
  let (n, d) := unscale num den guess
  max leastExponent (if n < Nat.pow 2 52 * d then guess - 1 else guess)

/-- The number nearest to `± num / den`, a tie going to the even significand; a value past the
greatest number rounds to infinity. -/
def ofRatio (negative : Bool) (num den : Nat) : Binary64 :=
  if num = 0 then zero negative
  else
    let exponent := exponentFor num den
    let (n, d) := unscale num den exponent
    let significand := nearestEven n d
    let (significand, exponent) :=
      if significand = Nat.pow 2 53 then (Nat.pow 2 52, exponent + 1) else (significand, exponent)
    if greatestExponent < exponent then .infinite negative
    else .finite negative significand exponent

/-- The number nearest to a whole number, unless that is past the greatest number. -/
def ofInt? (n : Int) : Option Binary64 :=
  match ofRatio (n < 0) n.natAbs 1 with
  | .finite negative m e => some (.finite negative m e)
  | _ => none

/-- The exact value of a finite number. -/
def toRat? : Binary64 → Option Rat
  | .finite negative m e =>
      let signed : Int := if negative then -(m : Int) else m
      some (if 0 ≤ e then ((signed * Nat.pow 2 e.toNat : Int) : Rat)
        else mkRat signed (Nat.pow 2 (-e).toNat))
  | _ => none

/-- Is the number neither infinite nor NaN? -/
def isFinite : Binary64 → Bool
  | .finite .. => true
  | _ => false

/-- Is the number zero, with either sign? -/
def isZero : Binary64 → Bool
  | .finite _ m _ => m == 0
  | _ => false

/-- The number itself when it is whole. -/
def toInt? (x : Binary64) : Option Int :=
  match x.toRat? with
  | some r => if r.den = 1 then some r.num else none
  | none => none

/-- The sum, rounded.  Opposite infinities have none, and a zero sum is negative only when both
addends are negative zeros. -/
def add (x y : Binary64) : Binary64 :=
  match x, y with
  | .nan, _ => .nan
  | _, .nan => .nan
  | .infinite s, .infinite t => if s = t then .infinite s else .nan
  | .infinite s, _ => .infinite s
  | _, .infinite t => .infinite t
  | .finite s _ _, .finite t _ _ =>
      match x.toRat?, y.toRat? with
      | some a, some b =>
          let sum := a + b
          if sum = 0 then zero (s && t && x.isZero && y.isZero)
          else ofRatio (sum < 0) sum.num.natAbs sum.den
      | _, _ => .nan

end Binary64

/-- A number is whole or floating point. -/
inductive Number where
  | int (n : Int)
  | float (x : Binary64)
  deriving DecidableEq, Repr

namespace Number

/-- Where a number lies on the line of the rationals closed by the two infinities. -/
inductive Place where
  | bottom
  | at (value : Rat)
  | top
  deriving DecidableEq

/-- Strictly below. -/
def Place.lt : Place → Place → Bool
  | .bottom, .bottom => false
  | .bottom, _ => true
  | .at a, .at b => a < b
  | .at _, .top => true
  | _, _ => false

/-- The place of a number; NaN has none.  No rounding takes part in it. -/
def place? : Number → Option Place
  | .int n => some (.at n)
  | .float .nan => none
  | .float (.infinite negative) => some (if negative then .bottom else .top)
  | .float x => x.toRat?.map .at

/-- Equal as exact values; NaN equals nothing. -/
def equal (a b : Number) : Bool :=
  match a.place?, b.place? with
  | some p, some q => p == q
  | _, _ => false

/-- Less as exact values; NaN is not ordered. -/
def less (a b : Number) : Bool :=
  match a.place?, b.place? with
  | some p, some q => p.lt q
  | _, _ => false

/-- Less or equal as exact values; NaN is not ordered. -/
def lessEqual (a b : Number) : Bool :=
  a.less b || a.equal b

end Number

end Rulebook
