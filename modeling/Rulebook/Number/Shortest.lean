import Rulebook.Number.Binary64

/-!
The decimal text of a floating point number: the fewest significant digits that no other number is
nearer to, and of those the digits nearest to the number itself.

`shortest` finds the digits by exact arithmetic on the interval of rationals that round to the
number; a `Layout` says how digits are set out as text.
-/

namespace Rulebook

namespace Binary64

/-- Decimal digits with a scale: the value is `0.d₁d₂…` times `10 ^ point`, where the digits are
those of `digits`. -/
structure Decimal where
  digits : Nat
  count : Nat
  point : Int
  deriving DecidableEq, Repr

/-- The interval of positive rationals that round to a number, as numerators over one denominator,
with its value; the ends belong to it when `closed`. -/
structure Interval where
  low : Nat
  value : Nat
  high : Nat
  den : Nat
  closed : Bool

/-- The rationals that round to `significand * 2 ^ exponent`.  Below a power of two the neighbour
is only half as far away. -/
def interval (significand : Nat) (exponent : Int) : Interval :=
  let below := if significand = Nat.pow 2 52 ∧ leastExponent < exponent then 1 else 2
  let (scale, den) : Nat × Nat :=
    if 2 ≤ exponent then (Nat.pow 2 (exponent - 2).toNat, 1)
    else (1, Nat.pow 2 (2 - exponent).toNat)
  { low := (4 * significand - below) * scale
    value := 4 * significand * scale
    high := (4 * significand + 2) * scale
    den
    closed := significand % 2 == 0 }

/-- Does `num / den` lie in the interval? -/
def Interval.has (i : Interval) (num den : Nat) : Bool :=
  let n := num * i.den
  if i.closed then i.low * den ≤ n && n ≤ i.high * den else i.low * den < n && n < i.high * den

/-- The power of ten just above `num / den`: the `p` with `10 ^ (p - 1) ≤ num / den < 10 ^ p`. -/
def decimalPoint (num den : Nat) : Int :=
  let bits : Int := (num.log2 : Int) - (den.log2 : Int)
  let guess : Int := bits * 30103 / 100000
  let reaches (p : Int) : Bool :=
    if 0 ≤ p then den * Nat.pow 10 p.toNat ≤ num else den ≤ num * Nat.pow 10 (-p).toNat
  if reaches (guess + 1) then guess + 2
  else if reaches guess then guess + 1
  else if reaches (guess - 1) then guess
  else guess - 1

/-- The neighbour of the value with `count` digits that lies in the interval, the nearer of two and
the even one of two equally near. -/
def Interval.withDigits (i : Interval) (point : Int) (count : Nat) : Option Nat :=
  let step : Int := point - count
  let (num, den) : Nat × Nat :=
    if 0 ≤ step then (i.value, i.den * Nat.pow 10 step.toNat)
    else (i.value * Nat.pow 10 (-step).toNat, i.den)
  let inside (d : Nat) : Bool :=
    if 0 ≤ step then i.has (d * Nat.pow 10 step.toNat) 1
    else i.has d (Nat.pow 10 (-step).toNat)
  let below := num / den
  let above := below + 1
  if inside below && inside above then some (nearestEven num den)
  else if inside below then some below
  else if inside above then some above
  else none

/-- Drop the zeros at the end of `count` digits; gives the digits left and their number. -/
def dropZeros (digits : Nat) : Nat → Nat × Nat
  | 0 => (digits, 0)
  | count + 1 =>
      if digits % 10 = 0 ∧ digits ≠ 0 then dropZeros (digits / 10) count else (digits, count + 1)

/-- The shortest digits that read back as `significand * 2 ^ exponent`, a positive number. -/
def shortest (significand : Nat) (exponent : Int) : Decimal :=
  let i := interval significand exponent
  let point := decimalPoint i.value i.den
  let found := (List.range 17).findSome? fun k =>
    (i.withDigits point (k + 1)).map fun digits => (digits, k + 1)
  match found with
  | some (digits, count) =>
      if digits = Nat.pow 10 count then { digits := 1, count := 1, point := point + 1 }
      else
        let (digits, count) := dropZeros digits count
        { digits, count, point }
  | none => { digits := 0, count := 1, point := 1 }

/-- How digits are set out as text. -/
structure Layout where
  /-- The least decimal point position that is written without an exponent. -/
  leastPoint : Int
  /-- The greatest such position. -/
  greatestPoint : Int
  /-- What follows a whole number written without an exponent. -/
  wholeSuffix : String
  /-- What follows a digit that stands alone before an exponent. -/
  loneSuffix : String
  /-- The least number of digits of an exponent. -/
  exponentDigits : Nat
  nan : String
  infinity : String

/-- Positions from `0.0001` up to sixteen whole digits are written out; a whole number keeps `.0`;
an exponent has a sign and at least two digits. -/
def Layout.standard : Layout where
  leastPoint := -3
  greatestPoint := 16
  wholeSuffix := ".0"
  loneSuffix := ""
  exponentDigits := 2
  nan := "nan"
  infinity := "inf"

/-- The standard layout with the words that stand for numbers in JSON text. -/
def Layout.json : Layout :=
  { Layout.standard with nan := "NaN", infinity := "Infinity" }

/-- A text of zeros. -/
def zeros (count : Nat) : String := String.ofList (List.replicate count '0')

/-- Fill a text up with zeros from the left. -/
def padLeft (width : Nat) (text : String) : String := zeros (width - text.length) ++ text

/-- Set out positive digits. -/
def Layout.digits (layout : Layout) (d : Decimal) : String :=
  let text := padLeft d.count (toString d.digits)
  if d.point < layout.leastPoint ∨ layout.greatestPoint < d.point then
    let exponent := d.point - 1
    let sign := if exponent < 0 then "-" else "+"
    let head := String.ofList (text.toList.take 1)
    let tail := String.ofList (text.toList.drop 1)
    let tail := if tail.isEmpty then layout.loneSuffix else "." ++ tail
    head ++ tail ++ "e" ++ sign ++ padLeft layout.exponentDigits (toString exponent.natAbs)
  else if d.point ≤ 0 then "0." ++ zeros (-d.point).toNat ++ text
  else
    let whole := d.point.toNat
    if d.count ≤ whole then text ++ zeros (whole - d.count) ++ layout.wholeSuffix
    else
      String.ofList (text.toList.take whole) ++ "." ++ String.ofList (text.toList.drop whole)

/-- The text of a number. -/
def Layout.render (layout : Layout) : Binary64 → String
  | .nan => layout.nan
  | .infinite negative => (if negative then "-" else "") ++ layout.infinity
  | .finite negative significand exponent =>
      let text :=
        if significand = 0 then "0" ++ layout.wholeSuffix
        else layout.digits (shortest significand exponent)
      (if negative then "-" else "") ++ text

/-- The text of a number in the standard layout. -/
def toText (x : Binary64) : String := Layout.standard.render x

example : shortest (Nat.pow 2 52) (-52) = ⟨1, 1, 1⟩ := by decide +kernel

example : shortest 1 leastExponent = ⟨5, 1, -323⟩ := by decide +kernel

example : (finite false 7205759403792794 (-56)).toText = "0.1" ∧ (zero true).toText = "-0.0" := by
  decide +kernel

end Binary64

end Rulebook
