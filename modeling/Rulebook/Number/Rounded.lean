import Rulebook.Number.Shortest

/-!
The decimal text of a floating point number at a chosen precision: rounded to so many places after
the point, or to so many significant digits.  The rounding is exact, a tie goes to the even digit.
-/

namespace Rulebook.Binary64

/-- The numerator and denominator of `significand * 2 ^ exponent`. -/
def ratio (significand : Nat) (exponent : Int) : Nat × Nat :=
  if 0 ≤ exponent then (significand * Nat.pow 2 exponent.toNat, 1)
  else (significand, Nat.pow 2 (-exponent).toNat)

/-- The whole number nearest to `num / den * 10 ^ scale`. -/
def nearestAt (num den : Nat) (scale : Int) : Nat :=
  if 0 ≤ scale then nearestEven (num * Nat.pow 10 scale.toNat) den
  else nearestEven num (den * Nat.pow 10 (-scale).toNat)

/-- The number rounded to `count` significant digits. -/
def rounded (count : Nat) (significand : Nat) (exponent : Int) : Decimal :=
  if significand = 0 then { digits := 0, count, point := 1 }
  else
    let (num, den) := ratio significand exponent
    let point := decimalPoint num den
    let digits := nearestAt num den (count - point)
    if digits = Nat.pow 10 count then
      { digits := Nat.pow 10 (count - 1), count, point := point + 1 }
    else { digits, count, point }

/-- The same decimal without zeros at its end; of zero one digit stays. -/
def Decimal.stripped (d : Decimal) : Decimal :=
  if d.digits = 0 then { d with count := 1 }
  else
    let (digits, count) := dropZeros d.digits d.count
    { d with digits, count }

/-- How a number of a chosen precision is written. -/
inductive Style where
  /-- So many places after the point. -/
  | fixed
  /-- One digit, so many places after the point, and an exponent. -/
  | scientific
  /-- So many significant digits, with an exponent where the number is small or large. -/
  | general
  deriving DecidableEq, Repr

/-- Digits before an exponent; the point stays after a lone digit if the text is to be full. -/
def Layout.scientific (full : Bool) : Layout :=
  { Layout.standard with
    leastPoint := 0, greatestPoint := -1, loneSuffix := if full then "." else "" }

/-- Digits of a number with so many significant ones. -/
def Layout.general (full : Bool) (count : Nat) : Layout :=
  { Layout.standard with
    greatestPoint := count
    wholeSuffix := if full then "." else ""
    loneSuffix := if full then "." else "" }

/-- The text with so many places after the point. -/
def fixedText (full : Bool) (places significand : Nat) (exponent : Int) : String :=
  let (num, den) := ratio significand exponent
  let digits := (padLeft (places + 1) (toString (nearestAt num den places))).toList
  let (whole, fraction) := digits.splitAt (digits.length - places)
  let point := if full || !fraction.isEmpty then ['.'] else []
  String.ofList (whole ++ point ++ fraction)

/-- The text of a finite number without its sign. -/
def Style.digits (style : Style) (full : Bool) (precision significand : Nat) (exponent : Int) :
    String :=
  match style with
  | .fixed => fixedText full precision significand exponent
  | .scientific => (Layout.scientific full).digits (rounded (precision + 1) significand exponent)
  | .general =>
      let count := max precision 1
      let d := rounded count significand exponent
      (Layout.general full count).digits (if full then d else d.stripped)

/-- Is the number below zero, or the negative zero? -/
def isNegative : Binary64 → Bool
  | .nan => false
  | .infinite negative => negative
  | .finite negative _ _ => negative

/-- The text of a number without its sign.  A full text keeps its point and its zeros. -/
def Style.magnitude (style : Style) (full : Bool) (precision : Nat) : Binary64 → String
  | .nan => Layout.standard.nan
  | .infinite _ => Layout.standard.infinity
  | .finite _ significand exponent => style.digits full precision significand exponent

example : Style.fixed.magnitude false 1 (.finite false 1 (-2)) = "0.2" := by decide +kernel

example : Style.scientific.magnitude true 0 (.finite false 3 1) = "6.e+00" := by decide +kernel

example : Style.general.magnitude false 6 (.finite false 7205759403792794 (-56)) = "0.1" := by
  decide +kernel

end Rulebook.Binary64
