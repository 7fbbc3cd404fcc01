import Rulebook.Number.Binary64
import Rulebook.Text.Blank
import Rulebook.Text.Digit

/-!
Numerals: the texts that are read as numbers.  A numeral may be padded with blanks, may use the
digits of any script, and may hold single underscores between digits.
-/

namespace Rulebook.Numeral

/-- A text with the blanks and the digits of other scripts replaced by a space and the digits of
ASCII; any other foreign character becomes one that no numeral holds. -/
def plain (text : String) : List Char :=
  text.toList.map fun c =>
    if c.toNat < 127 then c
    else if Text.isBlank c then ' '
    else match Text.digitValue? c with
      | some digit => Text.digitChar digit
      | none => '?'

/-- Take away the underscores that stand between two digits; any other underscore spoils the
numeral.  The flag says whether a digit came just before. -/
def dropUnderscores : Bool → List Char → Option (List Char)
  | _, [] => some []
  | true, '_' :: c :: rest =>
      if c.isDigit then (dropUnderscores true rest).map (c :: ·) else none
  | _, c :: rest =>
      if c = '_' then none
      else (dropUnderscores c.isDigit rest).map (c :: ·)

/-- A sign, if there is one, and the rest. -/
def splitSign : List Char → Bool × List Char
  | '-' :: rest => (true, rest)
  | '+' :: rest => (false, rest)
  | rest => (false, rest)

/-- The values of the digits at the front, and the rest. -/
def takeDigits : List Char → List Nat × List Char
  | [] => ([], [])
  | c :: rest =>
      match Text.plainDigit? c with
      | some digit =>
          let (digits, rest) := takeDigits rest
          (digit :: digits, rest)
      | none => ([], c :: rest)

/-- The most digits that a whole numeral may have. -/
def digitLimit : Nat := 4300

/-- The whole number that a text spells: a sign, then digits with single underscores. -/
def int? (text : String) : Option Int := do
  let chars ← dropUnderscores false (Text.trimBy Text.isPlainBlank (plain text))
  let (negative, chars) := splitSign chars
  let (digits, rest) := takeDigits chars
  if digits.isEmpty || !rest.isEmpty || digitLimit < digits.length then none
  else
    let value : Int := Text.ofDigits digits
    some (if negative then -value else value)

/-- The floating point number nearest to `± digits * 10 ^ exponent`. -/
def ofDecimal (negative : Bool) (digits : List Nat) (exponent : Int) : Binary64 :=
  let digits := digits.dropWhile (· == 0)
  let magnitude := (digits.length : Int) + exponent
  if digits.isEmpty then .zero negative
  else if 310 < magnitude then .infinite negative
  else if magnitude < -330 then .zero negative
  else
    let value := Text.ofDigits digits
    if 0 ≤ exponent then .ofRatio negative (value * Nat.pow 10 exponent.toNat) 1
    else .ofRatio negative value (Nat.pow 10 (-exponent).toNat)

/-- The exponent part of a numeral, which ends it. -/
def exponentPart? : List Char → Option Int
  | [] => some 0
  | c :: rest =>
      if c = 'e' ∨ c = 'E' then
        let (negative, rest) := splitSign rest
        let (digits, rest) := takeDigits rest
        if digits.isEmpty || !rest.isEmpty then none
        else
          let value : Int := Text.ofDigits digits
          some (if negative then -value else value)
      else none

/-- The number that unsigned digits with an optional point and exponent spell. -/
def decimal? (negative : Bool) (chars : List Char) : Option Binary64 := do
  let (whole, rest) := takeDigits chars
  let (fraction, rest) := match rest with
    | '.' :: rest => takeDigits rest
    | rest => ([], rest)
  if whole.isEmpty && fraction.isEmpty then none
  else
    let exponent ← exponentPart? rest
    some (ofDecimal negative (whole ++ fraction) (exponent - fraction.length))

/-- The floating point number that a text spells: a decimal, an infinity or NaN, in either case. -/
def float? (text : String) : Option Binary64 := do
  let chars ← dropUnderscores false (Text.trimBy Text.isPlainBlank (plain text))
  let (negative, chars) := splitSign chars
  let word := String.ofList (chars.map Char.toLower)
  if word = "inf" ∨ word = "infinity" then some (.infinite negative)
  else if word = "nan" then some .nan
  else decimal? negative chars

example : int? " +1_000 " = some 1000 ∧ int? "1__0" = none ∧ int? "٣" = some 3 := by
  decide +kernel

example : float? "0.1" = some (.finite false 7205759403792794 (-56)) := by decide +kernel

example : float? " -Infinity " = some (.infinite true) ∧ float? "1e" = none := by decide +kernel

end Rulebook.Numeral
