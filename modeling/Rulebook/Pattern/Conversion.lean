import Rulebook.Error
import Rulebook.Number.Rounded
import Rulebook.Value.Sum

/-!
How a value is written into a place of a pattern.  The conversion turns it into a text or into a
number with its sign apart; flags and a width then say how that is set out.
-/

namespace Rulebook.Pattern

/-- The whole number that a value is; truth values count as one and zero. -/
def wholeOf? : Value → Option Int
  | .bool b => some (if b then 1 else 0)
  | .int n => some n
  | _ => none

/-- A value as it stands in a place: a text, or a number with its sign and the mark of its base
apart from its digits. -/
inductive Shown where
  | text (text : String)
  | number (negative : Bool) (base digits : String)
  deriving DecidableEq, Repr

/-- A text with only the characters of ASCII; any other is escaped. -/
def ascii (text : String) : String :=
  String.join (text.toList.map fun c =>
    if c.toNat < 0x80 then c.toString
    else if c.toNat < 0x100 then "\\x" ++ Text.hex 2 c.toNat
    else if c.toNat < 0x10000 then "\\u" ++ Text.hex 4 c.toNat
    else "\\U" ++ Text.hex 8 c.toNat)

/-- A text in capitals, as far as numerals need them. -/
def capitals (text : String) : String := String.ofList (text.toList.map Char.toUpper)

/-- A text, cut to the precision. -/
def showText (precision : Option Nat) (text : String) : Shown :=
  .text (match precision with
    | some n => String.ofList (text.toList.take n)
    | none => text)

/-- The digits of a number to a base, filled up with zeros to the precision. -/
def digitsOf (base : Nat) (precision : Option Nat) (n : Nat) : String :=
  Binary64.padLeft (precision.getD 1) (String.ofList (Nat.toDigits base n))

/-- The whole number that a value is, a floating point number without its fraction. -/
def truncated (value : Value) : Except Error Int :=
  match value, wholeOf? value with
  | _, some n => .ok n
  | .float x, none =>
      match x, x.toRat? with
      | _, some r => .ok (Int.tdiv r.num r.den)
      | .nan, none => .error (.misuse .value)
      | _, none => .error (.misuse .overflow)
  | _, none => .error .type

/-- The whole number that a value is. -/
def exactWhole (value : Value) : Except Error Int :=
  match wholeOf? value with
  | some n => .ok n
  | none => .error .type

/-- The floating point number that a value is. -/
def floating (value : Value) : Except Error Binary64 :=
  match value.number? with
  | none => .error .type
  | some number =>
      match number.toBinary64? with
      | some x => .ok x
      | none => .error (.misuse .overflow)

/-- A whole number with its sign apart. -/
def showWhole (base : String) (radix : Nat) (precision : Option Nat) (n : Int) : Shown :=
  .number (n < 0) base (digitsOf radix precision n.natAbs)

/-- A floating point number with its sign apart; six is the precision that is not given. -/
def showFloating (style : Binary64.Style) (full : Bool) (precision : Option Nat)
    (x : Binary64) : Shown :=
  .number x.isNegative "" (style.magnitude full (precision.getD 6) x)

/-- Write the digits and the mark of the base in capitals. -/
def Shown.capitalized : Shown → Shown
  | .number negative base digits => .number negative (capitals base) (capitals digits)
  | shown => shown

/-- The greatest code point. -/
def lastCode : Nat := 0x10FFFF

/-- The character that a value is, or that is the value's code point. -/
def character (value : Value) : Except Error String :=
  match value, wholeOf? value with
  | .str text, _ => if text.length = 1 then .ok text else .error .type
  | _, none => .error .type
  | _, some n =>
      if n < 0 ∨ (lastCode : Int) < n then .error (.misuse .overflow)
      else .ok (Char.ofNat n.toNat).toString

/-- Convert a value.  A full conversion shows the base of a whole number, and keeps the point and
the zeros of a floating point number. -/
def convert (conversion : Char) (full : Bool) (precision : Option Nat) (value : Value) :
    Except Error Shown :=
  match conversion with
  | 's' => .ok (showText precision value.display)
  | 'r' => .ok (showText precision value.literal)
  | 'a' => .ok (showText precision (ascii value.literal))
  | 'c' => (character value).map .text
  | 'd' => (truncated value).map (showWhole "" 10 precision)
  | 'i' => (truncated value).map (showWhole "" 10 precision)
  | 'u' => (truncated value).map (showWhole "" 10 precision)
  | 'o' => (exactWhole value).map (showWhole (if full then "0o" else "") 8 precision)
  | 'x' => (exactWhole value).map (showWhole (if full then "0x" else "") 16 precision)
  | 'X' => (exactWhole value).map fun n =>
      (showWhole (if full then "0x" else "") 16 precision n).capitalized
  | 'f' => (floating value).map (showFloating .fixed full precision)
  | 'e' => (floating value).map (showFloating .scientific full precision)
  | 'g' => (floating value).map (showFloating .general full precision)
  | 'F' => (floating value).map fun x => (showFloating .fixed full precision x).capitalized
  | 'E' => (floating value).map fun x => (showFloating .scientific full precision x).capitalized
  | 'G' => (floating value).map fun x => (showFloating .general full precision x).capitalized
  | _ => .error (.misuse .value)

/-- The sign of a number: a minus, or the one that the flags ask for. -/
def signText (flags : List Char) (negative : Bool) : String :=
  if negative then "-"
  else if flags.contains '+' then "+"
  else if flags.contains ' ' then " "
  else ""

/-- Set a value out in its width: on the left if the flags say so, and a number else after zeros if
they say that. -/
def Shown.setOut (flags : List Char) (width : Nat) (shown : Shown) : String :=
  let blanks (line : String) : String :=
    String.ofList (List.replicate (width - line.length) ' ')
  let plain (line : String) : String :=
    if flags.contains '-' then line ++ blanks line else blanks line ++ line
  match shown with
  | .text line => plain line
  | .number negative base digits =>
      let sign := signText flags negative
      if flags.contains '0' && !flags.contains '-' then
        sign ++ base ++ Binary64.padLeft (width - sign.length - base.length) digits
      else plain (sign ++ base ++ digits)

example : (convert 'd' false (some 3) (.int (-7))).toOption.map (Shown.setOut ['0'] 6) =
    some "-00007" := by decide +kernel

example : (convert 'X' true none (.int 255)).toOption.map (Shown.setOut ['-'] 6) =
    some "0XFF  " := by decide +kernel

end Rulebook.Pattern
