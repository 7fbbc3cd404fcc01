import Rulebook.Value.Basic
import Rulebook.Number.Numeral

/-!
Reading JSON text.  A number with a point or an exponent is floating point, any other is whole; the
words `NaN`, `Infinity` and `-Infinity` are numbers too.  Of two members with one name the later
value stays, in the place of the earlier.  Half of a surrogate pair stands for no character and is
read as the replacement character.
-/

namespace Rulebook.Json

/-- The white space between tokens. -/
def isSpace (c : Char) : Bool := c == ' ' || c == '\t' || c == '\n' || c == '\r'

/-- Drop white space from the front. -/
def skip (chars : List Char) : List Char := chars.dropWhile isSpace

/-- The value of a hexadecimal digit. -/
def hexDigit? (c : Char) : Option Nat :=
  if c.isDigit then some (c.toNat - '0'.toNat)
  else if 'a' ≤ c ∧ c ≤ 'f' then some (c.toNat - 'a'.toNat + 10)
  else if 'A' ≤ c ∧ c ≤ 'F' then some (c.toNat - 'A'.toNat + 10)
  else none

/-- Four hexadecimal digits. -/
def hexUnit? : List Char → Option (Nat × List Char)
  | a :: b :: c :: d :: rest => do
      let a ← hexDigit? a
      let b ← hexDigit? b
      let c ← hexDigit? c
      let d ← hexDigit? d
      some (((a * 16 + b) * 16 + c) * 16 + d, rest)
  | _ => none

/-- The character that a single-letter escape stands for. -/
def escaped? : Char → Option Char
  | '"' => some '"'
  | '\\' => some '\\'
  | '/' => some '/'
  | 'b' => some '\x08'
  | 'f' => some '\x0c'
  | 'n' => some '\n'
  | 'r' => some '\r'
  | 't' => some '\t'
  | _ => none

/-- The character after an escape `\u`, from one unit or from a pair of surrogates. -/
def unitChar? (chars : List Char) : Option (Char × List Char) := do
  let (high, rest) ← hexUnit? chars
  if 0xd800 ≤ high ∧ high < 0xdc00 then
    match rest with
    | '\\' :: 'u' :: more =>
        match hexUnit? more with
        | some (low, more) =>
            if 0xdc00 ≤ low ∧ low < 0xe000 then
              some (Char.ofNat (0x10000 + (high - 0xd800) * 0x400 + (low - 0xdc00)), more)
            else some ('\ufffd', rest)
        | none => some ('\ufffd', rest)
    | _ => some ('\ufffd', rest)
  else if 0xdc00 ≤ high ∧ high < 0xe000 then some ('\ufffd', rest)
  else some (Char.ofNat high, rest)

/-- The characters of a string up to its closing quote, in reverse, and the rest.  One unit of
`fuel` per character is enough. -/
def stringBody? (fuel : Nat) (read : List Char) (chars : List Char) :
    Option (List Char × List Char) :=
  match fuel with
  | 0 => none
  | fuel + 1 =>
      match chars with
      | [] => none
      | '"' :: rest => some (read, rest)
      | '\\' :: 'u' :: rest =>
          match unitChar? rest with
          | some (c, rest) => stringBody? fuel (c :: read) rest
          | none => none
      | '\\' :: letter :: rest =>
          match escaped? letter with
          | some c => stringBody? fuel (c :: read) rest
          | none => none
      | c :: rest => if c.toNat < 0x20 then none else stringBody? fuel (c :: read) rest

/-- A string after its opening quote. -/
def string? (chars : List Char) : Option (String × List Char) :=
  (stringBody? (chars.length + 1) [] chars).map fun (read, rest) =>
    (String.ofList read.reverse, rest)

/-- The fraction of a number: a point with digits after it. -/
def fraction : List Char → List Nat × List Char
  | '.' :: rest =>
      match Numeral.takeDigits rest with
      | ([], _) => ([], '.' :: rest)
      | found => found
  | chars => ([], chars)

/-- The exponent of a number, if there is one. -/
def exponent (chars : List Char) : Option Int × List Char :=
  match chars with
  | c :: rest =>
      if c = 'e' ∨ c = 'E' then
        let (negative, rest) := Numeral.splitSign rest
        match Numeral.takeDigits rest with
        | ([], _) => (none, chars)
        | (digits, rest) =>
            let value : Int := Text.ofDigits digits
            (some (if negative then -value else value), rest)
      else (none, chars)
  | [] => (none, chars)

/-- A number after its sign.  The whole part has no leading zero. -/
def unsigned? (negative : Bool) (chars : List Char) : Option (Value × List Char) :=
  let (whole, rest) := match chars with
    | '0' :: rest => ([0], rest)
    | chars => Numeral.takeDigits chars
  let (decimals, afterFraction) := fraction rest
  let (power, afterExponent) := exponent afterFraction
  if whole.isEmpty then none
  else if decimals.isEmpty && power.isNone then
    if Numeral.digitLimit < whole.length then none
    else
      let value : Int := Text.ofDigits whole
      some (.int (if negative then -value else value), rest)
  else
    let scale := power.getD 0 - decimals.length
    some (.float (Numeral.ofDecimal negative (whole ++ decimals) scale), afterExponent)

/-- Drop a word from the front. -/
def word? (word : List Char) (chars : List Char) : Option (List Char) :=
  match word, chars with
  | [], rest => some rest
  | w :: word, c :: chars => if w = c then word? word chars else none
  | _ :: _, [] => none

/-- A value that is no string, list or object. -/
def scalar? (chars : List Char) : Option (Value × List Char) :=
  match chars with
  | 'n' :: rest => (word? ['u', 'l', 'l'] rest).map (.null, ·)
  | 't' :: rest => (word? ['r', 'u', 'e'] rest).map (.bool true, ·)
  | 'f' :: rest => (word? ['a', 'l', 's', 'e'] rest).map (.bool false, ·)
  | 'N' :: rest => (word? ['a', 'N'] rest).map (.float .nan, ·)
  | 'I' :: rest =>
      (word? ['n', 'f', 'i', 'n', 'i', 't', 'y'] rest).map (.float (.infinite false), ·)
  | '-' :: 'I' :: rest =>
      (word? ['n', 'f', 'i', 'n', 'i', 't', 'y'] rest).map (.float (.infinite true), ·)
  | '-' :: rest => unsigned? true rest
  | chars => unsigned? false chars

mutual

/-- A value at the front of the text, and the rest. -/
def value? (fuel : Nat) (chars : List Char) : Option (Value × List Char) :=
  match fuel with
  | 0 => none
  | fuel + 1 =>
      match chars with
      | '"' :: rest => (string? rest).map fun (text, rest) => (.str text, rest)
      | '[' :: rest =>
          match skip rest with
          | ']' :: rest => some (.list [], rest)
          | rest => (items? fuel [] rest).map fun (items, rest) => (.list items, rest)
      | '\x7b' :: rest =>
          match skip rest with
          | '\x7d' :: rest => some (.object [], rest)
          | rest => (members? fuel [] rest).map fun (members, rest) => (.object members, rest)
      | chars => scalar? chars

/-- The items of a list up to its end; those read already are in reverse. -/
def items? (fuel : Nat) (read : List Value) (chars : List Char) :
    Option (List Value × List Char) :=
  match fuel with
  | 0 => none
  | fuel + 1 =>
      match value? fuel chars with
      | none => none
      | some (item, rest) =>
          match skip rest with
          | ',' :: rest => items? fuel (item :: read) (skip rest)
          | ']' :: rest => some ((item :: read).reverse, rest)
          | _ => none

/-- The members of an object up to its end; those read already are in reverse. -/
def members? (fuel : Nat) (read : List (String × Value)) (chars : List Char) :
    Option (Members × List Char) :=
  match fuel with
  | 0 => none
  | fuel + 1 =>
      match chars with
      | '"' :: rest =>
          match string? rest with
          | none => none
          | some (name, rest) =>
              match skip rest with
              | ':' :: rest =>
                  match value? fuel (skip rest) with
                  | none => none
                  | some (item, rest) =>
                      match skip rest with
                      | ',' :: rest => members? fuel ((name, item) :: read) (skip rest)
                      | '\x7d' :: rest => some (Table.ofList ((name, item) :: read).reverse, rest)
                      | _ => none
              | _ => none
      | _ => none

end

/-- The value that a JSON text spells. -/
def read? (text : String) : Option Value :=
  let chars := text.toList
  match value? (2 * chars.length + 2) (skip chars) with
  | some (value, rest) => if (skip rest).isEmpty then some value else none
  | none => none

end Rulebook.Json
