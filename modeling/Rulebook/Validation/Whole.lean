import Rulebook.Error
import Rulebook.Number.Numeral

/-!
Whole numbers written as the text of a field.  The plain spelling is a minus where the number is
negative, then a zero alone or digits that do not start with one.  A text that is not spelled
plainly is tidied once and read again: blanks at its ends, a plus, leading zeros, a fraction of
zeros and single underscores are taken away.
-/

namespace Rulebook.Validation

/-- Text that pads a numeral inside a field. -/
def isPadding (c : Char) : Bool :=
  Text.isBlank c && !('\u001c' ≤ c && c ≤ '\u001f')

/-- Read the plain spelling.  The sign counts towards the length that a numeral may have, and a
numeral that is too long is told before anything that follows it. -/
def plainInt (text : List Char) : Except FieldCause Int :=
  let (negative, unsigned) := match text with
    | '-' :: rest => (true, rest)
    | rest => (false, rest)
  match Numeral.takeDigits unsigned with
  | ([], _) => .error .unreadableInt
  | ([0], []) => .ok 0
  | (0 :: _, _) => .error .unreadableInt
  | (digits, rest) =>
      if Numeral.digitLimit < digits.length + (if negative then 1 else 0) then .error .oversizedInt
      else if rest.isEmpty then
        let value : Int := Text.ofDigits digits
        .ok (if negative then -value else value)
      else .error .unreadableInt

/-- The characters that end a row of leading zeros and stay: a digit above zero, or a minus. -/
def startsNumber (c : Char) : Bool :=
  ('1' ≤ c && c ≤ '9') || c == '-'

/-- What stays of a text after a leading zero.  More zeros, and any underscores between them, go;
the character before a point stays, as does the last one of a text that ends here. -/
def afterZero (last : Char) : List Char → Option (List Char)
  | [] => some [last]
  | c :: rest =>
      if c == '0' || c == '_' then afterZero c rest
      else if c == '.' then some (last :: c :: rest)
      else if startsNumber c then some (c :: rest)
      else none

/-- A text without its leading zeros; nothing if it does not start like a number. -/
def dropZeros : List Char → Option (List Char)
  | [] => none
  | c :: rest =>
      if c == '0' then afterZero c rest
      else if startsNumber c then some (c :: rest)
      else none

/-- A text without a fraction that consists of zeros. -/
def dropFraction (text : List Char) : List Char :=
  match text.dropWhile (· != '.') with
  | _ :: digit :: digits =>
      if (digit :: digits).all (· == '0') then text.takeWhile (· != '.') else text
  | _ => text

/-- Whether the underscores of a text stand alone and inside it.  The flag says whether one may
come next. -/
def groupsWell : Bool → List Char → Bool
  | inside, [] => inside
  | inside, c :: rest => if c == '_' then inside && groupsWell false rest else groupsWell true rest

/-- A text without its underscores, if they stand alone and inside it. -/
def joinGroups (text : List Char) : List Char :=
  if groupsWell false text then text.filter (· != '_') else text

/-- The tidied text: the plain spelling of the number, if there is one. -/
def tidy (text : List Char) : Option (List Char) :=
  match Text.trimBy isPadding text with
  | '-' :: rest => (dropZeros rest).map fun digits => '-' :: joinGroups (dropFraction digits)
  | '+' :: '-' :: _ => none
  | '+' :: rest => (dropZeros rest).map fun digits => joinGroups (dropFraction digits)
  | rest => (dropZeros rest).map fun digits => joinGroups (dropFraction digits)

/-- The whole number that a text spells. -/
def intOfText (text : String) : Except FieldCause Int :=
  match plainInt text.toList with
  | .error .unreadableInt =>
      match tidy text.toList with
      | some tidied => plainInt tidied
      | none => .error .unreadableInt
  | reading => reading

theorem joinGroups_of_not_mem {text : List Char} (h : '_' ∉ text) : joinGroups text = text := by
  simp only [joinGroups]
  split
  · exact List.filter_eq_self.mpr fun c hc => by
      simpa using fun same : c = '_' => h (same ▸ hc)
  · rfl

/-- A number spelled plainly is read without tidying. -/
theorem intOfText_of_plainInt {text : String} {n : Int} (h : plainInt text.toList = .ok n) :
    intOfText text = .ok n := by
  simp [intOfText, h]

example : tidy " +00_7.00 ".toList = some ['7'] ∧ tidy "-0__1".toList = some ['-', '1'] := by
  decide +kernel

example : tidy "+-1".toList = none ∧ tidy "1__0".toList = some ['1', '_', '_', '0'] := by
  decide +kernel

example : tidy "0-4".toList = some ['-', '4'] ∧ tidy "3.".toList = some ['3', '.'] := by
  decide +kernel

end Rulebook.Validation
