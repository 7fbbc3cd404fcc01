import Rulebook.Number.Numeral

/-!
Patterns: texts with places for values.  A place begins with a per cent sign and ends with the
letter of a conversion.  Between them there may be, in this order, the name of a member in round
brackets, flags, a width, a precision after a point, and a letter that means nothing.  A width or a
precision may be a star, which stands for the next value.  Two per cent signs in a row are no place
but stand for one sign.

`pieces` reads a pattern; it never fails, for a faulty place is a fault only once it is filled.
-/

namespace Rulebook.Pattern

/-- A width or a precision. -/
inductive Extent where
  | given (n : Nat)
  | next
  deriving DecidableEq, Repr

/-- The name that a place asks for, or the start of one whose bracket is never closed. -/
inductive Key where
  | named (name : String)
  | unclosed
  deriving DecidableEq, Repr

/-- A place.  One that the text ends in has no conversion. -/
structure Place where
  key : Option Key
  flags : List Char
  width : Option Extent
  precision : Option Extent
  conversion : Option Char
  deriving DecidableEq, Repr

/-- A part of a pattern. -/
inductive Piece where
  | char (c : Char)
  | place (place : Place)
  deriving DecidableEq, Repr

/-- The characters up to the bracket that closes the name, and those after it.  Brackets inside the
name are balanced; `depth` are open. -/
def closeKey : Nat → List Char → Option (List Char × List Char)
  | _, [] => none
  | 0, ')' :: rest => some ([], rest)
  | depth + 1, ')' :: rest => (closeKey depth rest).map fun (key, rest) => (')' :: key, rest)
  | depth, '(' :: rest => (closeKey (depth + 1) rest).map fun (key, rest) => ('(' :: key, rest)
  | depth, c :: rest => (closeKey depth rest).map fun (key, rest) => (c :: key, rest)

/-- Read the name of a place. -/
def readKey : List Char → Option Key × List Char
  | '(' :: rest =>
      match closeKey 0 rest with
      | some (key, rest) => (some (.named (String.ofList key)), rest)
      | none => (some .unclosed, [])
  | rest => (none, rest)

/-- Is the character a flag? -/
def isFlag (c : Char) : Bool := c == '-' || c == '+' || c == ' ' || c == '#' || c == '0'

/-- Read a star or digits; no digits are zero. -/
def readExtent : List Char → Extent × List Char
  | '*' :: rest => (.next, rest)
  | rest =>
      (.given (Text.ofDigits (Numeral.takeDigits (rest.takeWhile Char.isDigit)).1),
        rest.dropWhile Char.isDigit)

/-- Read a width. -/
def readWidth (rest : List Char) : Option Extent × List Char :=
  match rest with
  | [] => (none, [])
  | c :: _ =>
      if c = '*' ∨ c.isDigit then
        let (width, rest) := readExtent rest
        (some width, rest)
      else (none, rest)

/-- Read a precision. -/
def readPrecision : List Char → Option Extent × List Char
  | '.' :: rest =>
      let (precision, rest) := readExtent rest
      (some precision, rest)
  | rest => (none, rest)

/-- Leave out one letter of those that mean nothing. -/
def dropSize : List Char → List Char
  | 'h' :: rest => rest
  | 'l' :: rest => rest
  | 'L' :: rest => rest
  | rest => rest

/-- Read what follows a per cent sign. -/
def readPlace (rest : List Char) : Place × List Char :=
  let (key, rest) := readKey rest
  let (flags, rest) := (rest.takeWhile isFlag, rest.dropWhile isFlag)
  let (width, rest) := readWidth rest
  let (precision, rest) := readPrecision rest
  match dropSize rest with
  | [] => (⟨key, flags, width, precision, none⟩, [])
  | c :: rest => (⟨key, flags, width, precision, some c⟩, rest)

theorem length_of_closeKey {depth : Nat} {chars key rest : List Char}
    (h : closeKey depth chars = some (key, rest)) : rest.length ≤ chars.length := by
  fun_induction closeKey depth chars generalizing key rest with
  | case1 => simp at h
  | case2 => simp_all
  | case3 _ _ ih | case4 _ _ ih | case5 _ _ _ _ _ _ ih =>
      obtain ⟨⟨inner, left⟩, found, same⟩ := Option.map_eq_some_iff.mp h
      obtain ⟨-, rfl⟩ := Prod.mk.inj same
      have := ih found
      simp only [List.length_cons]
      omega

theorem length_readKey_le (chars : List Char) : (readKey chars).2.length ≤ chars.length := by
  unfold readKey
  split
  · split
    · rename_i found
      have := length_of_closeKey found
      simp only [List.length_cons]
      omega
    · simp
  · simp

theorem length_readExtent_le (chars : List Char) :
    (readExtent chars).2.length ≤ chars.length := by
  unfold readExtent
  split
  · simp
  · exact (List.dropWhile_sublist _).length_le

theorem length_readWidth_le (chars : List Char) : (readWidth chars).2.length ≤ chars.length := by
  unfold readWidth
  split
  · simp
  · split
    · exact length_readExtent_le _
    · simp

theorem length_readPrecision_le (chars : List Char) :
    (readPrecision chars).2.length ≤ chars.length := by
  unfold readPrecision
  split
  · rename_i rest
    have := length_readExtent_le rest
    simp only [List.length_cons]
    omega
  · simp

theorem length_dropSize_le (chars : List Char) : (dropSize chars).length ≤ chars.length := by
  unfold dropSize
  split <;> simp

/-- What follows a place is no longer than what the place began. -/
theorem length_readPlace_le (chars : List Char) : (readPlace chars).2.length ≤ chars.length := by
  have key := length_readKey_le chars
  have flags : ((readKey chars).2.dropWhile isFlag).length ≤ (readKey chars).2.length :=
    (List.dropWhile_sublist _).length_le
  have width := length_readWidth_le ((readKey chars).2.dropWhile isFlag)
  have precision := length_readPrecision_le (readWidth ((readKey chars).2.dropWhile isFlag)).2
  have size := length_dropSize_le
    (readPrecision (readWidth ((readKey chars).2.dropWhile isFlag)).2).2
  simp only [readPlace]
  split
  · simp
  · rename_i rest found
    simp only [found, List.length_cons] at size
    change rest.length ≤ chars.length
    omega

/-- The parts of a pattern.  Two per cent signs in a row stand for one. -/
def pieces : List Char → List Piece
  | [] => []
  | '%' :: '%' :: rest => .char '%' :: pieces rest
  | c :: rest =>
      if c = '%' then
        have := length_readPlace_le rest
        .place (readPlace rest).1 :: pieces (readPlace rest).2
      else .char c :: pieces rest
termination_by chars => chars.length
decreasing_by all_goals simp only [List.length_cons]; omega

/-- A text without a per cent sign has no places. -/
theorem pieces_of_not_mem {chars : List Char} (h : '%' ∉ chars) :
    pieces chars = chars.map .char := by
  induction chars with
  | nil => simp [pieces]
  | cons c rest ih =>
      simp only [List.mem_cons, not_or] at h
      rw [pieces, if_neg (Ne.symm h.1), ih h.2, List.map_cons]
      exact fun _ same _ => h.1 same.symm

example : pieces "a%-5.2f".toList =
    [.char 'a', .place ⟨none, ['-'], some (.given 5), some (.given 2), some 'f'⟩] := by
  decide +kernel

example : pieces "%(k)s%".toList =
    [.place ⟨some (.named "k"), [], none, none, some 's'⟩,
      .place ⟨none, [], none, none, none⟩] := by
  decide +kernel

end Rulebook.Pattern
