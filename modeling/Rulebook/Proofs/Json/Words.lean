import Std.Data.String.ToInt
import Rulebook.Proofs.Json.Alike
import Rulebook.Proofs.Text.Prefix

/-!
Words: the texts of null, of the truth values and of numbers.

Nothing that sets off the parts of a text stands in a word (`Wording.isMark_word`), so a word ends
where the part does.  The digits and the minus of a whole number tell it apart from a floating point
number, in which there is always something else (`isWholeText_int`, `isFloatText_render`).  So words
of one text are written for one value, but for numbers that a layout does not tell apart
(`Wording.word_cases`).
-/

namespace Rulebook

/-! What is so of the characters of a text is found out from the text, not from all characters that
there are. -/

instance (priority := high) decidableForallMem (text : List Char) (P : Char → Prop)
    [DecidablePred P] : Decidable (∀ c ∈ text, P c) :=
  List.decidableBAll P text

instance (priority := high) decidableExistsMem (text : List Char) (P : Char → Prop)
    [DecidablePred P] : Decidable (∃ c ∈ text, P c) :=
  List.decidableBEx P text

namespace Binary64

/-- Does the character stand in the texts of whole numbers? -/
def isNumeral (c : Char) : Bool := c.isDigit || c == '-'

/-- Does the character stand in the texts of numbers? -/
def isNumberChar (c : Char) : Bool := isNumeral c || "+.eNaInfity".toList.contains c

theorem isNumberChar_of_isDigit {c : Char} (h : c.isDigit = true) : isNumberChar c = true := by
  simp [isNumberChar, isNumeral, h]

theorem isDigit_zeros (count : Nat) : ∀ c ∈ (zeros count).toList, c.isDigit = true := by
  intro c hc
  rw [zeros, String.toList_ofList] at hc
  rw [List.eq_of_mem_replicate hc]
  rfl

theorem isDigit_toString (n : Nat) : ∀ c ∈ (toString n).toList, c.isDigit = true := by
  intro c hc
  rw [Nat.toString_eq_ofList_toDigits, String.toList_ofList] at hc
  exact Nat.isDigit_of_mem_toDigits (by decide) (by decide) hc

theorem isDigit_padLeft (width n : Nat) :
    ∀ c ∈ (padLeft width (toString n)).toList, c.isDigit = true := by
  intro c hc
  rw [padLeft, String.toList_append, List.mem_append] at hc
  rcases hc with hzeros | hdigits
  · exact isDigit_zeros _ c hzeros
  · exact isDigit_toString n c hdigits

/-- Every character of the text belongs to a number, and there is one that does not belong to a
whole number. -/
def IsFloatText (text : List Char) : Prop :=
  (∀ c ∈ text, isNumberChar c = true) ∧ ∃ c ∈ text, isNumeral c = false

instance (text : List Char) : Decidable (IsFloatText text) :=
  inferInstanceAs
    (Decidable ((∀ c ∈ text, isNumberChar c = true) ∧ ∃ c ∈ text, isNumeral c = false))

theorem IsFloatText.prepend {text before : List Char} (h : IsFloatText text)
    (hbefore : ∀ c ∈ before, isNumberChar c = true) : IsFloatText (before ++ text) := by
  obtain ⟨hall, c, hc, hnot⟩ := h
  refine ⟨fun d hd => ?_, c, List.mem_append_right _ hc, hnot⟩
  exact (List.mem_append.1 hd).elim (hbefore d) (hall d)

theorem IsFloatText.append {text behind : List Char} (h : IsFloatText text)
    (hbehind : ∀ c ∈ behind, isNumberChar c = true) : IsFloatText (text ++ behind) := by
  obtain ⟨hall, c, hc, hnot⟩ := h
  refine ⟨fun d hd => ?_, c, List.mem_append_left _ hc, hnot⟩
  exact (List.mem_append.1 hd).elim (hall d) (hbehind d)

theorem isFloatText_digits (d : Decimal) : IsFloatText (Layout.json.digits d).toList := by
  have htext : ∀ c ∈ (padLeft d.count (toString d.digits)).toList, isNumberChar c = true :=
    fun c hc => isNumberChar_of_isDigit (isDigit_padLeft _ _ c hc)
  have hzeros : ∀ count, ∀ c ∈ (zeros count).toList, isNumberChar c = true :=
    fun count c hc => isNumberChar_of_isDigit (isDigit_zeros count c hc)
  have hpoint : IsFloatText ".".toList := by decide
  unfold Layout.digits
  dsimp only
  split
  · have hexponent : IsFloatText "e".toList := by decide
    have hsign : ∀ negative : Prop, [Decidable negative] →
        ∀ c ∈ (if negative then "-" else "+").toList, isNumberChar c = true := by
      intro negative _
      split <;> decide
    simp only [String.toList_append, String.toList_ofList]
    refine ((hexponent.prepend fun c hc => ?_).append fun c hc => ?_).append fun c hc => ?_
    · rcases List.mem_append.1 hc with hhead | htail
      · exact htext c (List.mem_of_mem_take hhead)
      · split at htail
        · cases htail
        · simp only [String.toList_append, String.toList_ofList] at htail
          exact (List.mem_append.1 htail).elim (hpoint.1 c) fun hdrop =>
            htext c (List.mem_of_mem_drop hdrop)
    · exact hsign _ c hc
    · exact isNumberChar_of_isDigit (isDigit_padLeft _ _ c hc)
  · split
    · have hless : IsFloatText "0.".toList := by decide
      simp only [String.toList_append]
      exact (hless.append (hzeros _)).append htext
    · split
      · have hwhole : IsFloatText ".0".toList := by decide
        simp only [String.toList_append]
        refine hwhole.prepend fun c hc => ?_
        exact (List.mem_append.1 hc).elim (htext c) (hzeros _ c)
      · simp only [String.toList_append, String.toList_ofList]
        refine (hpoint.prepend fun c hc => ?_).append fun c hc => ?_
        · exact htext c (List.mem_of_mem_take hc)
        · exact htext c (List.mem_of_mem_drop hc)

/-- One of the two layouts in which a number is written with all of its digits. -/
def Layout.IsFull (layout : Layout) : Prop := layout = .standard ∨ layout = .json

/-- The digits are written the same in both layouts. -/
theorem Layout.IsFull.digits {layout : Layout} (h : layout.IsFull) (d : Decimal) :
    layout.digits d = Layout.json.digits d := by
  rcases h with rfl | rfl <;> rfl

theorem isFloatText_render {layout : Layout} (hlayout : layout.IsFull) (x : Binary64) :
    IsFloatText (layout.render x).toList := by
  have hwords : IsFloatText layout.nan.toList ∧ IsFloatText layout.infinity.toList ∧
      IsFloatText ("0" ++ layout.wholeSuffix).toList := by
    rcases hlayout with rfl | rfl <;> decide
  have hsign : ∀ (negative : Bool), ∀ c ∈ (if negative then "-" else "").toList,
      isNumberChar c = true := by decide
  cases x with
  | nan => exact hwords.1
  | infinite negative =>
      rw [Layout.render, String.toList_append]
      exact hwords.2.1.prepend (hsign negative)
  | finite negative significand exponent =>
      rw [Layout.render, String.toList_append]
      refine IsFloatText.prepend ?_ (hsign negative)
      split
      · exact hwords.2.2
      · rw [hlayout.digits]
        exact isFloatText_digits _

end Binary64

namespace Json

open Binary64

/-! ### Where words end -/

/-- Does the character set off the parts of a text? -/
def isMark (c : Char) : Bool := ",:\"'[]()\x7b\x7d".toList.contains c

/-- What follows a part of a JSON text: nothing, or a comma or a closing bracket first. -/
def Ends (rest : List Char) : Prop :=
  ∀ c ∈ rest.head?, c = ',' ∨ c = ']' ∨ c = '\x7d'

theorem Ends.isMark {rest : List Char} (h : Ends rest) : ∀ c ∈ rest.head?, isMark c = true := by
  intro c hc
  rcases h c hc with rfl | rfl | rfl <;> rfl

theorem isMark_of_isNumberChar {c : Char} (h : isNumberChar c = true) : isMark c = false := by
  rw [← Bool.not_eq_true]
  intro hmark
  have hmarks : ∀ c ∈ ",:\"'[]()\x7b\x7d".toList, isNumberChar c = false := by decide
  rw [hmarks c (List.contains_iff_mem.1 hmark)] at h
  cases h

/-! ### The words -/

/-- Is the value written as a word? -/
def isWord : Value → Bool
  | .null | .bool _ | .int _ | .float _ => true
  | _ => false

theorem isNumeral_int (n : Int) : ∀ c ∈ (toString n).toList, isNumeral c = true := by
  intro c hc
  change c ∈ (Int.repr n).toList at hc
  cases n with
  | ofNat n =>
      rw [Int.repr, Nat.toList_repr] at hc
      simp [isNumeral, Nat.isDigit_of_mem_toDigits (by decide) (by decide) hc]
  | negSucc n =>
      rw [Int.repr, String.toList_append, Nat.toList_repr, List.mem_append] at hc
      rcases hc with hminus | hdigits
      · rw [List.mem_singleton.1 hminus]
        rfl
      · simp [isNumeral, Nat.isDigit_of_mem_toDigits (by decide) (by decide) hdigits]

theorem toList_int_ne_nil (n : Int) : (toString n).toList ≠ [] := by
  change (Int.repr n).toList ≠ []
  cases n with
  | ofNat n => simp [Int.repr, Nat.toDigits_ne_nil]
  | negSucc n => simp [Int.repr]

theorem isNumberChar_of_isNumeral {c : Char} (h : isNumeral c = true) : isNumberChar c = true := by
  simp [isNumberChar, h]

/-- Is this the text of null or of a truth value?  Something stands in it that stands in no number,
and no mark. -/
structure IsName (text : List Char) : Prop where
  other : ∃ c ∈ text, isNumberChar c = false
  plain : ∀ c ∈ text, isMark c = false

instance (text : List Char) : Decidable (IsName text) :=
  decidable_of_iff ((∃ c ∈ text, isNumberChar c = false) ∧ ∀ c ∈ text, isMark c = false)
    ⟨fun h => ⟨h.1, h.2⟩, fun h => ⟨h.other, h.plain⟩⟩

/-- Is this the text of a whole number? -/
def IsWholeText (text : List Char) : Prop := ∀ c ∈ text, isNumeral c = true

theorem IsName.not_isWholeText {text : List Char} (h : IsName text) : ¬ IsWholeText text := by
  obtain ⟨c, hc, hnot⟩ := h.other
  intro hwhole
  rw [isNumberChar_of_isNumeral (hwhole c hc)] at hnot
  cases hnot

theorem IsName.not_isFloatText {text : List Char} (h : IsName text) : ¬ IsFloatText text := by
  obtain ⟨c, hc, hnot⟩ := h.other
  intro hfloat
  rw [hfloat.1 c hc] at hnot
  cases hnot

theorem IsWholeText.not_isFloatText {text : List Char} (h : IsWholeText text) :
    ¬ IsFloatText text := by
  rintro ⟨-, c, hc, hnot⟩
  rw [h c hc] at hnot
  cases hnot

/-- A way to write words: null and the truth values by different names, whole numbers by their
digits, and floating point numbers in a full layout. -/
structure Wording (text : Value → String) (layout : Layout) : Prop where
  full : layout.IsFull
  null : IsName (text .null).toList
  bool : ∀ b, IsName (text (.bool b)).toList
  null_ne : ∀ b, text .null ≠ text (.bool b)
  bool_ne : text (.bool true) ≠ text (.bool false)
  int : ∀ n, text (.int n) = toString n
  float : ∀ x, text (.float x) = layout.render x

namespace Wording

variable {text : Value → String} {layout : Layout} {a b : Value}

theorem isWholeText_int (h : Wording text layout) (n : Int) : IsWholeText (text (.int n)).toList :=
  h.int n ▸ isNumeral_int n

theorem isFloatText_float (h : Wording text layout) (x : Binary64) :
    IsFloatText (text (.float x)).toList :=
  h.float x ▸ isFloatText_render h.full x

/-- No mark stands in a word. -/
theorem isMark_word (h : Wording text layout) (ha : isWord a = true) :
    ∀ c ∈ (text a).toList, isMark c = false := by
  intro c hc
  cases a with
  | null => exact h.null.plain c hc
  | bool b => exact (h.bool b).plain c hc
  | int n => exact isMark_of_isNumberChar (isNumberChar_of_isNumeral (h.isWholeText_int n c hc))
  | float x => exact isMark_of_isNumberChar ((h.isFloatText_float x).1 c hc)
  | str text => cases ha
  | list items => cases ha
  | tuple items => cases ha
  | set items => cases ha
  | object members => cases ha

theorem word_ne_nil (h : Wording text layout) (ha : isWord a = true) : (text a).toList ≠ [] := by
  cases a with
  | null => exact List.ne_nil_of_mem h.null.other.choose_spec.1
  | bool b => exact List.ne_nil_of_mem (h.bool b).other.choose_spec.1
  | int n => exact h.int n ▸ toList_int_ne_nil n
  | float x => exact List.ne_nil_of_mem (h.isFloatText_float x).2.choose_spec.1
  | str text => cases ha
  | list items => cases ha
  | tuple items => cases ha
  | set items => cases ha
  | object members => cases ha

/-- Words of one text are written for one value, or for numbers that the layout does not tell
apart. -/
theorem word_cases (h : Wording text layout) (ha : isWord a = true) (hb : isWord b = true)
    (hsame : text a = text b) :
    a = b ∨ ∃ x y, a = .float x ∧ b = .float y ∧ layout.render x = layout.render y := by
  have htext := congrArg String.toList hsame
  cases a with
  | null =>
      have hname := htext ▸ h.null
      cases b with
      | null => exact .inl rfl
      | bool b => exact absurd hsame (h.null_ne b)
      | int m => exact absurd (h.isWholeText_int m) hname.not_isWholeText
      | float y => exact absurd (h.isFloatText_float y) hname.not_isFloatText
      | _ => cases hb
  | bool a =>
      have hname := htext ▸ h.bool a
      cases b with
      | null => exact absurd hsame.symm (h.null_ne a)
      | bool b =>
          cases a <;> cases b <;>
            first | exact .inl rfl | exact absurd hsame h.bool_ne | exact absurd hsame.symm h.bool_ne
      | int m => exact absurd (h.isWholeText_int m) hname.not_isWholeText
      | float y => exact absurd (h.isFloatText_float y) hname.not_isFloatText
      | _ => cases hb
  | int n =>
      have hwhole := htext ▸ h.isWholeText_int n
      cases b with
      | null => exact absurd hwhole h.null.not_isWholeText
      | bool b => exact absurd hwhole (h.bool b).not_isWholeText
      | int m =>
          rw [h.int, h.int] at hsame
          exact .inl (congrArg Value.int (Int.repr_injective hsame))
      | float y => exact absurd (h.isFloatText_float y) hwhole.not_isFloatText
      | _ => cases hb
  | float x =>
      have hfloat := htext ▸ h.isFloatText_float x
      cases b with
      | null => exact absurd hfloat h.null.not_isFloatText
      | bool b => exact absurd hfloat (h.bool b).not_isFloatText
      | int m => exact absurd hfloat (h.isWholeText_int m).not_isFloatText
      | float y =>
          rw [h.float, h.float] at hsame
          exact .inr ⟨x, y, rfl, rfl, hsame⟩
      | _ => cases hb
  | _ => cases ha

end Wording

/-- The words of canonical texts. -/
theorem wording_canonical : Wording canonical .json where
  full := .inr rfl
  null := by decide
  bool := by decide
  null_ne := by decide
  bool_ne := by decide
  int _ := rfl
  float _ := rfl

/-- Words of one canonical text are written for values that are alike. -/
theorem alike_of_word {a b : Value} (ha : isWord a = true) (hb : isWord b = true)
    (h : canonical a = canonical b) : a.alike b = true := by
  rcases wording_canonical.word_cases ha hb h with rfl | ⟨x, y, rfl, rfl, hrender⟩
  · cases a with
    | null => rfl
    | bool b => exact beq_self_eq_true b
    | int n => exact beq_self_eq_true n
    | float x => exact beq_self_eq_true (Layout.json.render x)
    | _ => cases ha
  · exact beq_iff_eq.2 hrender

end Json

end Rulebook
