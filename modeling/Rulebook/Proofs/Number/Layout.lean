import Rulebook.Number.Numeral
import Rulebook.Proofs.Json.Words
import Rulebook.Proofs.Number.Shortest

/-!
Texts of floating point numbers.

What a text of digits stands for can be read off it (`spelled_digits`, `Spelled.unique`), and the
shortest digits of a number round to the number and to no other one.  So different numbers of 64
bits have different texts (`render_injective`).
-/

namespace Rulebook.Binary64

open Numeral

/-- Are all of the characters digits? -/
def IsDigits (text : List Char) : Prop := ∀ c ∈ text, c.isDigit = true

/-- A text is a decimal numeral: digits, perhaps a point with digits behind it, and perhaps an
exponent.  It stands for a rational. -/
structure Spelled (text : List Char) (r : ℚ) : Prop where
  exists_parts : ∃ whole point fraction rest exponent, text = whole ++ (point ++ rest) ∧
    whole ≠ [] ∧ IsDigits whole ∧ IsDigits fraction ∧
      (point = '.' :: fraction ∨ point = [] ∧ fraction = []) ∧ exponentPart? rest = some exponent ∧
        r = Nat.ofDigitChars 10 (whole ++ fraction) 0 * 10 ^ (exponent - fraction.length)

variable {text rest : List Char} {r s : ℚ}

/-- Digits in front of something else are taken as they are. -/
theorem takeDigits_append (htext : IsDigits text) (hrest : ∀ c ∈ rest.head?, c.isDigit = false) :
    takeDigits (text ++ rest) = (text.map fun c => c.toNat - '0'.toNat, rest) := by
  induction text with
  | nil =>
      cases rest with
      | nil => rfl
      | cons c rest =>
          have hc : c.isDigit = false := hrest c rfl
          simp [takeDigits, Text.plainDigit?, hc]
  | cons c text ih =>
      have hc : c.isDigit = true := htext c List.mem_cons_self
      rw [List.cons_append, takeDigits, Text.plainDigit?, if_pos hc]
      dsimp only
      rw [ih fun d hd => htext d (List.mem_cons_of_mem _ hd)]
      rfl

/-- An exponent part begins with its letter. -/
theorem head_of_exponentPart? {exponent : Int} (h : exponentPart? rest = some exponent) :
    ∀ c ∈ rest.head?, c.isDigit = false ∧ c ≠ '.' := by
  intro c hc
  cases rest with
  | nil => cases hc
  | cons d rest =>
      obtain rfl := Option.some.inj hc
      by_cases hletter : d = 'e' ∨ d = 'E'
      · rcases hletter with rfl | rfl <;> decide
      · rw [exponentPart?, if_neg hletter] at h
        cases h

/-- The digits behind a point, if there is one, and the rest. -/
def takeFraction : List Char → List Nat × List Char
  | '.' :: rest => takeDigits rest
  | rest => ([], rest)

theorem takeFraction_eq (h : ∀ c ∈ rest.head?, c ≠ '.') : takeFraction rest = ([], rest) := by
  unfold takeFraction
  split
  · exact absurd rfl (h '.' rfl)
  · rfl

/-- What a decimal numeral stands for, as it is read: the digits in front of the point, those behind
it, and the exponent. -/
def reading? (text : List Char) : Option ℚ :=
  let (whole, rest) := takeDigits text
  let (fraction, rest) := takeFraction rest
  (exponentPart? rest).map fun exponent : Int =>
    (Text.ofDigits (whole ++ fraction) : ℚ) * 10 ^ (exponent - fraction.length)

theorem ofDigits_map (text : List Char) :
    Text.ofDigits (text.map fun c => c.toNat - '0'.toNat) = Nat.ofDigitChars 10 text 0 := by
  rw [Text.ofDigits, List.foldl_map]
  rfl

theorem Spelled.reading? (h : Spelled text r) : Binary64.reading? text = some r := by
  obtain ⟨whole, point, fraction, rest, exponent, rfl, -, hwhole, hfraction, hpoint, hexponent,
    rfl⟩ := h.exists_parts
  have hrest := head_of_exponentPart? hexponent
  unfold Binary64.reading?
  rcases hpoint with rfl | ⟨rfl, rfl⟩
  · have hdot : ∀ c ∈ ('.' :: fraction ++ rest).head?, c.isDigit = false := by
      intro c hc
      obtain rfl : '.' = c := Option.some.inj hc
      rfl
    have htake : takeFraction ('.' :: fraction ++ rest) =
        (fraction.map fun c => c.toNat - '0'.toNat, rest) :=
      takeDigits_append hfraction fun c hc => (hrest c hc).1
    rw [takeDigits_append hwhole hdot]
    dsimp only
    rw [htake]
    dsimp only
    rw [hexponent, ← List.map_append, ofDigits_map, List.length_map]
    rfl
  · rw [List.nil_append, takeDigits_append hwhole fun c hc => (hrest c hc).1]
    dsimp only
    rw [takeFraction_eq fun c hc => (hrest c hc).2]
    dsimp only
    rw [hexponent, List.append_nil, List.append_nil, ofDigits_map]
    rfl

/-- A text stands for one rational at most. -/
theorem Spelled.unique (h : Spelled text r) (hother : Spelled text s) : r = s :=
  Option.some.inj (h.reading?.symm.trans hother.reading?)

/-! ### Digits set out -/

variable {m n : Nat} {e f : Int} {d : Decimal}

/-- The digits of a decimal, filled up with zeros from the left. -/
def Decimal.chars (d : Decimal) : List Char := (padLeft d.count (toString d.digits)).toList

theorem toList_zeros (count : Nat) : (zeros count).toList = List.replicate count '0' := by
  rw [zeros, String.toList_ofList]

theorem ofDigitChars_toString (n : Nat) : Nat.ofDigitChars 10 (toString n).toList 0 = n := by
  rw [Nat.toString_eq_ofList_toDigits, String.toList_ofList]
  exact Nat.ofDigitChars_toDigits (by decide) (by decide)

theorem ofDigitChars_padLeft (width n : Nat) :
    Nat.ofDigitChars 10 (padLeft width (toString n)).toList 0 = n := by
  rw [padLeft, String.toList_append, toList_zeros, Nat.ofDigitChars_append,
    Nat.ofDigitChars_replicate_zero, Nat.mul_zero, ofDigitChars_toString]

theorem isDigits_chars (d : Decimal) : IsDigits d.chars := isDigit_padLeft _ _

theorem length_chars (h : d.Regular) (hpos : 0 < d.digits) : d.chars.length = d.count := by
  have hcount : 0 < d.count := by
    apply Nat.pos_of_ne_zero
    intro hzero
    rw [Decimal.Regular, hzero] at h
    omega
  have hle : (toString d.digits).length ≤ d.count := by
    rw [Nat.toString_eq_ofList_toDigits, String.length_ofList]
    exact (Nat.length_toDigits_le_iff (by decide) hcount).2 h
  rw [Decimal.chars, padLeft, String.toList_append, toList_zeros, List.length_append,
    List.length_replicate, String.length_toList]
  omega

theorem exponentPart?_text {sign : Char} (hsign : sign = '-' ∨ sign = '+') (width n : Nat) :
    exponentPart? ('e' :: sign :: (padLeft width (toString n)).toList) =
      some (if sign = '-' then -(n : Int) else n) := by
  have hne : (padLeft width (toString n)).toList ≠ [] := by
    rw [padLeft, String.toList_append, Nat.toString_eq_ofList_toDigits, String.toList_ofList]
    simp [Nat.toDigits_ne_nil]
  have htake : takeDigits (padLeft width (toString n)).toList =
      ((padLeft width (toString n)).toList.map fun c => c.toNat - '0'.toNat, []) := by
    have hnothing : ∀ c ∈ ([] : List Char).head?, c.isDigit = false :=
      fun c hc => by cases hc
    have happend := takeDigits_append (isDigit_padLeft width n) hnothing
    rwa [List.append_nil] at happend
  have hsome : (List.isEmpty ((padLeft width (toString n)).toList.map fun c => c.toNat - '0'.toNat) ||
      !List.isEmpty ([] : List Char)) = false := by
    rw [Bool.or_eq_false_iff, List.isEmpty_eq_false_iff]
    exact ⟨fun hnil => hne (List.map_eq_nil_iff.1 hnil), rfl⟩
  have hsplit : splitSign (sign :: (padLeft width (toString n)).toList) =
      (decide (sign = '-'), (padLeft width (toString n)).toList) := by
    rcases hsign with rfl | rfl <;> rfl
  rw [exponentPart?, if_pos (.inl rfl), hsplit]
  dsimp only
  rw [htake]
  dsimp only
  rw [hsome, ofDigits_map, ofDigitChars_padLeft]
  simp

theorem isDigits_replicate (count : Nat) : IsDigits (List.replicate count '0') := by
  intro c hc
  rw [List.eq_of_mem_replicate hc]
  rfl

theorem IsDigits.append {more : List Char} (h : IsDigits text) (hmore : IsDigits more) :
    IsDigits (text ++ more) :=
  fun c hc => (List.mem_append.1 hc).elim (h c) (hmore c)

theorem ofDigitChars_chars (d : Decimal) : Nat.ofDigitChars 10 d.chars 0 = d.digits :=
  ofDigitChars_padLeft _ _

theorem chars_ne_nil (hpos : 0 < d.digits) : d.chars ≠ [] := by
  intro hnil
  have hvalue := ofDigitChars_chars d
  rw [hnil, Nat.ofDigitChars_nil] at hvalue
  omega

/-- One digit, the others behind a point, and an exponent. -/
theorem spelled_scientific (h : d.Regular) (hpos : 0 < d.digits) {point : List Char}
    (hpoint : point = '.' :: d.chars.drop 1 ∨ point = [] ∧ d.chars.drop 1 = []) {sign : Char}
    (hsign : d.point - 1 < 0 ∧ sign = '-' ∨ ¬ d.point - 1 < 0 ∧ sign = '+') (width : Nat) :
    Spelled (d.chars.take 1 ++ (point ++
      'e' :: sign :: (padLeft width (toString (d.point - 1).natAbs)).toList)) d.value := by
  have hlength := length_chars h hpos
  have hne := chars_ne_nil hpos
  have hcount : 0 < d.chars.length := List.length_pos_of_ne_nil hne
  have hexponent : exponentPart? ('e' :: sign ::
      (padLeft width (toString (d.point - 1).natAbs)).toList) = some (d.point - 1) := by
    rw [exponentPart?_text (hsign.imp And.right And.right)]
    rcases hsign with ⟨hneg, rfl⟩ | ⟨hnonneg, rfl⟩
    · rw [if_pos rfl]
      exact congrArg some (by omega)
    · rw [if_neg (by decide)]
      exact congrArg some (by omega)
  refine ⟨_, point, d.chars.drop 1, _, _, rfl, ?_, ?_, ?_, hpoint, hexponent, ?_⟩
  · intro hnil
    rw [List.take_eq_nil_iff] at hnil
    exact hnil.elim (by decide) hne
  · exact fun c hc => isDigits_chars d c (List.mem_of_mem_take hc)
  · exact fun c hc => isDigits_chars d c (List.mem_of_mem_drop hc)
  · have hplace : d.point - d.count = d.point - 1 - (d.chars.drop 1).length := by
      rw [List.length_drop, hlength]
      omega
    rw [List.take_append_drop, ofDigitChars_chars, ← hplace]
    rfl

/-- Digits with a point among them. -/
theorem spelled_point {whole fraction : List Char} (hne : whole ≠ []) (hwhole : IsDigits whole)
    (hfraction : IsDigits fraction) (hvalue : d.value =
      Nat.ofDigitChars 10 (whole ++ fraction) 0 * 10 ^ (-(fraction.length : Int))) :
    Spelled (whole ++ '.' :: fraction) d.value := by
  refine ⟨whole, '.' :: fraction, fraction, [], 0, ?_, hne, hwhole, hfraction, .inl rfl, rfl, ?_⟩
  · rw [List.append_nil]
  · rw [zero_sub, hvalue]

/-- Zeros and then the digits, all behind the point. -/
theorem spelled_small (h : d.Regular) (hpos : 0 < d.digits) (hpoint : d.point ≤ 0) :
    Spelled (['0'] ++ '.' :: (List.replicate (-d.point).toNat '0' ++ d.chars)) d.value := by
  have hzero : IsDigits ['0'] := isDigits_replicate 1
  apply spelled_point (List.cons_ne_nil _ _) hzero
    ((isDigits_replicate _).append (isDigits_chars d))
  have hplace : d.point - d.count =
      -((List.replicate (-d.point).toNat '0' ++ d.chars).length : Int) := by
    rw [List.length_append, List.length_replicate, length_chars h hpos]
    omega
  have hnothing : Nat.ofDigitChars 10 ['0'] 0 = 0 := rfl
  rw [Nat.ofDigitChars_append, Nat.ofDigitChars_append, Nat.ofDigitChars_replicate_zero, hnothing,
    Nat.mul_zero, ofDigitChars_chars, ← hplace]
  rfl

/-- The digits and then zeros, in front of the point. -/
theorem spelled_whole (hpos : 0 < d.digits) (hpoint : d.count ≤ d.point.toNat)
    (hwhole : 0 < d.point) :
    Spelled (d.chars ++ List.replicate (d.point.toNat - d.count) '0' ++ '.' :: ['0']) d.value := by
  have hzero : IsDigits ['0'] := isDigits_replicate 1
  have hne : d.chars ++ List.replicate (d.point.toNat - d.count) '0' ≠ [] :=
    List.append_ne_nil_of_left_ne_nil (chars_ne_nil hpos) _
  apply spelled_point hne ((isDigits_chars d).append (isDigits_replicate _)) hzero
  have htimes : ∀ n, Nat.ofDigitChars 10 ['0'] n = 10 ^ 1 * n := fun _ => rfl
  have hplace : d.point - d.count = -1 + (1 + (d.point.toNat - d.count) : Nat) := by omega
  have hshift := mul_ten_pow d.digits (1 + (d.point.toNat - d.count)) (-1)
  rw [← hplace, pow_add, Nat.mul_comm, Nat.mul_assoc] at hshift
  rw [Nat.ofDigitChars_append, Nat.ofDigitChars_append, Nat.ofDigitChars_replicate_zero,
    ofDigitChars_chars, htimes]
  exact hshift.symm

/-- The point among the digits. -/
theorem spelled_among (h : d.Regular) (hpos : 0 < d.digits) (hpoint : d.point.toNat < d.count)
    (hwhole : 0 < d.point) :
    Spelled (d.chars.take d.point.toNat ++ '.' :: d.chars.drop d.point.toNat) d.value := by
  have hlength := length_chars h hpos
  apply spelled_point
  · intro hnil
    rw [List.take_eq_nil_iff] at hnil
    exact hnil.elim (by omega) (chars_ne_nil hpos)
  · exact fun c hc => isDigits_chars d c (List.mem_of_mem_take hc)
  · exact fun c hc => isDigits_chars d c (List.mem_of_mem_drop hc)
  · have hplace : d.point - d.count = -((d.chars.drop d.point.toNat).length : Int) := by
      rw [List.length_drop, hlength]
      omega
    rw [List.take_append_drop, ofDigitChars_chars, ← hplace]
    rfl

/-- A point stands in front of digits, and no point where there are none. -/
theorem exists_point (fraction : List Char) : ∃ point : List Char,
    (point = '.' :: fraction ∨ point = [] ∧ fraction = []) ∧
      (if (String.ofList fraction).isEmpty = true then Layout.standard.loneSuffix
        else "." ++ String.ofList fraction).toList = point := by
  refine ⟨_, ?_, rfl⟩
  split
  · next hempty =>
      rw [String.isEmpty_iff, String.ofList_eq_empty_iff] at hempty
      exact .inr ⟨rfl, hempty⟩
  · left
    simp only [String.toList_append, String.toList_ofList]
    rfl

/-- The text of a decimal stands for the value of the decimal. -/
theorem spelled_digits (h : d.Regular) (hpos : 0 < d.digits) :
    Spelled (Layout.standard.digits d).toList d.value := by
  unfold Layout.digits
  dsimp only
  split
  · obtain ⟨point, hpoint, htail⟩ := exists_point (d.chars.drop 1)
    obtain ⟨sign, hsign, hsigned⟩ : ∃ sign : Char,
        (d.point - 1 < 0 ∧ sign = '-' ∨ ¬ d.point - 1 < 0 ∧ sign = '+') ∧
        (if d.point - 1 < 0 then "-" else "+").toList = [sign] := by
      split
      · next hneg => exact ⟨'-', .inl ⟨hneg, rfl⟩, rfl⟩
      · next hnonneg => exact ⟨'+', .inr ⟨hnonneg, rfl⟩, rfl⟩
    have hparts := spelled_scientific h hpos hpoint hsign 2
    have he : "e".toList = ['e'] := rfl
    have htext : (String.ofList (d.chars.take 1) ++
        (if (String.ofList (d.chars.drop 1)).isEmpty = true then Layout.standard.loneSuffix
          else "." ++ String.ofList (d.chars.drop 1)) ++ "e" ++
        (if d.point - 1 < 0 then "-" else "+") ++
        padLeft 2 (toString (d.point - 1).natAbs)).toList = d.chars.take 1 ++ (point ++
          'e' :: sign :: (padLeft 2 (toString (d.point - 1).natAbs)).toList) := by
      simp only [String.toList_append, String.toList_ofList, htail, hsigned, he, List.append_assoc,
        List.cons_append, List.nil_append]
    have hparts := spelled_scientific h hpos hpoint hsign 2
    rw [← htext] at hparts
    exact hparts
  · split
    · next hleast =>
        have htext : ("0." ++ zeros (-d.point).toNat ++ padLeft d.count (toString d.digits)).toList =
            ['0'] ++ '.' :: (List.replicate (-d.point).toNat '0' ++ d.chars) := by
          rw [String.toList_append, String.toList_append, toList_zeros]
          rfl
        rw [htext]
        exact spelled_small h hpos hleast
    · next hpoint =>
        split
        · next hwhole =>
            have htext : (padLeft d.count (toString d.digits) ++ zeros (d.point.toNat - d.count) ++
                Layout.standard.wholeSuffix).toList =
                  d.chars ++ List.replicate (d.point.toNat - d.count) '0' ++ '.' :: ['0'] := by
              rw [String.toList_append, String.toList_append, toList_zeros]
              rfl
            rw [htext]
            exact spelled_whole hpos hwhole (by omega)
        · next hamong =>
            have hparts := spelled_among h hpos (by omega) (by omega)
            rw [← List.singleton_append, ← List.append_assoc] at hparts
            simp only [String.toList_append, String.toList_ofList]
            exact hparts

/-! ### Numbers -/

/-- A decimal numeral begins with a digit. -/
theorem Spelled.exists_cons (h : Spelled text r) :
    ∃ c more, text = c :: more ∧ c.isDigit = true := by
  obtain ⟨whole, point, _, rest, _, rfl, hne, hwhole, _⟩ := h.exists_parts
  obtain ⟨c, more, rfl⟩ := List.exists_cons_of_ne_nil hne
  exact ⟨c, more ++ (point ++ rest), rfl, hwhole c List.mem_cons_self⟩

variable {layout : Layout}

/-- The text of a finite number without its sign. -/
def Layout.magnitude (layout : Layout) (m : Nat) (e : Int) : String :=
  if m = 0 then "0" ++ layout.wholeSuffix else layout.digits (shortest m e)

theorem render_finite (negative : Bool) : layout.render (.finite negative m e) =
    (if negative then "-" else "") ++ layout.magnitude m e := rfl

/-- The text stands for a rational that rounds to the number. -/
theorem exists_spelled (hlayout : layout.IsFull) (hfits : Fits m e) :
    ∃ r, Spelled (layout.magnitude m e).toList r ∧
      if m = 0 then r = 0 else (interval m e).Holds r := by
  by_cases hm : m = 0
  · have htext : (layout.magnitude m e).toList = ['0', '.', '0'] := by
      rw [Layout.magnitude, if_pos hm]
      rcases hlayout with rfl | rfl <;> rfl
    rw [htext]
    refine ⟨0, ⟨['0'], ['.', '0'], ['0'], [], 0, rfl, List.cons_ne_nil _ _, isDigits_replicate 1,
      isDigits_replicate 1, .inl rfl, rfl, ?_⟩, by rw [if_pos hm]⟩
    have hzero : Nat.ofDigitChars 10 (['0'] ++ ['0']) 0 = 0 := rfl
    rw [hzero, Nat.cast_zero, zero_mul]
  · obtain ⟨hregular, hholds⟩ := shortest_spec hfits (Nat.pos_of_ne_zero hm)
    have hpos : 0 < (shortest m e).digits := by
      have hvalue := pos_of_holds (Nat.pos_of_ne_zero hm) hholds
      apply Nat.pos_of_ne_zero
      intro hzero
      rw [Decimal.value, hzero, Nat.cast_zero, zero_mul] at hvalue
      exact lt_irrefl _ hvalue
    have htext : layout.magnitude m e = Layout.standard.digits (shortest m e) := by
      rw [Layout.magnitude, if_neg hm]
      rcases hlayout with rfl | rfl <;> rfl
    rw [htext]
    exact ⟨_, spelled_digits hregular hpos, by rwa [if_neg hm]⟩

/-- Numbers of one text are the same. -/
theorem magnitude_unique (hlayout : layout.IsFull) (hm : Fits m e) (hn : Fits n f)
    (h : layout.magnitude m e = layout.magnitude n f) : m = n ∧ e = f := by
  obtain ⟨r, hr, hround⟩ := exists_spelled hlayout hm
  obtain ⟨s, hs, hround'⟩ := exists_spelled hlayout hn
  rw [h] at hr
  obtain rfl := hr.unique hs
  have hleast : ∀ {e : Int}, Fits 0 e → e = leastExponent := by
    intro e hzero
    refine (hzero.least.eq_or_lt).elim Eq.symm fun hlt => ?_
    exact absurd (hzero.full hlt) (by decide)
  by_cases hm0 : m = 0
  · by_cases hn0 : n = 0
    · subst hm0 hn0
      exact ⟨rfl, (hleast hm).trans (hleast hn).symm⟩
    · rw [if_pos hm0] at hround
      rw [if_neg hn0] at hround'
      exact absurd (pos_of_holds (Nat.pos_of_ne_zero hn0) hround') (by rw [hround]; exact lt_irrefl 0)
  · by_cases hn0 : n = 0
    · rw [if_neg hm0] at hround
      rw [if_pos hn0] at hround'
      exact absurd (pos_of_holds (Nat.pos_of_ne_zero hm0) hround) (by rw [hround']; exact lt_irrefl 0)
    · rw [if_neg hm0] at hround
      rw [if_neg hn0] at hround'
      exact holds_unique hm hn hround hround'

theorem exists_cons_magnitude (hlayout : layout.IsFull) (hfits : Fits m e) :
    ∃ c more, (layout.magnitude m e).toList = c :: more ∧ c.isDigit = true := by
  obtain ⟨r, hr, _⟩ := exists_spelled hlayout hfits
  exact hr.exists_cons

theorem splitSign_of_isDigit {c : Char} (h : c.isDigit = true) (more : List Char) :
    splitSign (c :: more) = (false, c :: more) := by
  unfold splitSign
  split
  · next hminus =>
      obtain rfl := (List.cons.inj hminus).1
      exact absurd h (by decide)
  · next hplus =>
      obtain rfl := (List.cons.inj hplus).1
      exact absurd h (by decide)
  · rfl

/-- The sign of a finite number can be read off its text. -/
theorem splitSign_finite (hlayout : layout.IsFull) (hfits : Fits m e) (negative : Bool) :
    splitSign (layout.render (.finite negative m e)).toList =
      (negative, (layout.magnitude m e).toList) := by
  obtain ⟨c, more, hmore, hdigit⟩ := exists_cons_magnitude hlayout hfits
  rw [render_finite, String.toList_append, hmore]
  cases negative with
  | true => rfl
  | false => exact splitSign_of_isDigit hdigit more

theorem splitSign_infinite (hlayout : layout.IsFull) (negative : Bool) :
    splitSign (layout.render (.infinite negative)).toList = (negative, layout.infinity.toList) := by
  rcases hlayout with rfl | rfl <;> cases negative <;> rfl

theorem splitSign_nan (hlayout : layout.IsFull) :
    splitSign (layout.render .nan).toList = (false, layout.nan.toList) := by
  rcases hlayout with rfl | rfl <;> rfl

/-- The words that stand for numbers begin with no digit, and they differ. -/
theorem isDigit_words (hlayout : layout.IsFull) :
    (∀ c ∈ layout.nan.toList.head?, c.isDigit = false) ∧
      (∀ c ∈ layout.infinity.toList.head?, c.isDigit = false) ∧ layout.nan ≠ layout.infinity := by
  have hhead : ∀ {word : List Char} {d : Char}, word.head? = some d → d.isDigit = false →
      ∀ c ∈ word.head?, c.isDigit = false := by
    intro word d hword hd c hc
    rw [Option.some.inj (hword.symm.trans hc)] at hd
    exact hd
  rcases hlayout with rfl | rfl
  · exact ⟨hhead (d := 'n') rfl rfl, hhead (d := 'i') rfl rfl, by decide⟩
  · exact ⟨hhead (d := 'N') rfl rfl, hhead (d := 'I') rfl rfl, by decide⟩

theorem magnitude_ne_word (hlayout : layout.IsFull) (hfits : Fits m e) {word : List Char}
    (hword : ∀ c ∈ word.head?, c.isDigit = false) : (layout.magnitude m e).toList ≠ word := by
  obtain ⟨c, more, hmore, hdigit⟩ := exists_cons_magnitude hlayout hfits
  rintro rfl
  rw [hword c (by rw [hmore]; rfl)] at hdigit
  cases hdigit

/-- Different numbers of 64 bits have different texts. -/
theorem render_injective (hlayout : layout.IsFull) {x y : Binary64} (hx : x.IsProper)
    (hy : y.IsProper) (h : layout.render x = layout.render y) : x = y := by
  obtain ⟨hnan, hinfinity, hwords⟩ := isDigit_words hlayout
  have hsplit : splitSign (layout.render x).toList = splitSign (layout.render y).toList := by rw [h]
  cases x with
  | nan =>
      rw [splitSign_nan hlayout] at hsplit
      cases y with
      | nan => rfl
      | infinite negative =>
          rw [splitSign_infinite hlayout, Prod.mk.injEq] at hsplit
          exact absurd (String.toList_inj.1 hsplit.2) hwords
      | finite negative n f =>
          rw [splitSign_finite hlayout hy, Prod.mk.injEq] at hsplit
          exact absurd hsplit.2.symm (magnitude_ne_word hlayout hy hnan)
  | infinite negative =>
      rw [splitSign_infinite hlayout] at hsplit
      cases y with
      | nan =>
          rw [splitSign_nan hlayout, Prod.mk.injEq] at hsplit
          exact absurd (String.toList_inj.1 hsplit.2).symm hwords
      | infinite sign =>
          rw [splitSign_infinite hlayout, Prod.mk.injEq] at hsplit
          rw [hsplit.1]
      | finite sign n f =>
          rw [splitSign_finite hlayout hy, Prod.mk.injEq] at hsplit
          exact absurd hsplit.2.symm (magnitude_ne_word hlayout hy hinfinity)
  | finite negative m e =>
      rw [splitSign_finite hlayout hx] at hsplit
      cases y with
      | nan =>
          rw [splitSign_nan hlayout, Prod.mk.injEq] at hsplit
          exact absurd hsplit.2 (magnitude_ne_word hlayout hx hnan)
      | infinite sign =>
          rw [splitSign_infinite hlayout, Prod.mk.injEq] at hsplit
          exact absurd hsplit.2 (magnitude_ne_word hlayout hx hinfinity)
      | finite sign n f =>
          rw [splitSign_finite hlayout hy, Prod.mk.injEq, String.toList_inj] at hsplit
          obtain ⟨rfl, rfl⟩ := magnitude_unique hlayout hx hy hsplit.2
          rw [hsplit.1]

end Rulebook.Binary64
