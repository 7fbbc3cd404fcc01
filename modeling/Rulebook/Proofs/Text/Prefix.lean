import Mathlib.Algebra.Group.Nat.Defs
import Mathlib.Data.List.Forall2
import Rulebook.Text.Quoted

/-!
What a text begins with.

A text can be taken apart from the front if each of its parts tells where it ends: a word ends where
the first mark stands (`word_unique`), a number of fixed width has as many digits as it has
(`hex_unique`), what stands between quotes ends at the first quote that is not escaped
(`Escaping.enclosed_unique`), and the parts of a list end where a separator or the closing bracket
stands (`parts_unique`).
-/

namespace Rulebook.Text

variable {rest others : List Char}

/-! ### Words -/

section Words

variable {isMark : Char → Bool} {first second : List Char}

/-- A text without marks ends where the first mark stands. -/
theorem takeWhile_word (hfirst : ∀ c ∈ first, isMark c = false)
    (hrest : ∀ c ∈ rest.head?, isMark c = true) :
    (first ++ rest).takeWhile (fun c => !isMark c) = first := by
  have hnone : rest.takeWhile (fun c => !isMark c) = [] := by
    cases rest with
    | nil => rfl
    | cons c rest => simp [hrest c rfl]
  rw [List.takeWhile_append_of_pos (by simpa using hfirst), hnone, List.append_nil]

theorem word_unique (hfirst : ∀ c ∈ first, isMark c = false)
    (hsecond : ∀ c ∈ second, isMark c = false) (hrest : ∀ c ∈ rest.head?, isMark c = true)
    (hothers : ∀ c ∈ others.head?, isMark c = true) (h : first ++ rest = second ++ others) :
    first = second ∧ rest = others := by
  have hsame : first = second := by
    rw [← takeWhile_word hfirst hrest, h, takeWhile_word hsecond hothers]
  subst hsame
  exact ⟨rfl, List.append_cancel_left h⟩

end Words

/-! ### Numbers of fixed width -/

section Digits

variable {width m n : Nat}

/-- The last digit comes behind those of the rest. -/
theorem toList_hex_succ (hwidth : 0 < width) (n : Nat) :
    (hex (width + 1) n).toList = (hex width (n / 16)).toList ++ [Nat.digitChar (n % 16)] := by
  simp only [hex, String.toList_ofList]
  by_cases h : n < 16
  · obtain ⟨width, rfl⟩ := Nat.exists_eq_succ_of_ne_zero (Nat.ne_of_gt hwidth)
    rw [Nat.toDigits_of_lt_base h, Nat.div_eq_of_lt h, Nat.toDigits_zero, Nat.mod_eq_of_lt h]
    simp [List.replicate_succ']
  · rw [Nat.toDigits_of_base_le (by decide) (Nat.le_of_not_lt h), List.length_append,
      List.length_singleton, Nat.add_sub_add_right, List.append_assoc]

theorem digitChar_injective :
    ∀ first < 16, ∀ second < 16, Nat.digitChar first = Nat.digitChar second → first = second := by
  decide

/-- The digits of a number tell it, if there are enough of them. -/
theorem hex_unique (hm : m < 16 ^ (width + 1)) (hn : n < 16 ^ (width + 1))
    (h : (hex (width + 1) m).toList ++ rest = (hex (width + 1) n).toList ++ others) :
    m = n ∧ rest = others := by
  induction width generalizing m n rest others with
  | zero =>
      have hone : ∀ n < 16, (hex 1 n).toList = [Nat.digitChar n] := by decide
      rw [hone m hm, hone n hn, List.singleton_append, List.singleton_append] at h
      exact ⟨digitChar_injective m hm n hn (List.cons.inj h).1, (List.cons.inj h).2⟩
  | succ width ih =>
      rw [toList_hex_succ (Nat.succ_pos width), toList_hex_succ (Nat.succ_pos width),
        List.append_assoc, List.append_assoc] at h
      obtain ⟨hhigh, hlast⟩ := ih (by omega) (by omega) h
      have hlow := digitChar_injective _ (Nat.mod_lt m (by decide)) _ (Nat.mod_lt n (by decide))
        (List.cons.inj hlast).1
      exact ⟨by omega, (List.cons.inj hlast).2⟩

end Digits

/-! ### Between quotes -/

theorem toNat_lt (c : Char) : c.toNat < 0x110000 := by
  have hvalid := c.valid
  simp only [UInt32.isValidChar, Nat.isValidChar, Char.toNat] at *
  omega

/-- The escape of a character can be told from what it begins, and no escape begins with the
quote. -/
structure Escaping (escape : Char → List Char) (quote : Char) : Prop where
  unique : ∀ {c d : Char} {rest others : List Char}, escape c ++ rest = escape d ++ others →
    c = d ∧ rest = others
  ne_quote : ∀ {c : Char} {rest others : List Char}, escape c ++ rest ≠ quote :: others

/-- What stands between quotes can be told. -/
theorem Escaping.enclosed_unique {escape : Char → List Char} {quote : Char}
    (hescape : Escaping escape quote) {cs ds : List Char}
    (h : cs.flatMap escape ++ quote :: rest = ds.flatMap escape ++ quote :: others) :
    cs = ds ∧ rest = others := by
  induction cs generalizing ds with
  | nil =>
      cases ds with
      | nil => exact ⟨rfl, (List.cons.inj h).2⟩
      | cons d ds =>
          rw [List.flatMap_cons, List.append_assoc] at h
          exact absurd h.symm hescape.ne_quote
  | cons c cs ih =>
      rw [List.flatMap_cons, List.append_assoc] at h
      cases ds with
      | nil => exact absurd h hescape.ne_quote
      | cons d ds =>
          rw [List.flatMap_cons, List.append_assoc] at h
          obtain ⟨rfl, hmore⟩ := hescape.unique h
          obtain ⟨rfl, hrest⟩ := ih hmore
          exact ⟨rfl, hrest⟩

/-! ### Parts -/

theorem toList_intercalate_cons (separator first : String) (texts : List String) :
    (separator.intercalate (first :: texts)).toList =
      first.toList ++ texts.flatMap fun text => separator.toList ++ text.toList := by
  induction texts generalizing first with
  | nil => simp
  | cons second texts ih =>
      rw [String.intercalate_cons_cons, String.toList_append, String.toList_append, ih,
        List.flatMap_cons]
      simp only [List.append_assoc]

section Parts

variable {α : Type} {part : α → String} {Same : α → α → Prop} {Ends : List Char → Prop}
  {separator : String} {close : Char} {xs ys : List α}

/-- The separator and the closing bracket set off what stands before them, and they differ. -/
structure Separates (Ends : List Char → Prop) (separator : String) (close : Char) : Prop where
  further : ∀ rest, Ends (separator.toList ++ rest)
  closed : ∀ rest, Ends (close :: rest)
  differ : ∀ rest others, separator.toList ++ rest ≠ close :: others

theorem Separates.behind (h : Separates Ends separator close) (texts : List String)
    (rest : List Char) :
    Ends ((texts.flatMap fun text => separator.toList ++ text.toList) ++ close :: rest) := by
  cases texts with
  | nil => exact h.closed rest
  | cons text texts =>
      rw [List.flatMap_cons, List.append_assoc, List.append_assoc]
      exact h.further _

/-- Further parts, each of them behind a separator. -/
theorem further_unique (hsets : Separates Ends separator close)
    (hparts : ∀ x ∈ xs, ∀ y ∈ ys, ∀ rest others, Ends rest → Ends others →
      (part x).toList ++ rest = (part y).toList ++ others → Same x y ∧ rest = others)
    (h : ((xs.map part).flatMap fun text => separator.toList ++ text.toList) ++ close :: rest =
      ((ys.map part).flatMap fun text => separator.toList ++ text.toList) ++ close :: others) :
    List.Forall₂ Same xs ys ∧ rest = others := by
  induction xs generalizing ys with
  | nil =>
      cases ys with
      | nil => exact ⟨.nil, (List.cons.inj h).2⟩
      | cons y ys =>
          rw [List.map_cons, List.flatMap_cons, List.append_assoc, List.append_assoc] at h
          exact absurd h.symm (hsets.differ _ _)
  | cons x xs ih =>
      rw [List.map_cons, List.flatMap_cons, List.append_assoc, List.append_assoc] at h
      cases ys with
      | nil => exact absurd h (hsets.differ _ _)
      | cons y ys =>
          rw [List.map_cons, List.flatMap_cons, List.append_assoc, List.append_assoc] at h
          obtain ⟨hsame, hmore⟩ := hparts x List.mem_cons_self y List.mem_cons_self _ _
            (hsets.behind _ rest) (hsets.behind _ others) (List.append_cancel_left h)
          obtain ⟨hall, hrest⟩ := ih (fun x hx y hy => hparts x (List.mem_cons_of_mem _ hx) y
            (List.mem_cons_of_mem _ hy)) hmore
          exact ⟨.cons hsame hall, hrest⟩

/-- Parts between brackets, the first of them without a separator. -/
theorem parts_unique (hsets : Separates Ends separator close)
    (hopen : ∀ x ∈ xs ++ ys, ∀ rest others, (part x).toList ++ rest ≠ close :: others)
    (hparts : ∀ x ∈ xs, ∀ y ∈ ys, ∀ rest others, Ends rest → Ends others →
      (part x).toList ++ rest = (part y).toList ++ others → Same x y ∧ rest = others)
    (h : (separator.intercalate (xs.map part)).toList ++ close :: rest =
      (separator.intercalate (ys.map part)).toList ++ close :: others) :
    List.Forall₂ Same xs ys ∧ rest = others := by
  cases xs with
  | nil =>
      cases ys with
      | nil => exact ⟨.nil, (List.cons.inj h).2⟩
      | cons y ys =>
          rw [List.map_cons, toList_intercalate_cons, List.append_assoc] at h
          exact absurd h.symm (hopen y (by simp) _ _)
  | cons x xs =>
      cases ys with
      | nil =>
          rw [List.map_cons, toList_intercalate_cons, List.append_assoc] at h
          exact absurd h (hopen x (by simp) _ _)
      | cons y ys =>
          -- With a separator in front, the first part is like the further ones.
          apply further_unique hsets hparts
          simp only [List.map_cons, toList_intercalate_cons, List.append_assoc] at h
          simp only [List.map_cons, List.flatMap_cons, List.append_assoc, h]

end Parts

end Rulebook.Text
