import Mathlib.Tactic.SplitIfs
import Rulebook.Json.Writer
import Rulebook.Proofs.Text.Prefix

/-!
Strings of JSON text.

The escapes of characters form a prefix code: what stands first in a text is the escape of one
character at most (`escapeChar_unique`), and no escape begins with a quote.  So a string can be read
off the text that it begins (`string_unique`).
-/

namespace Rulebook

namespace Json

theorem toList_unit (n : Nat) : (unit n).toList = '\\' :: 'u' :: (Text.hex 4 n).toList := by
  rw [unit, String.toList_append]
  rfl

/-- The escape of a UTF-16 unit, before a text. -/
theorem unit_unique {first second : Nat} (hfirst : first < 0x10000) (hsecond : second < 0x10000)
    {rest others : List Char} (h : (unit first).toList ++ rest = (unit second).toList ++ others) :
    first = second ∧ rest = others := by
  rw [toList_unit, toList_unit] at h
  exact Text.hex_unique (show first < 16 ^ (3 + 1) from hfirst)
    (show second < 16 ^ (3 + 1) from hsecond) (List.cons.inj (List.cons.inj h).2).2

/-- The UTF-16 units of a character. -/
def units (c : Char) : List Nat :=
  if c.toNat < 0x10000 then [c.toNat]
  else [0xd800 + (c.toNat - 0x10000) / 0x400, 0xdc00 + (c.toNat - 0x10000) % 0x400]

/-- The escapes of units. -/
def escapes (numbers : List Nat) : List Char := numbers.flatMap fun n => (unit n).toList

variable {c d : Char} {first second rest others : List Char}

/-- No character is the unit with which a pair begins. -/
theorem toNat_ne_high (c d : Char) : c.toNat ≠ 0xd800 + (d.toNat - 0x10000) / 0x400 := by
  intro h
  have hlt := Text.toNat_lt d
  have hvalid := c.valid
  simp only [UInt32.isValidChar, Nat.isValidChar, Char.toNat] at *
  omega

theorem escapes_unique (h : escapes (units c) ++ rest = escapes (units d) ++ others) :
    c = d ∧ rest = others := by
  have hltc := Text.toNat_lt c
  have hltd := Text.toNat_lt d
  unfold units at h
  split at h
  · next hc =>
      split at h
      · next hd =>
          simp only [escapes, List.flatMap_cons, List.flatMap_nil, List.append_nil] at h
          obtain ⟨hsame, hrest⟩ := unit_unique hc hd h
          exact ⟨Char.toNat_inj.1 hsame, hrest⟩
      · simp only [escapes, List.flatMap_cons, List.flatMap_nil, List.append_nil,
          List.append_assoc] at h
        obtain ⟨hsame, -⟩ := unit_unique hc (by omega) h
        exact absurd hsame (toNat_ne_high c d)
  · split at h
    · next hd =>
        simp only [escapes, List.flatMap_cons, List.flatMap_nil, List.append_nil,
          List.append_assoc] at h
        obtain ⟨hsame, -⟩ := unit_unique (by omega) hd h
        exact absurd hsame.symm (toNat_ne_high d c)
    · simp only [escapes, List.flatMap_cons, List.flatMap_nil, List.append_nil,
        List.append_assoc] at h
      obtain ⟨hhigh, hmore⟩ := unit_unique (by omega) (by omega) h
      obtain ⟨hlow, hrest⟩ := unit_unique (by omega) (by omega) hmore
      exact ⟨Char.toNat_inj.1 (by omega), hrest⟩

/-- The letters that stand for characters behind a backslash. -/
def letters : List (Char × Char) :=
  [('"', '"'), ('\\', '\\'), ('n', '\n'), ('r', '\r'), ('t', '\t'), ('f', '\x0c'), ('b', '\x08')]

/-- How a character is written: it stands for itself, or a letter behind a backslash stands for it,
or its units do. -/
inductive Escape (c : Char) : List Char → Prop where
  | plain (quote : c ≠ '"') (backslash : c ≠ '\\') : Escape c [c]
  | letter {letter : Char} (code : (letter, c) ∈ letters) : Escape c ['\\', letter]
  | units {text : List Char} (escaped : escapes (units c) = '\\' :: 'u' :: text) :
      Escape c ('\\' :: 'u' :: text)

theorem escape_escapeChar (c : Char) : Escape c (escapeChar c).toList := by
  unfold escapeChar
  split_ifs with hquote hbackslash hn hr ht hf hb hplain hsmall
  · exact hquote ▸ .letter (by decide)
  · exact hbackslash ▸ .letter (by decide)
  · exact hn ▸ .letter (by decide)
  · exact hr ▸ .letter (by decide)
  · exact ht ▸ .letter (by decide)
  · exact hf ▸ .letter (by decide)
  · exact hb ▸ .letter (by decide)
  · rw [Char.toString_eq_singleton, String.toList_singleton]
    exact .plain hquote hbackslash
  · have hescaped : escapes (units c) = (unit c.toNat).toList := by
      rw [units, if_pos hsmall]
      exact List.append_nil _
    rw [toList_unit] at hescaped ⊢
    exact .units hescaped
  · have hescaped : escapes (units c) = (unit (0xd800 + (c.toNat - 0x10000) / 0x400) ++
        unit (0xdc00 + (c.toNat - 0x10000) % 0x400)).toList := by
      rw [units, if_neg hsmall, String.toList_append]
      simp [escapes]
    dsimp only
    rw [String.toList_append, toList_unit, List.cons_append, List.cons_append] at hescaped ⊢
    exact .units hescaped

/-- A text begins with one escape at most. -/
theorem Escape.unique (hc : Escape c first) (hd : Escape d second)
    (h : first ++ rest = second ++ others) : c = d ∧ rest = others := by
  have hsame : ∀ code ∈ letters, ∀ other ∈ letters, code.1 = other.1 → code.2 = other.2 := by
    decide
  have hu : ∀ code ∈ letters, 'u' ≠ code.1 := by decide
  cases hc with
  | plain _ hbackslash =>
      cases hd with
      | plain => exact List.cons.inj h
      | letter => exact absurd (List.cons.inj h).1 hbackslash
      | units => exact absurd (List.cons.inj h).1 hbackslash
  | letter hcode =>
      cases hd with
      | plain _ hbackslash => exact absurd (List.cons.inj h).1.symm hbackslash
      | letter hother =>
          obtain ⟨hletters, hrest⟩ := List.cons.inj (List.cons.inj h).2
          exact ⟨hsame _ hcode _ hother hletters, hrest⟩
      | units => exact absurd (List.cons.inj (List.cons.inj h).2).1.symm (hu _ hcode)
  | units hescaped =>
      cases hd with
      | plain _ hbackslash => exact absurd (List.cons.inj h).1.symm hbackslash
      | letter hother => exact absurd (List.cons.inj (List.cons.inj h).2).1 (hu _ hother)
      | units hescaped' => exact escapes_unique (hescaped ▸ hescaped' ▸ h)

theorem escapeChar_unique
    (h : (escapeChar c).toList ++ rest = (escapeChar d).toList ++ others) :
    c = d ∧ rest = others :=
  (escape_escapeChar c).unique (escape_escapeChar d) h

/-- No escape begins with a quote. -/
theorem escapeChar_ne_quote : (escapeChar c).toList ++ rest ≠ '"' :: others := by
  intro h
  have hescape := escape_escapeChar c
  generalize (escapeChar c).toList = text at h hescape
  cases hescape with
  | plain hquote => exact hquote (List.cons.inj h).1
  | letter => cases (List.cons.inj h).1
  | units => cases (List.cons.inj h).1

theorem escaping_escapeChar : Text.Escaping (fun c => (escapeChar c).toList) '"' :=
  ⟨escapeChar_unique, escapeChar_ne_quote⟩

theorem toList_string (text : String) : (string text).toList =
    '"' :: ((text.toList.flatMap fun c => (escapeChar c).toList) ++ ['"']) := by
  rw [string, String.toList_append, String.toList_append, String.toList_join, List.flatMap_map]
  rfl

/-- A text begins with one string at most. -/
theorem string_unique {text other : String}
    (h : (string text).toList ++ rest = (string other).toList ++ others) :
    text = other ∧ rest = others := by
  simp only [toList_string, List.cons_append, List.append_assoc, List.cons.injEq, true_and,
    List.nil_append] at h
  obtain ⟨hsame, hrest⟩ := escaping_escapeChar.enclosed_unique h
  exact ⟨String.toList_inj.1 hsame, hrest⟩

end Json

end Rulebook
