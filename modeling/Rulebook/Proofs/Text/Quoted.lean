import Mathlib.Tactic.SplitIfs
import Rulebook.Proofs.Text.Prefix

/-!
Quoted texts.

The first character of a quoted text is its quote, and between the quotes the characters are written
in escapes that can be told from what they begin.  So a text begins with one quoted text at most
(`quoted_unique`).
-/

namespace Rulebook.Text

/-- The letters that stand for characters behind a backslash, beside the quote. -/
def quoteLetters (quote : Char) : List (Char × Char) :=
  [(quote, quote), ('\\', '\\'), ('n', '\n'), ('r', '\r'), ('t', '\t')]

/-- The letters behind a backslash that stand before the digits of a character, and how many digits
these are, less one. -/
def digitLetters : List (Char × Nat) := [('x', 1), ('u', 3), ('U', 7)]

/-- How a character is written between quotes: it stands for itself, or a letter behind a backslash
stands for it, or its digits do. -/
inductive QuoteEscape (quote c : Char) : List Char → Prop where
  | plain (noQuote : c ≠ quote) (backslash : c ≠ '\\') : QuoteEscape quote c [c]
  | letter {letter : Char} (code : (letter, c) ∈ quoteLetters quote) :
      QuoteEscape quote c ['\\', letter]
  | digits {letter : Char} {width : Nat} (code : (letter, width) ∈ digitLetters)
      (small : c.toNat < 16 ^ (width + 1)) :
      QuoteEscape quote c ('\\' :: letter :: (hex (width + 1) c.toNat).toList)

variable {quote c d : Char} {first second rest others : List Char}

theorem quoteEscape_quoteChar (quote c : Char) : QuoteEscape quote c (quoteChar quote c).toList := by
  unfold quoteChar
  split_ifs with hquote hn hr ht hplain hbyte hunit
  · rw [String.toList_ofList]
    rcases hquote with rfl | rfl
    · exact .letter List.mem_cons_self
    · exact .letter (List.mem_cons_of_mem _ (by decide))
  · exact hn ▸ .letter (List.mem_cons_of_mem _ (by decide))
  · exact hr ▸ .letter (List.mem_cons_of_mem _ (by decide))
  · exact ht ▸ .letter (List.mem_cons_of_mem _ (by decide))
  · rw [Char.toString_eq_singleton, String.toList_singleton]
    exact .plain (fun h => hquote (.inl h)) fun h => hquote (.inr h)
  · rw [String.toList_append]
    exact .digits (by decide) hbyte
  · rw [String.toList_append]
    exact .digits (by decide) hunit
  · rw [String.toList_append]
    exact .digits (by decide) (Nat.lt_trans (toNat_lt c) (by decide))

/-- A text begins with one escape at most. -/
theorem QuoteEscape.unique (hquote : quote = '\'' ∨ quote = '"') (hc : QuoteEscape quote c first)
    (hd : QuoteEscape quote d second) (h : first ++ rest = second ++ others) :
    c = d ∧ rest = others := by
  have hletters : ∀ code ∈ quoteLetters quote, ∀ other ∈ quoteLetters quote,
      code.1 = other.1 → code.2 = other.2 := by
    rcases hquote with rfl | rfl <;> decide
  have hdigits : ∀ code ∈ digitLetters, ∀ other ∈ digitLetters,
      code.1 = other.1 → code.2 = other.2 := by decide
  have hdiffer : ∀ code ∈ quoteLetters quote, ∀ other ∈ digitLetters, code.1 ≠ other.1 := by
    rcases hquote with rfl | rfl <;> decide
  cases hc with
  | plain _ hbackslash =>
      cases hd with
      | plain => exact List.cons.inj h
      | letter => exact absurd (List.cons.inj h).1 hbackslash
      | digits => exact absurd (List.cons.inj h).1 hbackslash
  | letter hcode =>
      cases hd with
      | plain _ hbackslash => exact absurd (List.cons.inj h).1.symm hbackslash
      | letter hother =>
          obtain ⟨hsame, hrest⟩ := List.cons.inj (List.cons.inj h).2
          exact ⟨hletters _ hcode _ hother hsame, hrest⟩
      | digits hother =>
          exact absurd (List.cons.inj (List.cons.inj h).2).1 (hdiffer _ hcode _ hother)
  | digits hcode hsmall =>
      cases hd with
      | plain _ hbackslash => exact absurd (List.cons.inj h).1.symm hbackslash
      | letter hother =>
          exact absurd (List.cons.inj (List.cons.inj h).2).1.symm (hdiffer _ hother _ hcode)
      | digits hother hsmall' =>
          obtain ⟨hsame, hmore⟩ := List.cons.inj (List.cons.inj h).2
          obtain rfl := hdigits _ hcode _ hother hsame
          obtain ⟨hnumber, hrest⟩ := hex_unique hsmall hsmall' hmore
          exact ⟨Char.toNat_inj.1 hnumber, hrest⟩

theorem escaping_quoteChar (hquote : quote = '\'' ∨ quote = '"') :
    Escaping (fun c => (quoteChar quote c).toList) quote where
  unique h := (quoteEscape_quoteChar quote _).unique hquote (quoteEscape_quoteChar quote _) h
  ne_quote := by
    intro c rest others h
    have hescape := quoteEscape_quoteChar quote c
    generalize (quoteChar quote c).toList = text at h hescape
    have hbackslash : '\\' ≠ quote := by rcases hquote with rfl | rfl <;> decide
    cases hescape with
    | plain hplain => exact hplain (List.cons.inj h).1
    | letter => exact hbackslash (List.cons.inj h).1
    | digits => exact hbackslash (List.cons.inj h).1

theorem quoteFor_cases (text : String) : quoteFor text = '\'' ∨ quoteFor text = '"' := by
  unfold quoteFor
  split
  · exact .inr rfl
  · exact .inl rfl

theorem toList_quoted (text : String) : (quoted text).toList = quoteFor text ::
    ((text.toList.flatMap fun c => (quoteChar (quoteFor text) c).toList) ++ [quoteFor text]) := by
  rw [quoted]
  rw [String.toList_append, String.toList_append, String.toList_join, List.flatMap_map,
    Char.toString_eq_singleton, String.toList_singleton]
  rfl

/-- A text begins with one quoted text at most. -/
theorem quoted_unique {text other : String}
    (h : (quoted text).toList ++ rest = (quoted other).toList ++ others) :
    text = other ∧ rest = others := by
  simp only [toList_quoted, List.cons_append, List.append_assoc, List.nil_append] at h
  obtain ⟨hquote, hmore⟩ := List.cons.inj h
  rw [hquote] at hmore
  obtain ⟨hsame, hrest⟩ := (escaping_quoteChar (quoteFor_cases other)).enclosed_unique hmore
  exact ⟨String.toList_inj.1 hsame, hrest⟩

end Rulebook.Text
