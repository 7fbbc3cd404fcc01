import Rulebook.Proofs.Number.Layout
import Rulebook.Proofs.Text.Quoted

/-!
Literal forms of keys.

A text begins with the literal form of one hashable value at most, if what follows is set off from it
(`literal_unique`).  So sets of one literal form have the same items in the same order
(`literal_set_injective`).
-/

namespace Rulebook.Value

open Json (isMark isWord Wording)

/-- The value is well-formed: its numbers have 64 bits, no name comes twice in an object, and what is
in a set can be the item of a set. -/
inductive Proper : Value → Prop where
  | null : Proper .null
  | bool (b : Bool) : Proper (.bool b)
  | int (n : Int) : Proper (.int n)
  | float {x : Binary64} (bits : x.IsProper) : Proper (.float x)
  | str (text : String) : Proper (.str text)
  | list {items : List Value} (each : ∀ item ∈ items, Proper item) : Proper (.list items)
  | tuple {items : List Value} (each : ∀ item ∈ items, Proper item) : Proper (.tuple items)
  | set {items : List Value} (each : ∀ item ∈ items, Proper item)
      (hashable : ∀ item ∈ items, item.hashable = true) : Proper (.set items)
  | object {members : Members} (names : (members.map Prod.fst).Nodup)
      (each : ∀ member ∈ members, Proper member.2) : Proper (.object members)

variable {a b : Value} {items others : List Value} {rest more : List Char}

theorem hashableAll_iff : hashableAll items = true ↔ ∀ item ∈ items, item.hashable = true := by
  induction items with
  | nil => simp [hashableAll]
  | cons item items ih => simp [hashableAll, ih]

theorem literals_eq_map (items : List Value) : literals items = items.map literal := by
  induction items with
  | nil => rfl
  | cons item items ih => rw [literals, ih, List.map_cons]

/-- A comma and a space between items. -/
def itemTexts (items : List Value) : String := ", ".intercalate (items.map literal)

theorem literal_tuple (h : ∀ item, items ≠ [item]) :
    (Value.tuple items).literal = "(" ++ itemTexts items ++ ")" := by
  rw [literal, literals_eq_map]
  · rfl
  · exact h

theorem literal_set (h : items ≠ []) :
    (Value.set items).literal = "\x7b" ++ itemTexts items ++ "\x7d" := by
  rw [literal, literals_eq_map]
  · rfl
  · exact h

theorem wording_literal : Wording literal .standard where
  full := .inl rfl
  null := by decide
  bool := by decide
  null_ne := by decide
  bool_ne := by decide
  int _ := rfl
  float _ := rfl

/-! ### How literal forms begin and end -/

/-- The first character of the literal form of a hashable value. -/
inductive Begins : Value → Char → Prop where
  | word {value : Value} {c : Char} (word : isWord value = true) (mark : isMark c = false) :
      Begins value c
  | str {text : String} {c : Char} (quote : c = '\'' ∨ c = '"') : Begins (.str text) c
  | tuple {items : List Value} : Begins (.tuple items) '('

theorem exists_begins (h : a.hashable = true) :
    ∃ c text, a.literal.toList = c :: text ∧ Begins a c := by
  have hword : isWord a = true → ∃ c text, a.literal.toList = c :: text ∧ Begins a c := by
    intro hword
    obtain ⟨c, text, htext⟩ := List.exists_cons_of_ne_nil (wording_literal.word_ne_nil hword)
    exact ⟨c, text, htext,
      .word hword (wording_literal.isMark_word hword c (htext ▸ List.mem_cons_self))⟩
  cases a with
  | null => exact hword rfl
  | bool b => exact hword rfl
  | int n => exact hword rfl
  | float x => exact hword rfl
  | str text => exact ⟨_, _, Text.toList_quoted text, .str (Text.quoteFor_cases text)⟩
  | tuple items =>
      by_cases hone : ∃ item, items = [item]
      · obtain ⟨item, rfl⟩ := hone
        refine ⟨'(', (item.literal ++ ",)").toList, ?_, .tuple⟩
        rw [literal, String.append_assoc, String.toList_append]
        rfl
      · refine ⟨'(', (itemTexts items ++ ")").toList, ?_, .tuple⟩
        rw [literal_tuple (not_exists.1 hone), String.append_assoc, String.toList_append]
        rfl
  | list items => cases h
  | set items => cases h
  | object members => cases h

/-- Literal forms that a text begins with begin with the same character. -/
theorem begins_both (ha : a.hashable = true) (hb : b.hashable = true)
    (h : a.literal.toList ++ rest = b.literal.toList ++ more) :
    ∃ c, Begins a c ∧ Begins b c := by
  obtain ⟨c, text, htext, hbegins⟩ := exists_begins ha
  obtain ⟨d, text', htext', hbegins'⟩ := exists_begins hb
  rw [htext, htext'] at h
  obtain rfl : c = d := (List.cons.inj h).1
  exact ⟨c, hbegins, hbegins'⟩

theorem Begins.mark_of_word {c : Char} (h : Begins a c) (hword : isWord a = true) : isMark c = false := by
  cases h with
  | word _ hmark => exact hmark
  | str => cases hword
  | tuple => cases hword

/-- What begins with no mark is a word. -/
theorem Begins.word_of_mark {c : Char} (h : Begins a c) (hmark : isMark c = false) :
    isWord a = true := by
  cases h with
  | word hword => exact hword
  | str hquote => rcases hquote with rfl | rfl <;> cases hmark
  | tuple => cases hmark

/-- What follows an item: nothing, or a comma or a closing bracket first. -/
def ItemEnds (rest : List Char) : Prop := ∀ c ∈ rest.head?, c = ',' ∨ c = ')' ∨ c = '\x7d'

theorem ItemEnds.isMark (h : ItemEnds rest) : ∀ c ∈ rest.head?, isMark c = true := by
  intro c hc
  rcases h c hc with rfl | rfl | rfl <;> rfl

theorem separates_items {close : Char} (hclose : close = ')' ∨ close = '\x7d') :
    Text.Separates ItemEnds ", " close where
  further rest c hc := .inl (Option.some.inj hc).symm
  closed rest c hc := .inr ((Option.some.inj hc) ▸ hclose)
  differ rest others h := by
    obtain rfl : ',' = close := (List.cons.inj h).1
    revert hclose
    decide

/-- No literal form begins with a closing bracket. -/
theorem literal_ne_close {close : Char} (hclose : close = ')' ∨ close = '\x7d')
    (h : a.hashable = true) (rest more : List Char) :
    a.literal.toList ++ rest ≠ close :: more := by
  obtain ⟨c, text, htext, hbegins⟩ := exists_begins h
  rw [htext]
  intro hsame
  obtain rfl := (List.cons.inj hsame).1
  cases hbegins with
  | word _ hmark => rcases hclose with rfl | rfl <;> cases hmark
  | str hquote => rcases hclose with rfl | rfl <;> revert hquote <;> decide
  | tuple => revert hclose; decide

/-! ### Items -/

/-- Each of the items can be told from what it begins. -/
def Tells (items others : List Value) : Prop :=
  ∀ item ∈ items, ∀ other ∈ others, ∀ rest more, ItemEnds rest → ItemEnds more →
    item.literal.toList ++ rest = other.literal.toList ++ more → item = other ∧ rest = more

/-- Items between brackets can be told if each of them can. -/
theorem items_unique {close : Char} (hclose : close = ')' ∨ close = '\x7d')
    (hitems : ∀ item ∈ items, item.hashable = true)
    (hothers : ∀ item ∈ others, item.hashable = true) (htells : Tells items others)
    (h : (itemTexts items).toList ++ close :: rest = (itemTexts others).toList ++ close :: more) :
    items = others ∧ rest = more := by
  have hopen : ∀ item ∈ items ++ others, ∀ rest more,
      item.literal.toList ++ rest ≠ close :: more := by
    intro item hitem
    exact literal_ne_close hclose ((List.mem_append.1 hitem).elim (hitems item) (hothers item))
  obtain ⟨hall, hrest⟩ := Text.parts_unique (separates_items hclose) hopen htells h
  exact ⟨List.forall₂_eq_eq_eq ▸ hall, hrest⟩

/-- A single item has a comma behind it, and other tuples have none before the bracket. -/
theorem single_ne {item : Value} (hother : ∀ other, others ≠ [other])
    (hitem : item.hashable = true) (htells : Tells [item] others) :
    item.literal.toList ++ (",)".toList ++ rest) ≠ (itemTexts others).toList ++ ')' :: more := by
  intro h
  cases others with
  | nil => exact literal_ne_close (.inl rfl) hitem _ _ h
  | cons first others =>
      cases others with
      | nil => exact hother first rfl
      | cons second others =>
          rw [itemTexts, List.map_cons, Text.toList_intercalate_cons, List.append_assoc,
            List.map_cons, List.flatMap_cons, List.append_assoc, List.append_assoc] at h
          have hends : ∀ rest : List Char, ItemEnds (',' :: rest) :=
            fun rest c hc => .inl (Option.some.inj hc).symm
          obtain ⟨-, hmore⟩ := htells item (List.mem_singleton_self item) first List.mem_cons_self _ _
            (hends _) (hends _) h
          cases (List.cons.inj (List.cons.inj hmore).2).1

/-- Tuples can be told if their items can. -/
theorem tuple_unique (hitems : ∀ item ∈ items, item.hashable = true)
    (hothers : ∀ item ∈ others, item.hashable = true) (htells : Tells items others)
    (h : (Value.tuple items).literal.toList ++ rest =
      (Value.tuple others).literal.toList ++ more) : items = others ∧ rest = more := by
  have hsingle : ∀ (item : Value) (rest : List Char),
      (Value.tuple [item]).literal.toList ++ rest =
        '(' :: (item.literal.toList ++ (",)".toList ++ rest)) := by
    intro item rest
    rw [literal, String.toList_append, String.toList_append, List.append_assoc, List.append_assoc]
    rfl
  have hlist : ∀ (items : List Value) (rest : List Char), (∀ item, items ≠ [item]) →
      (Value.tuple items).literal.toList ++ rest =
        '(' :: ((itemTexts items).toList ++ ')' :: rest) := by
    intro items rest hitems
    rw [literal_tuple hitems, String.toList_append, String.toList_append, List.append_assoc,
      List.append_assoc]
    rfl
  by_cases hone : ∃ item, items = [item]
  · obtain ⟨item, rfl⟩ := hone
    rw [hsingle] at h
    by_cases hother : ∃ other, others = [other]
    · obtain ⟨other, rfl⟩ := hother
      rw [hsingle] at h
      have hends : ∀ rest : List Char, ItemEnds (',' :: rest) :=
        fun rest c hc => .inl (Option.some.inj hc).symm
      obtain ⟨rfl, hmore⟩ := htells item (List.mem_singleton_self item) other
        (List.mem_singleton_self other) _ _ (hends _) (hends _) (List.cons.inj h).2
      have hlast : ",)".toList ++ rest = ",)".toList ++ more := hmore
      exact ⟨rfl, List.append_cancel_left hlast⟩
    · rw [hlist others _ (not_exists.1 hother)] at h
      exact absurd (List.cons.inj h).2 (single_ne (not_exists.1 hother)
        (hitems item (List.mem_singleton_self item)) htells)
  · rw [hlist items _ (not_exists.1 hone)] at h
    by_cases hother : ∃ other, others = [other]
    · obtain ⟨other, rfl⟩ := hother
      rw [hsingle] at h
      refine absurd (List.cons.inj h).2.symm (single_ne (not_exists.1 hone)
        (hothers other (List.mem_singleton_self other)) ?_)
      intro item hitem found hfound rest more hends hends' hsame
      obtain ⟨hvalue, hmore⟩ := htells found hfound item hitem more rest hends' hends hsame.symm
      exact ⟨hvalue.symm, hmore.symm⟩
    · rw [hlist others _ (not_exists.1 hother)] at h
      exact items_unique (.inl rfl) hitems hothers htells (List.cons.inj h).2

/-! ### Values -/

/-- Words of one literal form are the same, if their numbers have 64 bits. -/
theorem eq_of_word (ha : a.Proper) (hb : b.Proper) (hword : isWord a = true)
    (hword' : isWord b = true) (h : a.literal = b.literal) : a = b := by
  rcases wording_literal.word_cases hword hword' h with rfl | ⟨x, y, rfl, rfl, hrender⟩
  · rfl
  · cases ha with
    | float hx =>
        cases hb with
        | float hy => rw [Binary64.render_injective (.inl rfl) hx hy hrender]

/-- A text that begins with a word begins with no other literal form. -/
theorem word_unique (ha : a.Proper) (hb : b.Proper) (hhash : a.hashable = true)
    (hhash' : b.hashable = true) (hword : isWord a = true) (hrest : ItemEnds rest)
    (hmore : ItemEnds more) (h : a.literal.toList ++ rest = b.literal.toList ++ more) :
    a = b ∧ rest = more := by
  obtain ⟨c, hbegins, hbegins'⟩ := begins_both hhash hhash' h
  have hword' := hbegins'.word_of_mark (hbegins.mark_of_word hword)
  obtain ⟨hsame, hlast⟩ := Text.word_unique (wording_literal.isMark_word hword)
    (wording_literal.isMark_word hword') hrest.isMark hmore.isMark h
  exact ⟨eq_of_word ha hb hword hword' (String.toList_inj.1 hsame), hlast⟩

/-- A text begins with one literal form, or with those of two tuples. -/
theorem literal_cases (ha : a.Proper) (hb : b.Proper) (hhash : a.hashable = true)
    (hhash' : b.hashable = true) (hrest : ItemEnds rest) (hmore : ItemEnds more)
    (h : a.literal.toList ++ rest = b.literal.toList ++ more) :
    a = b ∧ rest = more ∨ ∃ items others, a = .tuple items ∧ b = .tuple others := by
  obtain ⟨c, hbegins, hbegins'⟩ := begins_both hhash hhash' h
  cases hbegins with
  | word hword => exact .inl (word_unique ha hb hhash hhash' hword hrest hmore h)
  | str hquote =>
      cases hbegins' with
      | word hword =>
          obtain ⟨hsame, hlast⟩ := word_unique hb ha hhash' hhash hword hmore hrest h.symm
          exact .inl ⟨hsame.symm, hlast.symm⟩
      | str =>
          obtain ⟨rfl, hlast⟩ := Text.quoted_unique h
          exact .inl ⟨rfl, hlast⟩
      | tuple => rcases hquote with hquote | hquote <;> cases hquote
  | tuple =>
      cases hbegins' with
      | word hword =>
          obtain ⟨hsame, hlast⟩ := word_unique hb ha hhash' hhash hword hmore hrest h.symm
          exact .inl ⟨hsame.symm, hlast.symm⟩
      | str hquote => rcases hquote with hquote | hquote <;> cases hquote
      | tuple => exact .inr ⟨_, _, rfl, rfl⟩

/-- A text begins with the literal form of one hashable value at most, if what follows is set off
from it. -/
theorem literal_unique (ha : a.Proper) (hb : b.Proper) (hhash : a.hashable = true)
    (hhash' : b.hashable = true) (hrest : ItemEnds rest) (hmore : ItemEnds more)
    (h : a.literal.toList ++ rest = b.literal.toList ++ more) : a = b ∧ rest = more := by
  induction a generalizing b rest more with
  | tuple items ih =>
      rcases literal_cases ha hb hhash hhash' hrest hmore h with hsame | ⟨_, others, hitems, rfl⟩
      · exact hsame
      · cases hitems
        cases ha with
        | tuple hproper =>
            cases hb with
            | tuple hproper' =>
                have hitems := hashableAll_iff.1 hhash
                have hothers := hashableAll_iff.1 hhash'
                obtain ⟨rfl, hlast⟩ := tuple_unique hitems hothers
                  (fun item hitem other hother _ _ => ih item hitem (hproper item hitem)
                    (hproper' other hother) (hitems item hitem) (hothers other hother)) h
                exact ⟨rfl, hlast⟩
  | _ =>
      refine (literal_cases ha hb hhash hhash' hrest hmore h).resolve_right ?_
      rintro ⟨_, _, htuple, _⟩
      cases htuple

/-- Sets of one literal form have the same items in the same order. -/
theorem literal_set_injective (ha : (Value.set items).Proper) (hb : (Value.set others).Proper)
    (h : (Value.set items).literal = (Value.set others).literal) : items = others := by
  cases ha with
  | set hproper hhash =>
      cases hb with
      | set hproper' hhash' =>
          have htext := congrArg String.toList h
          have hfull : ∀ {items : List Value}, items ≠ [] → (Value.set items).literal.toList =
              '\x7b' :: ((itemTexts items).toList ++ '\x7d' :: []) := by
            intro items hitems
            rw [literal_set hitems, String.toList_append, String.toList_append, List.append_assoc]
            rfl
          by_cases hitems : items = []
          · by_cases hothers : others = []
            · rw [hitems, hothers]
            · rw [hitems, hfull hothers] at htext
              cases (List.cons.inj htext).1
          · by_cases hothers : others = []
            · rw [hothers, hfull hitems] at htext
              cases (List.cons.inj htext).1
            · rw [hfull hitems, hfull hothers] at htext
              have htells : Tells items others := fun item hitem other hother _ _ =>
                literal_unique (hproper item hitem) (hproper' other hother) (hhash item hitem)
                  (hhash' other hother)
              exact (items_unique (.inr rfl) hhash hhash' htells (List.cons.inj htext).2).1

end Rulebook.Value
