import Rulebook.Proofs.Json.Strings
import Rulebook.Proofs.Json.Words

/-!
Canonical JSON text.

Two JSON values have one canonical text if and only if they are alike (`canonical_eq_iff`).  A text
begins with the text of one value at most, up to likeness, if what follows is set off from it
(`alike_of_append`): this is what passes from the parts of a value to the whole.
-/

namespace Rulebook

/-- Sorting and mapping, where the order is that of the images. -/
theorem sortBy_map {α β : Type} {le : α → α → Bool} {le' : β → β → Bool} {f : α → β}
    (h : ∀ a b, le' (f a) (f b) = le a b) (items : List α) :
    sortBy le' (items.map f) = (sortBy le items).map f := by
  have hinsert : ∀ (item : α) (others : List α),
      insertBy le' (f item) (others.map f) = (insertBy le item others).map f := by
    intro item others
    induction others with
    | nil => rfl
    | cons other rest ih =>
        rw [List.map_cons, insertBy, insertBy, h, ih]
        split <;> rfl
  induction items with
  | nil => rfl
  | cons item rest ih => rw [List.map_cons, sortBy, sortBy, ih, hinsert]

namespace Json

variable {a b : Value} {rest others : List Char}

theorem writeItems_eq_map (style : Style) (items : List Value) :
    writeItems style items = items.map (write style) := by
  induction items with
  | nil => rfl
  | cons item items ih => rw [writeItems, ih, List.map_cons]

theorem writeMembers_eq_map (style : Style) (members : Members) :
    writeMembers style members = members.map fun member => (member.1, write style member.2) := by
  induction members with
  | nil => rfl
  | cons member members ih => rw [writeMembers, ih, List.map_cons]

/-- The text of a member. -/
def member (entry : String × Value) : String := string entry.1 ++ ":" ++ canonical entry.2

theorem canonical_list (items : List Value) :
    canonical (.list items) = "[" ++ ",".intercalate (items.map canonical) ++ "]" := by
  rw [canonical, write, writeItems_eq_map]
  rfl

theorem canonical_object (members : Members) : canonical (.object members) =
    "\x7b" ++ ",".intercalate ((Table.sorted members).map member) ++ "\x7d" := by
  have hsorted : sortBy (fun a b : String × String => decide (a.1 ≤ b.1))
      (writeMembers .canonical members) =
        (Table.sorted members).map fun entry => (entry.1, canonical entry.2) := by
    rw [writeMembers_eq_map]
    exact sortBy_map (fun _ _ => rfl) members
  change "\x7b" ++ ",".intercalate ((sortBy (fun a b : String × String => decide (a.1 ≤ b.1))
    (writeMembers .canonical members)).map fun entry => string entry.1 ++ ":" ++ entry.2) ++ "\x7d" = _
  rw [hsorted, List.map_map]
  rfl

/-- A comma and a closing bracket set off the parts of an array or an object. -/
theorem separates_comma {close : Char} (hclose : close = ']' ∨ close = '\x7d') :
    Text.Separates Ends "," close where
  further rest c hc := .inl (Option.some.inj hc).symm
  closed rest c hc := .inr ((Option.some.inj hc) ▸ hclose)
  differ rest others h := by
    obtain rfl : ',' = close := (List.cons.inj h).1
    revert hclose
    decide

/-! ### Values -/

/-- The bracket or quote with which the text of a value begins; words begin with neither. -/
def opening : Value → Option Char
  | .str _ | .set _ => some '"'
  | .list _ | .tuple _ => some '['
  | .object _ => some '\x7b'
  | _ => none

theorem isWord_of_opening {value : Value} (h : opening value = none) : isWord value = true := by
  cases value <;> first | rfl | cases h

/-- The first character of the text of a value tells how it begins. -/
theorem exists_opening (value : Value) : ∃ c text, (canonical value).toList = c :: text ∧
    opening value = if isMark c then some c else none := by
  have hword : isWord value = true → opening value = none → ∃ c text,
      (canonical value).toList = c :: text ∧ opening value = if isMark c then some c else none := by
    intro hword hopening
    obtain ⟨c, text, htext⟩ := List.exists_cons_of_ne_nil (wording_canonical.word_ne_nil hword)
    have hmark := wording_canonical.isMark_word hword c (htext ▸ List.mem_cons_self)
    exact ⟨c, text, htext, by rw [hopening, hmark]; rfl⟩
  cases value with
  | null => exact hword rfl rfl
  | bool b => exact hword rfl rfl
  | int n => exact hword rfl rfl
  | float x => exact hword rfl rfl
  | str text => exact ⟨'"', _, toList_string text, rfl⟩
  | set items => exact ⟨'"', _, toList_string _, rfl⟩
  | list items =>
      refine ⟨'[', (",".intercalate (items.map canonical) ++ "]").toList, ?_, rfl⟩
      rw [canonical_list, String.append_assoc, String.toList_append]
      rfl
  | tuple items =>
      refine ⟨'[', (",".intercalate (items.map canonical) ++ "]").toList, ?_, rfl⟩
      have hsame : canonical (.tuple items) = canonical (.list items) := by
        rw [canonical, canonical, write, write]
      rw [hsame, canonical_list, String.append_assoc, String.toList_append]
      rfl
  | object members =>
      refine ⟨'\x7b', (",".intercalate ((Table.sorted members).map member) ++ "\x7d").toList, ?_, rfl⟩
      rw [canonical_object, String.append_assoc, String.toList_append]
      rfl

theorem opening_unique (h : (canonical a).toList ++ rest = (canonical b).toList ++ others) :
    opening a = opening b := by
  obtain ⟨c, text, htext, hopening⟩ := exists_opening a
  obtain ⟨d, text', htext', hopening'⟩ := exists_opening b
  rw [htext, htext'] at h
  rw [hopening, hopening', (List.cons.inj h).1]

/-- No text of a value begins with a closing bracket. -/
theorem canonical_ne_close {close : Char} (hclose : close = ']' ∨ close = '\x7d') (value : Value)
    (rest others : List Char) : (canonical value).toList ++ rest ≠ close :: others := by
  obtain ⟨c, text, htext, hopening⟩ := exists_opening value
  rw [htext]
  intro h
  obtain rfl := (List.cons.inj h).1
  have hmark : isMark c = true := by rcases hclose with rfl | rfl <;> rfl
  rw [hmark, if_pos rfl] at hopening
  rcases hclose with rfl | rfl <;> cases value <;> cases hopening

theorem alike_of_append_word (ha : isWord a = true) (hrest : Ends rest) (hothers : Ends others)
    (h : (canonical a).toList ++ rest = (canonical b).toList ++ others) :
    a.alike b = true ∧ rest = others := by
  have hopening : opening a = none := by cases a <;> first | rfl | cases ha
  have hb := isWord_of_opening (opening_unique h ▸ hopening)
  obtain ⟨hsame, hmore⟩ := Text.word_unique (wording_canonical.isMark_word ha)
    (wording_canonical.isMark_word hb) hrest.isMark hothers.isMark h
  exact ⟨alike_of_word ha hb (String.toList_inj.1 hsame), hmore⟩

/-- A text begins with the text of one JSON value at most, up to likeness, if what follows is set
off from it. -/
theorem alike_of_append (ha : a.isJson = true) (hb : b.isJson = true) (hrest : Ends rest)
    (hothers : Ends others)
    (h : (canonical a).toList ++ rest = (canonical b).toList ++ others) :
    a.alike b = true ∧ rest = others := by
  have hopening := opening_unique h
  induction a generalizing b rest others with
  | null => exact alike_of_append_word rfl hrest hothers h
  | bool b => exact alike_of_append_word rfl hrest hothers h
  | int n => exact alike_of_append_word rfl hrest hothers h
  | float x => exact alike_of_append_word rfl hrest hothers h
  | str text =>
      cases b with
      | str other =>
          obtain ⟨rfl, hmore⟩ := string_unique h
          exact ⟨beq_self_eq_true text, hmore⟩
      | set items => cases hb
      | _ => cases hopening
  | list items ih =>
      cases b with
      | list items' =>
          rw [Value.isJson, Value.isJsonAll_iff] at ha hb
          simp only [canonical_list, String.toList_append, List.append_assoc] at h
          obtain ⟨hall, hmore⟩ := Text.parts_unique (separates_comma (.inl rfl))
            (fun x _ => canonical_ne_close (.inl rfl) x)
            (fun x hx y hy _ _ hends hends' hparts => ih x hx (ha x hx) (hb y hy) hends hends'
              hparts (opening_unique hparts)) (List.append_cancel_left h)
          exact ⟨Value.alikeItems_iff.2 hall, hmore⟩
      | tuple items => cases hb
      | _ => cases hopening
  | tuple items => cases ha
  | set items => cases ha
  | object members ih =>
      cases b with
      | object members' =>
          rw [Value.isJson_object_iff] at ha hb
          simp only [canonical_object, String.toList_append, List.append_assoc] at h
          have hmembers : ∀ x ∈ Table.sorted members, ∀ y ∈ Table.sorted members',
              ∀ rest others, Ends rest → Ends others →
                (member x).toList ++ rest = (member y).toList ++ others →
                  Value.AlikeMember x y ∧ rest = others := by
            intro x hx y hy rest others hends hends' hparts
            have hx := (Table.sorted_perm members).mem_iff.1 hx
            have hy := (Table.sorted_perm members').mem_iff.1 hy
            simp only [member, String.toList_append, List.append_assoc] at hparts
            obtain ⟨hname, hvalues⟩ := string_unique hparts
            have hvalues := List.append_cancel_left hvalues
            obtain ⟨halike, hmore⟩ := ih x hx (ha.2 x hx) (hb.2 y hy) hends hends' hvalues
              (opening_unique hvalues)
            exact ⟨⟨hname, halike⟩, hmore⟩
          have hopen : ∀ x rest others, (member x).toList ++ rest ≠ '\x7d' :: others := by
            intro x rest others hclosed
            rw [member, String.toList_append, String.toList_append, toList_string] at hclosed
            cases (List.cons.inj hclosed).1
          obtain ⟨hall, hmore⟩ := Text.parts_unique (separates_comma (.inr rfl))
            (fun x _ => hopen x) hmembers
            (List.append_cancel_left h)
          exact ⟨(Value.alike_object_iff ha.1 hb.1).2 hall, hmore⟩
      | _ => cases hopening

/-- Lists of which each pair of items has one image have one image. -/
theorem map_eq_of_forall₂ {α β : Type} {f : α → β} {Same : α → α → Prop} {xs ys : List α}
    (h : List.Forall₂ Same xs ys) (hsame : ∀ x ∈ xs, ∀ y ∈ ys, Same x y → f x = f y) :
    xs.map f = ys.map f := by
  induction h with
  | nil => rfl
  | @cons x y xs ys hxy _ ih =>
      rw [List.map_cons, List.map_cons, hsame x List.mem_cons_self y List.mem_cons_self hxy]
      rw [ih fun x hx y hy => hsame x (List.mem_cons_of_mem _ hx) y (List.mem_cons_of_mem _ hy)]

/-- JSON values that are alike have one canonical text. -/
theorem canonical_eq_of_alike (ha : a.isJson = true) (hb : b.isJson = true)
    (h : a.alike b = true) : canonical a = canonical b := by
  induction a generalizing b with
  | null => cases b <;> first | rfl | cases h
  | bool a =>
      cases b with
      | bool b => rw [eq_of_beq h]
      | _ => cases h
  | int n =>
      cases b with
      | int m => rw [eq_of_beq h]
      | _ => cases h
  | float x =>
      cases b with
      | float y => exact eq_of_beq h
      | _ => cases h
  | str text =>
      cases b with
      | str other => rw [eq_of_beq h]
      | _ => cases h
  | list items ih =>
      cases b with
      | list items' =>
          rw [Value.isJson, Value.isJsonAll_iff] at ha hb
          have hsame := map_eq_of_forall₂ (Value.alikeItems_iff.1 h) fun x hx y hy =>
            ih x hx (ha x hx) (hb y hy)
          rw [canonical_list, canonical_list, hsame]
      | _ => cases h
  | tuple items => cases h
  | set items => cases h
  | object members ih =>
      cases b with
      | object members' =>
          rw [Value.isJson_object_iff] at ha hb
          have hsame : (Table.sorted members).map member = (Table.sorted members').map member := by
            refine map_eq_of_forall₂ ((Value.alike_object_iff ha.1 hb.1).1 h) fun x hx y hy hxy => ?_
            have hx := (Table.sorted_perm members).mem_iff.1 hx
            have hy := (Table.sorted_perm members').mem_iff.1 hy
            rw [member, member, hxy.1, ih x hx (ha.2 x hx) (hb.2 y hy) hxy.2]
          rw [canonical_object, canonical_object, hsame]
      | _ => cases h

/-- Two JSON values have one canonical text if and only if they are alike. -/
theorem canonical_eq_iff (ha : a.isJson = true) (hb : b.isJson = true) :
    canonical a = canonical b ↔ a.alike b = true := by
  constructor
  · intro h
    have hnone : Ends [] := nofun
    exact (alike_of_append ha hb hnone hnone (by rw [h])).1
  · exact canonical_eq_of_alike ha hb

end Json

end Rulebook
