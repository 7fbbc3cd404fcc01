import Mathlib.Data.List.Forall2
import Mathlib.Data.List.Nodup
import Mathlib.Data.List.Perm.Subperm
import Rulebook.Json.Writer
import Rulebook.Proofs.Table

/-!
JSON values up to the order of members.

`alike` compares two values member by member, whatever the order of members at any depth.  Objects
in which no name comes twice are alike if their members are, once both are sorted by name
(`alike_object_iff`).
-/

namespace Rulebook

/-- Of lists that are related item by item, each item of the second has its counterpart in the
first. -/
theorem exists_of_mem_right {α β : Type} {Related : α → β → Prop} {xs : List α} {ys : List β}
    (h : List.Forall₂ Related xs ys) {y : β} (hy : y ∈ ys) : ∃ x ∈ xs, Related x y := by
  induction h with
  | nil => cases hy
  | @cons x other xs ys hrelated _ ih =>
      rcases List.mem_cons.1 hy with rfl | hrest
      · exact ⟨x, List.mem_cons_self, hrelated⟩
      · obtain ⟨found, hfound, hsame⟩ := ih hrest
        exact ⟨found, List.mem_cons_of_mem _ hfound, hsame⟩

@[elab_as_elim, induction_eliminator]
theorem Value.induction {motive : Value → Prop} (null : motive .null)
    (bool : ∀ b, motive (.bool b)) (int : ∀ n, motive (.int n)) (float : ∀ x, motive (.float x))
    (str : ∀ text, motive (.str text))
    (list : ∀ items, (∀ item ∈ items, motive item) → motive (.list items))
    (tuple : ∀ items, (∀ item ∈ items, motive item) → motive (.tuple items))
    (set : ∀ items, (∀ item ∈ items, motive item) → motive (.set items))
    (object : ∀ members : Members, (∀ member ∈ members, motive member.2) →
      motive (.object members))
    (value : Value) : motive value :=
  @Value.rec motive (fun items => ∀ item ∈ items, motive item)
    (fun members => ∀ member ∈ members, motive member.2) (fun member => motive member.2)
    null bool int float str list tuple set object
    (fun _ h => nomatch h)
    (fun _ _ hfirst hrest _ hitem => (List.mem_cons.1 hitem).elim (· ▸ hfirst) (hrest _))
    (fun _ h => nomatch h)
    (fun _ _ hfirst hrest _ hmember => (List.mem_cons.1 hmember).elim (· ▸ hfirst) (hrest _))
    (fun _ _ h => h)
    value

namespace Value

mutual

/-- Is this the same JSON value, whatever the order of members?  Numbers are told apart by their
JSON texts, so a whole number is never a floating point number. -/
def alike : Value → Value → Bool
  | .null, .null => true
  | .bool a, .bool b => a == b
  | .int a, .int b => a == b
  | .float a, .float b => Binary64.Layout.json.render a == Binary64.Layout.json.render b
  | .str a, .str b => a == b
  | .list a, .list b => alikeItems a b
  | .object a, .object b => a.length == b.length && alikeMembers a b
  | _, _ => false

/-- Item by item. -/
def alikeItems : List Value → List Value → Bool
  | [], [] => true
  | a :: as, b :: bs => a.alike b && alikeItems as bs
  | _, _ => false

/-- Is there for each member one of the same name that is alike? -/
def alikeMembers : List (String × Value) → List (String × Value) → Bool
  | [], _ => true
  | (name, a) :: as, bs =>
      (match Table.find? (κ := String) bs name with
        | some b => a.alike b
        | none => false) && alikeMembers as bs

end

mutual

/-- Is this a value of JSON: no tuples and no sets, and no name twice in an object? -/
def isJson : Value → Bool
  | .tuple _ => false
  | .set _ => false
  | .list items => isJsonAll items
  | .object members => decide (members.map Prod.fst).Nodup && isJsonMembers members
  | _ => true

/-- Are all the items values of JSON? -/
def isJsonAll : List Value → Bool
  | [] => true
  | item :: rest => item.isJson && isJsonAll rest

/-- Are all the members values of JSON? -/
def isJsonMembers : List (String × Value) → Bool
  | [] => true
  | (_, value) :: rest => value.isJson && isJsonMembers rest

end

variable {a b : Value} {as bs : List Value} {first second : Members}

theorem isJsonAll_iff : isJsonAll as = true ↔ ∀ a ∈ as, a.isJson = true := by
  induction as with
  | nil => simp [isJsonAll]
  | cons a as ih => simp [isJsonAll, ih]

theorem isJsonMembers_iff :
    isJsonMembers first = true ↔ ∀ member ∈ first, member.2.isJson = true := by
  induction first with
  | nil => simp [isJsonMembers]
  | cons member rest ih =>
      obtain ⟨name, value⟩ := member
      rw [isJsonMembers, Bool.and_eq_true, ih, List.forall_mem_cons]

theorem isJson_object_iff : (Value.object first).isJson = true ↔
    (first.map Prod.fst).Nodup ∧ ∀ member ∈ first, member.2.isJson = true := by
  rw [isJson, Bool.and_eq_true, decide_eq_true_iff, isJsonMembers_iff]

theorem alikeItems_iff :
    alikeItems as bs = true ↔ List.Forall₂ (fun a b => a.alike b = true) as bs := by
  induction as generalizing bs with
  | nil => cases bs <;> simp [alikeItems]
  | cons a as ih =>
      cases bs with
      | nil => simp [alikeItems]
      | cons b bs => simp [alikeItems, ih]

theorem alikeMembers_iff : alikeMembers first second = true ↔
    ∀ member ∈ first, ∃ b, Table.find? second member.1 = some b ∧ member.2.alike b = true := by
  induction first with
  | nil => simp [alikeMembers]
  | cons member rest ih =>
      obtain ⟨name, a⟩ := member
      rw [alikeMembers, Bool.and_eq_true, ih, List.forall_mem_cons]
      refine and_congr_left fun _ => ?_
      dsimp only
      cases Table.find? second name with
      | none => simp
      | some b => simp

end Value

/-! ### Members in order -/

namespace Table

variable {α : Type} {table : Table String α}

theorem mem_of_find? {name : String} {value : α} (h : table.find? name = some value) :
    (name, value) ∈ table := by
  obtain ⟨known, hknown, hmem⟩ := exists_mem_of_find? h
  rwa [← eq_of_beq hknown]

/-- Where no name comes twice, every entry is the one that is found under its name. -/
theorem find?_of_mem (hnodup : (table.map Prod.fst).Nodup) {entry : String × α}
    (h : entry ∈ table) : table.find? entry.1 = some entry.2 := by
  induction table with
  | nil => cases h
  | cons head rest ih =>
      rw [List.map_cons, List.nodup_cons] at hnodup
      rw [find?]
      rcases List.mem_cons.1 h with rfl | hrest
      · rw [if_pos (beq_self_eq_true _)]
      · rw [if_neg, ih hnodup.2 hrest]
        intro hsame
        apply hnodup.1
        rw [eq_of_beq hsame]
        exact List.mem_map_of_mem hrest

/-- The entries in the order of their names. -/
def sorted (table : Table String α) : Table String α := sortBy (fun a b => a.1 ≤ b.1) table

theorem sorted_perm (table : Table String α) : (sorted table).Perm table := sortBy_perm _ table

theorem pairwise_names_sorted (table : Table String α) :
    ((sorted table).map Prod.fst).Pairwise (· ≤ ·) := by
  rw [List.pairwise_map]
  have hsorted : (sorted table).Pairwise fun a b => decide (a.1 ≤ b.1) = true := by
    apply sortBy_pairwise
    · intro a b
      simpa using String.le_total a.1 b.1
    · intro a b c hab hbc
      exact decide_eq_true (String.le_trans (of_decide_eq_true hab) (of_decide_eq_true hbc))
  exact hsorted.imp fun h => of_decide_eq_true h

end Table

namespace Value

variable {first second : Members}

/-- Members of one name that are alike. -/
def AlikeMember (first second : String × Value) : Prop :=
  first.1 = second.1 ∧ first.2.alike second.2 = true

/-- Objects that are alike have the same names. -/
theorem names_perm_of_alike (hfirst : (first.map Prod.fst).Nodup)
    (h : (Value.object first).alike (.object second) = true) :
    (first.map Prod.fst).Perm (second.map Prod.fst) := by
  rw [alike, Bool.and_eq_true, beq_iff_eq, alikeMembers_iff] at h
  have hsubset : first.map Prod.fst ⊆ second.map Prod.fst := by
    intro name hname
    obtain ⟨member, hmember, rfl⟩ := List.mem_map.1 hname
    obtain ⟨b, hb, _⟩ := h.2 member hmember
    exact List.mem_map.2 ⟨_, Table.mem_of_find? hb, rfl⟩
  exact (List.subperm_of_subset hfirst hsubset).perm_of_length_le (by simp [h.1])

/-- Where no name comes twice, members of one name are alike if and only if the two objects are,
member by member in the order of names. -/
theorem alike_object_iff (hfirst : (first.map Prod.fst).Nodup)
    (hsecond : (second.map Prod.fst).Nodup) :
    (Value.object first).alike (.object second) = true ↔
      List.Forall₂ AlikeMember (Table.sorted first) (Table.sorted second) := by
  have hperm := Table.sorted_perm first
  have hperm' := Table.sorted_perm second
  constructor
  · intro h
    have hnames := names_perm_of_alike hfirst h
    rw [alike, Bool.and_eq_true, beq_iff_eq, alikeMembers_iff] at h
    obtain ⟨hlength, hmembers⟩ := h
    have hsame : (Table.sorted first).map Prod.fst = (Table.sorted second).map Prod.fst := by
      have hsorted := ((hperm.map Prod.fst).trans hnames).trans (hperm'.map Prod.fst).symm
      exact hsorted.eq_of_pairwise (fun _ _ _ _ => String.le_antisymm) (Table.pairwise_names_sorted first)
        (Table.pairwise_names_sorted second)
    rw [List.forall₂_iff_get]
    have hlengths : (Table.sorted first).length = (Table.sorted second).length := by
      simpa using congrArg List.length hsame
    refine ⟨hlengths, fun place hplace hplace' => ?_⟩
    have hname : ((Table.sorted first).get ⟨place, hplace⟩).1 =
        ((Table.sorted second).get ⟨place, hplace'⟩).1 := by
      have hget := List.getElem_of_eq hsame (i := place) (by simpa using hplace)
      simpa using hget
    refine ⟨hname, ?_⟩
    obtain ⟨b, hb, halike⟩ := hmembers _ (hperm.mem_iff.1 (List.get_mem _ _))
    have hfound := Table.find?_of_mem hsecond
      (hperm'.mem_iff.1 (List.get_mem (Table.sorted second) ⟨place, hplace'⟩))
    rw [hname, hfound, Option.some.injEq] at hb
    rwa [hb]
  · intro hforall
    rw [alike, Bool.and_eq_true, beq_iff_eq, alikeMembers_iff]
    refine ⟨?_, fun member hmember => ?_⟩
    · rw [← hperm.length_eq, ← hperm'.length_eq]
      exact hforall.length_eq
    · obtain ⟨other, hother, hname, halike⟩ :=
        exists_of_mem_right hforall.flip (hperm.mem_iff.2 hmember)
      have hfound := Table.find?_of_mem hsecond (hperm'.mem_iff.1 hother)
      exact ⟨other.2, hname ▸ hfound, halike⟩

example : alike (.object [("b", .list [.int 2]), ("a", .float .one)])
    (.object [("a", .float .one), ("b", .list [.int 2])]) = true ∧
    alike (.int 1) (.float .one) = false := by
  decide +kernel

end Value

end Rulebook
