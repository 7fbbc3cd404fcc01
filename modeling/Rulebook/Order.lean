/-!
Stable sorting.  An item is put in front of the first one that it may precede, the last item first,
so items that may precede each other both ways keep their order.

`sortBy_perm` and `sortBy_pairwise` say that sorting moves the items into order and does nothing
else; `sortBy_eq_self` says that it leaves alone what is in order.
-/

namespace Rulebook

variable {α : Type}

/-- Put an item in front of the first one that it may precede. -/
def insertBy (le : α → α → Bool) (item : α) : List α → List α
  | [] => [item]
  | other :: rest =>
      if le item other then item :: other :: rest else other :: insertBy le item rest

/-- The items in order; those that may precede each other both ways keep their order. -/
def sortBy (le : α → α → Bool) : List α → List α
  | [] => []
  | item :: rest => insertBy le item (sortBy le rest)

theorem insertBy_perm (le : α → α → Bool) (item : α) (items : List α) :
    (insertBy le item items).Perm (item :: items) := by
  induction items with
  | nil => exact .refl _
  | cons other rest ih =>
      by_cases h : le item other = true
      · simp [insertBy, h]
      · simp only [insertBy, h, Bool.false_eq_true, ↓reduceIte]
        exact (ih.cons other).trans (.swap item other rest)

theorem sortBy_perm (le : α → α → Bool) (items : List α) : (sortBy le items).Perm items := by
  induction items with
  | nil => exact .refl _
  | cons item rest ih => exact (insertBy_perm le item _).trans (ih.cons item)

theorem insertBy_pairwise {le : α → α → Bool} (total : ∀ a b, le a b = true ∨ le b a = true)
    (trans : ∀ a b c, le a b = true → le b c = true → le a c = true) (item : α) {items : List α}
    (sorted : items.Pairwise fun a b => le a b = true) :
    (insertBy le item items).Pairwise fun a b => le a b = true := by
  induction items with
  | nil => simp [insertBy]
  | cons other rest ih =>
      rw [List.pairwise_cons] at sorted
      by_cases h : le item other = true
      · simp only [insertBy, h, ↓reduceIte, List.pairwise_cons]
        refine ⟨?_, sorted⟩
        intro b hb
        rcases List.mem_cons.mp hb with rfl | hb
        · exact h
        · exact trans _ _ _ h (sorted.1 b hb)
      · simp only [insertBy, h, Bool.false_eq_true, ↓reduceIte, List.pairwise_cons]
        refine ⟨?_, ih sorted.2⟩
        intro b hb
        rcases List.mem_cons.mp ((insertBy_perm le item rest).mem_iff.mp hb) with rfl | hb
        · exact (total b other).resolve_left h
        · exact sorted.1 b hb

theorem sortBy_pairwise {le : α → α → Bool} (total : ∀ a b, le a b = true ∨ le b a = true)
    (trans : ∀ a b c, le a b = true → le b c = true → le a c = true) (items : List α) :
    (sortBy le items).Pairwise fun a b => le a b = true := by
  induction items with
  | nil => exact .nil
  | cons item rest ih => exact insertBy_pairwise total trans item ih

theorem sortBy_eq_self {le : α → α → Bool} {items : List α}
    (sorted : items.Pairwise fun a b => le a b = true) : sortBy le items = items := by
  induction items with
  | nil => rfl
  | cons item rest ih =>
      rw [List.pairwise_cons] at sorted
      rw [sortBy, ih sorted.2]
      cases rest with
      | nil => rfl
      | cons other rest => simp [insertBy, sorted.1 other List.mem_cons_self]

example : sortBy (fun a b : Nat × Nat => a.1 ≤ b.1) [(2, 0), (1, 1), (2, 2), (1, 3)] =
    [(1, 1), (1, 3), (2, 0), (2, 2)] := by
  decide

end Rulebook
