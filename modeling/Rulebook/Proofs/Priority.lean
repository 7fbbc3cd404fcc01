import Mathlib.Data.List.Basic
import Mathlib.Data.List.Induction
import Rulebook.Priority
import Rulebook.Proofs.Table

/-!
Batches of one priority each.

Whatever the items are, the batches are those of the priorities that come up, in ascending order, and
each of them holds the items of its priority in their order (`batchesBy_eq`).  One after the other,
the batches are the items in the order of their priorities, where items of one priority keep their
order (`batchesBy_flatten`, `filter_sortBy`).
-/

namespace Rulebook

variable {α : Type} {priority : α → Nat}

/-! ### In the order of priorities -/

/-- Is the priority of the first no greater? -/
def precedes (priority : α → Nat) (item other : α) : Bool := priority item ≤ priority other

theorem sortBy_precedes (priority : α → Nat) (items : List α) :
    (sortBy (precedes priority) items).Pairwise fun item other => priority item ≤ priority other := by
  have hsorted : (sortBy (precedes priority) items).Pairwise
      fun item other => precedes priority item other = true :=
    sortBy_pairwise (fun item other => by simpa [precedes] using Nat.le_total _ _)
      (fun item other last => by simpa [precedes] using Nat.le_trans) items
  exact hsorted.imp fun hle => of_decide_eq_true hle

/-- The items of one priority. -/
def ofLevel (priority : α → Nat) (items : List α) (level : Nat) : List α :=
  items.filter fun item => priority item = level

theorem mem_ofLevel {items : List α} {level : Nat} {item : α} :
    item ∈ ofLevel priority items level ↔ item ∈ items ∧ priority item = level := by
  rw [ofLevel, List.mem_filter, decide_eq_true_iff]

theorem ofLevel_concat (items : List α) (item : α) (level : Nat) :
    ofLevel priority (items ++ [item]) level =
      ofLevel priority items level ++ if priority item = level then [item] else [] := by
  rw [ofLevel, List.filter_append, ← ofLevel]
  by_cases h : priority item = level <;> simp [h]

theorem ofLevel_eq_nil {items : List α} {level : Nat} :
    ofLevel priority items level = [] ↔ ∀ item ∈ items, priority item ≠ level := by
  simp [ofLevel]

/-- Sorting is stable: items of one priority keep their order. -/
theorem filter_sortBy (priority : α → Nat) (items : List α) (level : Nat) :
    (sortBy (precedes priority) items).filter (fun item => priority item = level) =
      items.filter fun item => priority item = level := by
  have hinsert : ∀ (item : α) (others : List α),
      (insertBy (precedes priority) item others).filter (fun item => priority item = level) =
        (item :: others).filter fun item => priority item = level := by
    intro item others
    induction others with
    | nil => rfl
    | cons other rest ih =>
        rw [insertBy]
        split
        · rfl
        · next hnot =>
            -- The priority of the other is less, so the two are not of one priority.
            have hlt : priority other < priority item := by simpa [precedes] using hnot
            rw [List.filter_cons, ih]
            by_cases hitem : priority item = level
            · have hother : ¬ priority other = level := by omega
              simp [hitem, hother]
            · simp [List.filter_cons, hitem]
  induction items with
  | nil => rfl
  | cons item rest ih =>
      rw [sortBy, hinsert, List.filter_cons, List.filter_cons, ih]

theorem mem_iff_of_ofLevel_eq {items others : List α}
    (h : ∀ level, ofLevel priority items level = ofLevel priority others level) (item : α) :
    item ∈ items ↔ item ∈ others := by
  have hsame : item ∈ ofLevel priority items (priority item) ↔
      item ∈ ofLevel priority others (priority item) := by rw [h]
  simpa [mem_ofLevel] using hsame

/-- Lists in the order of priorities are the same if they have the same items of each priority. -/
theorem eq_of_ofLevel_eq {items others : List α}
    (hitems : items.Pairwise fun item other => priority item ≤ priority other)
    (hothers : others.Pairwise fun item other => priority item ≤ priority other)
    (h : ∀ level, ofLevel priority items level = ofLevel priority others level) :
    items = others := by
  induction items generalizing others with
  | nil =>
      exact (List.eq_nil_iff_forall_not_mem.2 fun item hitem =>
        nomatch (mem_iff_of_ofLevel_eq h item).2 hitem).symm
  | cons first rest ih =>
      have hmem := mem_iff_of_ofLevel_eq h
      cases others with
      | nil => exact nomatch (hmem first).1 List.mem_cons_self
      | cons other others =>
          obtain ⟨hfirst, hrest⟩ := List.pairwise_cons.1 hitems
          obtain ⟨hother, hothers⟩ := List.pairwise_cons.1 hothers
          have hlevel : priority first = priority other := by
            refine Nat.le_antisymm ?_ ?_
            · rcases List.mem_cons.1 ((hmem other).2 List.mem_cons_self) with rfl | hin
              · exact Nat.le_refl _
              · exact hfirst other hin
            · rcases List.mem_cons.1 ((hmem first).1 List.mem_cons_self) with rfl | hin
              · exact Nat.le_refl _
              · exact hother first hin
          -- The first ones are of one priority, so they are the first ones of it.
          have hheads := h (priority first)
          rw [ofLevel, ofLevel, List.filter_cons_of_pos (by simp),
            List.filter_cons_of_pos (by simp [hlevel]), List.cons.injEq] at hheads
          obtain ⟨hheads, htails⟩ := hheads
          have hlevels : ∀ level, ofLevel priority rest level = ofLevel priority others level := by
            intro level
            by_cases hsame : priority first = level
            · exact hsame ▸ htails
            · have hall := h level
              rwa [ofLevel, ofLevel, List.filter_cons_of_neg (by simpa using hsame),
                List.filter_cons_of_neg (by simpa [← hlevel] using hsame)] at hall
          rw [hheads, ih hrest hothers hlevels]

/-- Sorting by priorities is the stable sort. -/
theorem sortBy_precedes_eq_mergeSort (priority : α → Nat) (items : List α) :
    sortBy (precedes priority) items = items.mergeSort (precedes priority) := by
  have htrans : ∀ item other last : α, precedes priority item other = true →
      precedes priority other last = true → precedes priority item last = true :=
    fun item other last => by simpa [precedes] using Nat.le_trans
  have htotal : ∀ item other : α, (precedes priority item other || precedes priority other item) = true :=
    fun item other => by simpa [precedes] using Nat.le_total _ _
  have hsorted := (List.pairwise_mergeSort htrans htotal items).imp fun hle => of_decide_eq_true hle
  refine eq_of_ofLevel_eq (sortBy_precedes priority items) hsorted fun level => ?_
  have hlevel : (ofLevel priority items level).Pairwise fun item other =>
      precedes priority item other = true :=
    List.pairwise_of_forall_mem_list fun item hitem other hother => decide_eq_true
      (Nat.le_of_eq ((mem_ofLevel.1 hitem).2.trans (mem_ofLevel.1 hother).2.symm))
  have hsublist : (ofLevel priority items level).Sublist (items.mergeSort (precedes priority)) :=
    List.sublist_mergeSort htrans htotal hlevel List.filter_sublist
  have hkept := hsublist.filter fun item => priority item = level
  rw [ofLevel, List.filter_filter] at hkept
  simp only [Bool.and_self] at hkept
  refine (filter_sortBy priority items level).trans (hkept.eq_of_length ?_)
  exact ((List.mergeSort_perm items _).filter _).length_eq.symm

/-! ### Collecting -/

/-- The items by priority, in the order in which the priorities come up. -/
def collected (priority : α → Nat) (items : List α) : Table Nat (List α) :=
  items.foldl (fun batches item => collect batches (priority item) item) []

theorem collected_concat (priority : α → Nat) (items : List α) (item : α) :
    collected priority (items ++ [item]) = collect (collected priority items) (priority item) item := by
  rw [collected, List.foldl_append]
  rfl

/-- Under each priority that comes up stand its items. -/
theorem find?_collected (priority : α → Nat) (items : List α) (level : Nat) :
    (collected priority items).find? level =
      if (ofLevel priority items level).isEmpty then none else some (ofLevel priority items level) := by
  induction items using List.reverseRecOn generalizing level with
  | nil => rfl
  | append_singleton items item ih =>
      rw [collected_concat, collect, Table.find?_insert, ofLevel_concat]
      by_cases hlevel : priority item = level
      · subst hlevel
        rw [ih]
        cases ofLevel priority items (priority item) <;> simp
      · simp [hlevel, ih]

theorem nodup_keys_collected (priority : α → Nat) (items : List α) :
    (collected priority items).keys.Nodup := by
  induction items using List.reverseRecOn with
  | nil => exact List.nodup_nil
  | append_singleton items item ih =>
      rw [collected_concat, collect]
      exact Table.nodup_keys_insert _ _ ih

/-! ### Priorities -/

/-- The priorities that come up, in ascending order. -/
def levels (priority : α → Nat) (items : List α) : List Nat :=
  sortBy (fun a b => a ≤ b) (collected priority items).keys

theorem mem_levels {items : List α} {level : Nat} :
    level ∈ levels priority items ↔ ∃ item ∈ items, priority item = level := by
  rw [levels, (sortBy_perm _ _).mem_iff, Table.mem_keys_iff, Table.has, find?_collected]
  cases hitems : ofLevel priority items level with
  | nil => simpa using ofLevel_eq_nil.1 hitems
  | cons item rest =>
      have hitem : item ∈ ofLevel priority items level := hitems ▸ List.mem_cons_self
      exact ⟨fun _ => ⟨item, mem_ofLevel.1 hitem⟩, fun _ => rfl⟩

theorem levels_ascending (priority : α → Nat) (items : List α) :
    (levels priority items).Pairwise (· < ·) := by
  have hsorted : (levels priority items).Pairwise fun a b => decide (a ≤ b) = true :=
    sortBy_pairwise (fun a b => by simpa using Nat.le_total a b)
      (fun a b c => by simpa using Nat.le_trans) _
  have hdistinct : (levels priority items).Nodup :=
    (sortBy_perm _ _).nodup_iff.2 (nodup_keys_collected priority items)
  exact hsorted.imp₂ (fun _ _ hle hne => Nat.lt_of_le_of_ne (of_decide_eq_true hle) hne) hdistinct

/-- Nothing but the numbers in an ascending list matters to it. -/
theorem eq_of_ascending {numbers others : List Nat} (h : numbers.Pairwise (· < ·))
    (hothers : others.Pairwise (· < ·)) (hmem : ∀ n, n ∈ numbers ↔ n ∈ others) :
    numbers = others := by
  have hperm : numbers.Perm others :=
    (List.perm_ext_iff_of_nodup (h.imp Nat.ne_of_lt) (hothers.imp Nat.ne_of_lt)).2 hmem
  exact hperm.eq_of_pairwise (fun _ _ _ _ hlt hgt => absurd hgt (Nat.lt_asymm hlt)) h hothers

theorem levels_eq {β : Type} {other : β → Nat} {items : List α} {others : List β}
    (h : ∀ level, (∃ item ∈ items, priority item = level) ↔ ∃ item ∈ others, other item = level) :
    levels priority items = levels other others :=
  eq_of_ascending (levels_ascending _ _) (levels_ascending _ _) fun level => by
    rw [mem_levels, mem_levels, h]

/-! ### Batches -/

/-- The batches are the items of each priority that comes up, the lowest priority first. -/
theorem batchesBy_eq (priority : α → Nat) (items : List α) :
    batchesBy priority items = (levels priority items).map (ofLevel priority items) := by
  have hfound : ∀ level ∈ levels priority items,
      (collected priority items).find? level = some (ofLevel priority items level) := by
    intro level hlevel
    obtain ⟨item, hitem, hsame⟩ := mem_levels.1 hlevel
    rw [find?_collected, if_neg]
    rw [List.isEmpty_iff, ofLevel_eq_nil]
    exact fun hnone => hnone item hitem hsame
  change (levels priority items).filterMap (collected priority items).find? = _
  rw [List.filterMap_congr hfound]
  exact congrFun List.filterMap_eq_map (levels priority items)

theorem batchesBy_singleton (priority : α → Nat) (item : α) :
    batchesBy priority [item] = [[item]] := by
  simp [batchesBy, collect, Table.insert, Table.find?, Table.keys, sortBy, insertBy]

/-- No batch is empty. -/
theorem batchesBy_ne_nil {items batch : List α} (hbatch : batch ∈ batchesBy priority items) :
    batch ≠ [] := by
  rw [batchesBy_eq] at hbatch
  obtain ⟨level, hlevel, rfl⟩ := List.mem_map.1 hbatch
  obtain ⟨item, hitem, hsame⟩ := mem_levels.1 hlevel
  exact List.ne_nil_of_mem (mem_ofLevel.2 ⟨hitem, hsame⟩)

/-- The items of a batch stand in the order in which all of the items stand. -/
theorem batchesBy_sublist {items batch : List α} (hbatch : batch ∈ batchesBy priority items) :
    batch.Sublist items := by
  rw [batchesBy_eq] at hbatch
  obtain ⟨level, _, rfl⟩ := List.mem_map.1 hbatch
  exact List.filter_sublist

/-- The items of a batch have one priority. -/
theorem batchesBy_level {items batch : List α} (hbatch : batch ∈ batchesBy priority items)
    {item other : α} (hitem : item ∈ batch) (hother : other ∈ batch) :
    priority item = priority other := by
  rw [batchesBy_eq] at hbatch
  obtain ⟨level, _, rfl⟩ := List.mem_map.1 hbatch
  exact (mem_ofLevel.1 hitem).2.trans (mem_ofLevel.1 hother).2.symm

/-- The items of a batch have a lower priority than those of later ones. -/
theorem batchesBy_ascending (priority : α → Nat) (items : List α) :
    (batchesBy priority items).Pairwise fun first second =>
      ∀ item ∈ first, ∀ other ∈ second, priority item < priority other := by
  rw [batchesBy_eq, List.pairwise_map]
  refine (levels_ascending priority items).imp fun hlt item hitem other hother => ?_
  rwa [(mem_ofLevel.1 hitem).2, (mem_ofLevel.1 hother).2]

/-- The batches one after the other are in ascending order. -/
theorem batchesBy_flatten_sorted (priority : α → Nat) (items : List α) :
    (batchesBy priority items).flatten.Pairwise fun item other =>
      priority item ≤ priority other := by
  refine List.pairwise_flatten.2 ⟨fun batch hbatch => ?_, ?_⟩
  · exact List.pairwise_of_forall_mem_list fun item hitem other hother =>
      Nat.le_of_eq (batchesBy_level hbatch hitem hother)
  · exact (batchesBy_ascending priority items).imp fun hlt item hitem other hother =>
      Nat.le_of_lt (hlt item hitem other hother)

/-- Only the priorities of the items matter to how they are batched. -/
theorem batchesBy_congr {other : α → Nat} {items : List α}
    (h : ∀ item ∈ items, priority item = other item) :
    batchesBy priority items = batchesBy other items := by
  have hlevels : levels priority items = levels other items := levels_eq fun level =>
    exists_congr fun item => and_congr_right fun hitem => by rw [h item hitem]
  rw [batchesBy_eq, batchesBy_eq, hlevels]
  refine List.map_congr_left fun level _ => List.filter_congr fun item hitem => ?_
  rw [h item hitem]

/-- Items that were made from others are batched as these are. -/
theorem batchesBy_map {β : Type} (make : β → α) (items : List β) :
    batchesBy priority (items.map make) =
      (batchesBy (fun item => priority (make item)) items).map (List.map make) := by
  have hlevels : levels priority (items.map make) =
      levels (fun item => priority (make item)) items := levels_eq fun level => by
    simp only [List.mem_map, exists_exists_and_eq_and]
  rw [batchesBy_eq, batchesBy_eq, hlevels, List.map_map]
  exact List.map_congr_left fun level _ => List.filter_map

/-- The first batches are those of the items in them. -/
theorem batchesBy_filter {items : List α} {keep : α → Bool} {first second : List (List α)}
    (h : batchesBy priority items = first ++ second)
    (hfirst : ∀ batch ∈ first, ∀ item ∈ batch, keep item = true)
    (hsecond : ∀ batch ∈ second, ∀ item ∈ batch, keep item = false) :
    batchesBy priority (items.filter keep) = first := by
  rw [batchesBy_eq] at h
  obtain ⟨mine, others, hall, rfl, rfl⟩ := List.map_eq_append_iff.1 h
  have hmine : ∀ level ∈ mine, ∀ item ∈ items, priority item = level → keep item = true :=
    fun level hlevel item hitem hsame =>
      hfirst _ (List.mem_map_of_mem hlevel) item (mem_ofLevel.2 ⟨hitem, hsame⟩)
  have hlevels : levels priority (items.filter keep) = mine := by
    have hascending := levels_ascending priority items
    rw [hall] at hascending
    refine eq_of_ascending (levels_ascending _ _) (List.pairwise_append.1 hascending).1
      fun level => ?_
    rw [mem_levels]
    constructor
    · rintro ⟨item, hitem, hsame⟩
      obtain ⟨hitem, hkeep⟩ := List.mem_filter.1 hitem
      have hlevel : level ∈ mine ++ others := hall ▸ mem_levels.2 ⟨item, hitem, hsame⟩
      refine (List.mem_append.1 hlevel).resolve_right fun hother => ?_
      have hdrop := hsecond _ (List.mem_map_of_mem hother) item (mem_ofLevel.2 ⟨hitem, hsame⟩)
      exact Bool.false_ne_true (hdrop.symm.trans hkeep)
    · intro hlevel
      obtain ⟨item, hitem, hsame⟩ := mem_levels.1 (hall ▸ List.mem_append_left others hlevel)
      exact ⟨item, List.mem_filter.2 ⟨hitem, hmine level hlevel item hitem hsame⟩, hsame⟩
  rw [batchesBy_eq, hlevels]
  refine List.map_congr_left fun level hlevel => ?_
  rw [ofLevel, List.filter_filter]
  refine List.filter_congr fun item hitem => ?_
  by_cases hsame : priority item = level
  · simp [hsame, hmine level hlevel item hitem hsame]
  · simp [hsame]

/-- The items of one priority are all in its batch. -/
theorem ofLevel_flatten_batchesBy (priority : α → Nat) (items : List α) (level : Nat) :
    ofLevel priority (batchesBy priority items).flatten level = ofLevel priority items level := by
  have hone : ∀ numbers : List Nat, numbers.Pairwise (· < ·) →
      ofLevel priority (numbers.map (ofLevel priority items)).flatten level =
        if level ∈ numbers then ofLevel priority items level else [] := by
    intro numbers hascending
    induction numbers with
    | nil => rfl
    | cons number rest ih =>
        obtain ⟨hnumber, hrest⟩ := List.pairwise_cons.1 hascending
        rw [List.map_cons, List.flatten_cons, ofLevel, List.filter_append, ← ofLevel, ← ofLevel,
          ih hrest]
        by_cases hlevel : level = number
        · subst hlevel
          have hnot : level ∉ rest := fun hmem => Nat.lt_irrefl _ (hnumber level hmem)
          simp [ofLevel, hnot]
        · have hnone : ofLevel priority (ofLevel priority items number) level = [] := by
            refine ofLevel_eq_nil.2 fun item hitem hsame => hlevel ?_
            rw [← hsame, (mem_ofLevel.1 hitem).2]
          simp [hnone, hlevel]
  rw [batchesBy_eq, hone _ (levels_ascending priority items)]
  split
  · rfl
  · next hnot =>
      refine (ofLevel_eq_nil.2 fun item hitem hsame => hnot ?_).symm
      exact mem_levels.2 ⟨item, hitem, hsame⟩

/-- The batches one after the other are the items in the order of their priorities. -/
theorem batchesBy_flatten (priority : α → Nat) (items : List α) :
    (batchesBy priority items).flatten = sortBy (precedes priority) items :=
  eq_of_ofLevel_eq (batchesBy_flatten_sorted priority items) (sortBy_precedes priority items)
    fun level => (ofLevel_flatten_batchesBy priority items level).trans
      (filter_sortBy priority items level).symm

/-- Putting items into batches loses none of them, and adds none. -/
theorem batchesBy_perm (priority : α → Nat) (items : List α) :
    (batchesBy priority items).flatten.Perm items :=
  batchesBy_flatten priority items ▸ sortBy_perm _ items

/-! ### Items with their places -/

section Places

variable {items : List α} {batch entries : List (α × Nat)} {entry : α × Nat} {priority : α × Nat → Nat}

theorem getElem?_of_mem_batch (hbatch : batch ∈ batchesBy priority items.zipIdx)
    (hentry : entry ∈ batch) : items[entry.2]? = some entry.1 :=
  List.mem_zipIdx_iff_getElem?.1 ((batchesBy_sublist hbatch).subset hentry)

theorem mem_of_mem_batch (hbatch : batch ∈ batchesBy priority items.zipIdx)
    (hentry : entry ∈ batch) : entry.1 ∈ items :=
  List.mem_of_getElem? (getElem?_of_mem_batch hbatch hentry)

/-- The places of all items are those from zero on, in whichever order the items are. -/
theorem places_perm_range (h : entries.Perm items.zipIdx) :
    (entries.map (·.2)).Perm (List.range items.length) := by
  rw [List.range_eq_range', ← List.zipIdx_map_snd 0 items]
  exact h.map _

end Places

end Rulebook
