import Rulebook.Table
import Rulebook.Value.Equality

/-!
Laws of tables.

What is found under a key after a table was changed.  The laws for changes under another key need
keys whose comparison is equality.
-/

namespace Rulebook

/-- A text equals itself and nothing else. -/
theorem Value.beq_str_iff {value : Value} {text : String} :
    (value == .str text) = true ↔ value = .str text := by
  constructor
  · intro h
    change value.equal (.str text) = true at h
    cases value <;> simp_all [Value.equal, Value.number?]
  · rintro rfl
    simp [BEq.beq, Value.equal]

@[simp]
theorem Value.str_beq_str (text other : String) :
    (Value.str text == Value.str other) = (text == other) := by
  rw [Bool.eq_iff_iff, beq_str_iff, Value.str.injEq, beq_iff_eq]

/-- Nothing but a text equals a text. -/
theorem Value.str_beq_iff {value : Value} {text : String} :
    (.str text == value) = true ↔ value = .str text := by
  constructor
  · intro h
    change (Value.str text).equal value = true at h
    cases value <;> simp_all [Value.equal, Value.number?]
  · rintro rfl
    exact beq_str_iff.2 rfl

namespace Table

variable {κ α β : Type}

section Any

variable [BEq κ]

theorem find?_append (table more : Table κ α) (key : κ) :
    find? (table ++ more) key = (find? table key).or (find? more key) := by
  induction table with
  | nil => rfl
  | cons entry rest ih =>
      rw [List.cons_append, find?, find?]
      split
      · rfl
      · exact ih

/-- Putting something in where there is nothing takes nothing away. -/
theorem has_insertNew {table : Table κ α} {other : κ} (key : κ) (value : α)
    (h : table.has other = true) : (table.insertNew key value).has other = true := by
  rw [insertNew]
  split
  · exact h
  · rw [has] at h
    rw [has, find?_append, Option.isSome_or, h, Bool.true_or]

/-- Putting something in where there is nothing leaves everything else. -/
theorem find?_insertNew_of_some {table : Table κ α} {other : κ} {found : α} (key : κ) (value : α)
    (h : table.find? other = some found) :
    (table.insertNew key value).find? other = some found := by
  rw [insertNew]
  split
  · exact h
  · rw [find?_append, h, Option.some_or]

/-- What is put in where there is nothing is found. -/
theorem find?_insertNew_self [ReflBEq κ] {table : Table κ α} {key : κ} (value : α)
    (h : table.has key = false) : (table.insertNew key value).find? key = some value := by
  have hnone := Option.isNone_iff_eq_none.1 (Option.isSome_eq_false_iff.1 h)
  rw [insertNew, h, if_neg Bool.false_ne_true, find?_append, hnone, Option.none_or, find?,
    beq_self_eq_true, if_pos rfl]

theorem find?_map (table : Table κ α) (change : α → β) (key : κ) :
    find? (table.map fun entry => (entry.1, change entry.2)) key =
      (find? table key).map change := by
  induction table with
  | nil => rfl
  | cons entry rest ih =>
      rw [List.map_cons, find?, find?]
      split
      · rfl
      · exact ih

/-- Changing what is in a table, and putting the changed value in. -/
theorem map_insert (table : Table κ α) (change : α → β) (key : κ) (value : α) :
    insert (table.map fun entry => (entry.1, change entry.2)) key (change value) =
      (table.insert key value).map fun entry => (entry.1, change entry.2) := by
  induction table with
  | nil => rfl
  | cons entry rest ih =>
      rw [List.map_cons, insert, insert]
      split
      · rfl
      · rw [ih, List.map_cons]

/-- What is found under a key stands in the table, under a key that equals it. -/
theorem exists_mem_of_find? {table : Table κ α} {key : κ} {value : α}
    (h : table.find? key = some value) : ∃ known, (known == key) = true ∧ (known, value) ∈ table := by
  induction table with
  | nil => cases h
  | cons entry rest ih =>
      rw [find?] at h
      split at h
      · next hkey =>
          obtain rfl := Option.some.inj h
          exact ⟨entry.1, hkey, List.mem_cons_self⟩
      · obtain ⟨known, hknown, hmem⟩ := ih h
        exact ⟨known, hknown, List.mem_cons_of_mem _ hmem⟩

theorem mem_values_of_find? {table : Table κ α} {key : κ} {value : α}
    (h : table.find? key = some value) : value ∈ table.values := by
  obtain ⟨known, _, hmem⟩ := exists_mem_of_find? h
  exact List.mem_map.2 ⟨_, hmem, rfl⟩

/-- What is in a table after something was put in: that, or what was there. -/
theorem mem_values_insert {table : Table κ α} {key : κ} {value found : α}
    (h : found ∈ (table.insert key value).values) : found = value ∨ found ∈ table.values := by
  induction table with
  | nil => exact .inl (List.mem_singleton.1 h)
  | cons entry rest ih =>
      rw [insert] at h
      split at h
      · rcases List.mem_cons.1 h with hnew | hold
        · exact .inl hnew
        · exact .inr (List.mem_cons_of_mem _ hold)
      · rcases List.mem_cons.1 h with hfirst | hlater
        · exact .inr (hfirst ▸ List.mem_cons_self)
        · exact (ih hlater).imp_right (List.mem_cons_of_mem _)

theorem mem_values_insertNew {table : Table κ α} {key : κ} {value found : α}
    (h : found ∈ (table.insertNew key value).values) : found = value ∨ found ∈ table.values := by
  rw [insertNew] at h
  split at h
  · exact .inr h
  · rw [values, List.map_append, List.mem_append] at h
    exact h.symm.imp_left List.mem_singleton.1

/-- A key that is new comes last. -/
theorem keys_insert_of_not_has (table : Table κ α) {key : κ} (value : α)
    (h : table.has key = false) : (table.insert key value).keys = table.keys ++ [key] := by
  induction table with
  | nil => rfl
  | cons entry rest ih =>
      by_cases same : (entry.1 == key) = true
      · simp [has, find?, same] at h
      · have known : has rest key = false := by simpa [has, find?, same] using h
        simpa [insert, keys, same] using ih known

end Any

variable [BEq κ] [LawfulBEq κ]

theorem find?_filter (table : Table κ α) (keep : κ → Bool) (key : κ) :
    find? (table.filter fun entry => keep entry.1) key =
      if keep key = true then find? table key else none := by
  induction table with
  | nil => simp [find?]
  | cons entry rest ih =>
      rw [List.filter_cons]
      by_cases hkey : entry.1 = key
      · cases hkeep : keep key with
        | true => simp [find?, hkey, hkeep]
        | false => simpa [hkey, hkeep] using ih
      · cases hkeep : keep entry.1 with
        | true => simpa [find?, hkey] using ih
        | false => simpa [find?, hkey] using ih

theorem find?_erase (table : Table κ α) (key other : κ) :
    find? (table.erase key) other = if other == key then none else find? table other := by
  have hfilter := find?_filter table (fun known => !(known == key)) other
  rw [erase, hfilter]
  cases other == key <;> rfl

theorem find?_insert (table : Table κ α) (key other : κ) (value : α) :
    find? (table.insert key value) other =
      if key == other then some value else find? table other := by
  cases h : key == other with
  | true =>
      rw [← eq_of_beq h, if_pos rfl]
      exact find?_insert_self table value (beq_self_eq_true key)
  | false =>
      refine find?_insert_of_ne table value (fun known hknown => ?_) h
      rwa [eq_of_beq hknown]

theorem mem_keys_iff {table : Table κ α} {key : κ} : key ∈ table.keys ↔ table.has key = true := by
  induction table with
  | nil => simp [keys, has, find?]
  | cons entry rest ih =>
      by_cases hkey : entry.1 = key
      · simp [keys, has, find?, hkey]
      · have hrest : key ∈ keys rest ↔ (find? rest key).isSome = true := ih
        rw [keys] at hrest
        simp [keys, has, find?, hkey, Ne.symm hkey, ← hrest]

/-- Putting something in keeps the keys distinct. -/
theorem nodup_keys_insert {table : Table κ α} (key : κ) (value : α) (h : table.keys.Nodup) :
    (table.insert key value).keys.Nodup := by
  cases hknown : table.has key with
  | true => rwa [keys_insert_of_has table value hknown]
  | false =>
      rw [keys_insert_of_not_has table value hknown, List.nodup_append]
      refine ⟨h, List.pairwise_singleton _ key, fun known hmem other hother => ?_⟩
      rintro rfl
      rw [List.mem_singleton.1 hother, mem_keys_iff, hknown] at hmem
      exact Bool.false_ne_true hmem

/-- What is found after something was put in where there was nothing: that, or what was there. -/
theorem find?_insertNew {table : Table κ α} {key other : κ} {value found : α}
    (h : find? (table.insertNew key value) other = some found) :
    find? table other = some found ∨ key = other ∧ found = value := by
  unfold insertNew at h
  split at h
  · exact .inl h
  · rw [find?_append, Option.or_eq_some_iff] at h
    rcases h with hfound | ⟨_, hnew⟩
    · exact .inl hfound
    · rw [find?] at hnew
      split at hnew
      · next hkey => exact .inr ⟨eq_of_beq hkey, (Option.some.inj hnew).symm⟩
      · cases hnew

end Table

end Rulebook
