import Rulebook.Proofs.Table
import Rulebook.Tally

/-!
Laws of tallies.

Counting one under a label changes the count of that counter under that label
(`amount_count`), and so the total of that counter by one (`total_count`).
-/

namespace Rulebook

/-- The labels of one counter, in a table of all of them. -/
def Counter.select (counter : Counter) (counts : Table (Counter × String) Nat) :
    Table String Nat :=
  counts.filterMap fun (key, n) => if key.1 = counter then some (key.2, n) else none

/-- Is this what the cache counts? -/
def Counter.ofCache : Counter → Bool
  | .cacheHits | .cacheMisses => true
  | _ => false

namespace Tally

/-- How many were counted under a label. -/
def amount (tally : Tally) (counter : Counter) (label : String) : Nat :=
  (tally.count? counter label).getD 0

/-- How many were counted under any label. -/
def total (tally : Tally) (counter : Counter) : Nat :=
  (Table.values (tally.labels counter)).foldr (· + ·) 0

theorem select_cons (counter other : Counter) (label : String) (n : Nat)
    (rest : Table (Counter × String) Nat) : counter.select (((other, label), n) :: rest) =
      if other = counter then (label, n) :: counter.select rest else counter.select rest := by
  by_cases h : other = counter <;> simp [Counter.select, h]

theorem find?_select (counter : Counter) (counts : Table (Counter × String) Nat) (label : String) :
    (counter.select counts).find? label = counts.find? (counter, label) := by
  induction counts with
  | nil => rfl
  | cons entry rest ih =>
      obtain ⟨⟨other, name⟩, n⟩ := entry
      rw [Table.find?, ← ih, select_cons]
      by_cases hcounter : other = counter
      · simp [hcounter, Table.find?]
      · simp [hcounter]

theorem select_insert (counter other : Counter) (counts : Table (Counter × String) Nat)
    (label : String) (n : Nat) : other.select (counts.insert (counter, label) n) =
      if counter = other then (other.select counts).insert label n else other.select counts := by
  induction counts with
  | nil => rw [Table.insert, select_cons]; rfl
  | cons entry rest ih =>
      obtain ⟨⟨first, name⟩, m⟩ := entry
      rw [Table.insert, select_cons]
      by_cases hkey : first = counter ∧ name = label
      · obtain ⟨rfl, rfl⟩ := hkey
        by_cases hother : first = other <;> simp [select_cons, Table.insert, hother]
      · have hne : ((first, name) == (counter, label)) = false := by simpa using hkey
        rw [hne, if_neg Bool.false_ne_true, select_cons, ih]
        by_cases hother : first = other
        · subst hother
          by_cases hcounter : counter = first
          · have hname : (name == label) = false := by simpa [hcounter] using hkey
            simp [hcounter, Table.insert, hname]
          · simp [hcounter]
        · simp [hother]

/-- Counting changes the labels of its counter only. -/
theorem labels_count (tally : Tally) (counter : Counter) (label : String) (other : Counter) :
    (tally.count counter label).labels other =
      if counter = other then
        Table.insert (tally.labels counter) label (tally.amount counter label + 1)
      else tally.labels other := by
  change other.select (tally.counts.insert (counter, label) (tally.amount counter label + 1)) = _
  rw [select_insert]
  split
  · next h => subst h; rfl
  · rfl

theorem amount_eq_labels (tally : Tally) (counter : Counter) (label : String) :
    tally.amount counter label = (Table.find? (tally.labels counter) label).getD 0 := by
  change _ = ((counter.select tally.counts).find? label).getD 0
  rw [find?_select]
  rfl

/-- What was counted under each label, after one was counted under some label. -/
theorem amount_count (tally : Tally) (counter other : Counter) (label name : String) :
    (tally.count counter label).amount other name =
      tally.amount other name + if counter = other ∧ label = name then 1 else 0 := by
  rw [amount_eq_labels, labels_count]
  by_cases hcounter : counter = other
  · subst hcounter
    rw [if_pos rfl, Table.find?_insert]
    by_cases hlabel : label = name
    · simp [hlabel]
    · simp [hlabel, amount_eq_labels]
  · simp [hcounter, amount_eq_labels]

theorem foldr_values_insert (table : Table String Nat) (label : String) :
    (Table.values (table.insert label ((table.find? label).getD 0 + 1))).foldr (· + ·) 0 =
      (Table.values table).foldr (· + ·) 0 + 1 := by
  induction table with
  | nil => rfl
  | cons entry rest ih =>
      rw [Table.find?, Table.insert]
      cases hsame : entry.1 == label with
      | true =>
          simp [Table.values]
          omega
      | false =>
          change entry.2 + (Table.values _).foldr (· + ·) 0 =
            entry.2 + (Table.values rest).foldr (· + ·) 0 + 1
          simp only [Bool.false_eq_true, if_false]
          rw [ih, Nat.add_assoc]

/-- What was counted under any label, after one was counted. -/
theorem total_count (tally : Tally) (counter other : Counter) (label : String) :
    (tally.count counter label).total other =
      tally.total other + if counter = other then 1 else 0 := by
  rw [total, labels_count]
  by_cases hcounter : counter = other
  · subst hcounter
    rw [if_pos rfl, if_pos rfl, amount_eq_labels]
    exact foldr_values_insert _ label
  · rw [if_neg hcounter, if_neg hcounter]
    rfl

end Tally

end Rulebook
