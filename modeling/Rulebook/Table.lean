/-!
Tables that remember the order in which their keys first came in.  Replacing the value of a key
keeps its place, and the key that came first is the one that stays, so a table can be keyed by a
type whose comparison is coarser than identity.
-/

namespace Rulebook

/-- Keys with their values, in order of first insertion. -/
abbrev Table (κ : Type) (α : Type) := List (κ × α)

namespace Table

variable {κ α : Type} [BEq κ]

/-- The value stored under `key`. -/
def find? (table : Table κ α) (key : κ) : Option α :=
  match table with
  | [] => none
  | (key', value) :: rest => if key' == key then some value else find? rest key

/-- Is there a value under `key`? -/
def has (table : Table κ α) (key : κ) : Bool :=
  (table.find? key).isSome

/-- Replace the value under `key` where it stands, or put a new entry at the end. -/
def insert (table : Table κ α) (key : κ) (value : α) : Table κ α :=
  match table with
  | [] => [(key, value)]
  | (key', value') :: rest =>
      if key' == key then (key', value) :: rest else (key', value') :: insert rest key value

/-- Put a value under `key` only when there is none yet. -/
def insertNew (table : Table κ α) (key : κ) (value : α) : Table κ α :=
  if table.has key then table else table ++ [(key, value)]

/-- Drop the entry of `key`. -/
def erase (table : Table κ α) (key : κ) : Table κ α :=
  table.filter fun entry => !(entry.1 == key)

/-- Collect a list of entries; of two entries with one key the later value stays, in the place of
the earlier. -/
def ofList (entries : List (κ × α)) : Table κ α :=
  entries.foldl (fun table entry => table.insert entry.1 entry.2) []

/-- The keys, in order. -/
def keys (table : Table κ α) : List κ :=
  table.map (·.1)

/-- The values, in the order of their keys. -/
def values (table : Table κ α) : List α :=
  table.map (·.2)

theorem find?_insert_self (table : Table κ α) {key : κ} (value : α) (h : (key == key) = true) :
    (table.insert key value).find? key = some value := by
  induction table with
  | nil => simp [insert, find?, h]
  | cons entry rest ih =>
      by_cases same : (entry.1 == key) = true
      · simp [insert, find?, same]
      · simp [insert, find?, same, ih]

theorem find?_insert_of_ne (table : Table κ α) {key other : κ} (value : α)
    (apart : ∀ known, (known == key) = true → (known == other) = false)
    (h : (key == other) = false) :
    (table.insert key value).find? other = table.find? other := by
  induction table with
  | nil => simp [insert, find?, h]
  | cons entry rest ih =>
      by_cases same : (entry.1 == key) = true
      · simp [insert, find?, same, apart entry.1 same]
      · simp [insert, find?, same, ih]

theorem keys_insert_of_has (table : Table κ α) {key : κ} (value : α) (h : table.has key = true) :
    (table.insert key value).keys = table.keys := by
  induction table with
  | nil => simp [has, find?] at h
  | cons entry rest ih =>
      by_cases same : (entry.1 == key) = true
      · simp [insert, keys, same]
      · have known : Table.has rest key = true := by simpa [has, find?, same] using h
        simpa [insert, keys, same] using ih known

end Table

end Rulebook
