/-!
Classes of characters given as tables of ranges.  The ranges of a table ascend and do not overlap,
so a look-up halves the part of the table that can hold a code point.
-/

namespace Rulebook.Text

/-- Find a code point between two positions of a table, in at most `fuel` steps. -/
def inRangesBetween (ranges : Array (Nat × Nat)) (code : Nat) (low high : Nat) :
    (fuel : Nat) → Bool
  | 0 => false
  | fuel + 1 =>
      if high ≤ low then false
      else
        let middle := (low + high) / 2
        match ranges[middle]? with
        | none => false
        | some (first, last) =>
            if code < first then inRangesBetween ranges code low middle fuel
            else if last < code then inRangesBetween ranges code (middle + 1) high fuel
            else true

/-- Is the code point in one of the ranges?  Each step halves the table, so as many steps as its
size has bits are enough. -/
def inRanges (ranges : Array (Nat × Nat)) (code : Nat) : Bool :=
  inRangesBetween ranges code 0 ranges.size (ranges.size.log2 + 1)

/-- What a look-up finds is in the table. -/
theorem exists_range_of_inRangesBetween {ranges : Array (Nat × Nat)} {code low high fuel : Nat}
    (h : inRangesBetween ranges code low high fuel = true) :
    ∃ range ∈ ranges, range.1 ≤ code ∧ code ≤ range.2 := by
  induction fuel generalizing low high with
  | zero => simp [inRangesBetween] at h
  | succ fuel ih =>
      simp only [inRangesBetween] at h
      split at h
      · simp at h
      · split at h
        · simp at h
        · rename_i range found
          split at h
          · exact ih h
          · split at h
            · exact ih h
            · exact ⟨_, Array.mem_of_getElem? found, by simp only; omega, by simp only; omega⟩

end Rulebook.Text
