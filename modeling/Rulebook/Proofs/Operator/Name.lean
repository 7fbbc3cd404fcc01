import Rulebook.Operator.Registry

/-!
Names of operators and their parts.

Taking a name apart and putting the parts together are inverse to each other, as long as no part
holds a separator (`join_segments`, `segments_join`).
-/

namespace Rulebook.Registry

theorem segmentsOf_eq_splitOn (text : List Char) : segmentsOf text = text.splitOn ':' := by
  induction text with
  | nil => rfl
  | cons c rest ih =>
      rw [segmentsOf, List.splitOn_cons_eq_if_modifyHead, ih]
      by_cases hc : c = ':'
      · simp [hc]
      · simp only [hc, if_false, beq_iff_eq]
        cases h : rest.splitOn ':' with
        | nil => exact absurd h (List.splitOn_ne_nil _ _)
        | cons segment others => rfl

/-- A part of a name. -/
def Plain (segment : String) : Prop := ':' ∉ segment.toList

theorem segments_ne_nil (name : String) : segments name ≠ [] := by
  rw [segments, segmentsOf_eq_splitOn, ne_eq, List.map_eq_nil_iff]
  exact List.splitOn_ne_nil _ _

/-- The parts of a name make the name. -/
theorem join_segments (name : String) : join (segments name) = name := by
  apply String.toList_injective
  have hseparator : Decorator.separator.toList = [':'] := rfl
  rw [join, String.toList_intercalate, hseparator, segments, segmentsOf_eq_splitOn, List.map_map]
  have hid : String.toList ∘ String.ofList = id := by
    funext text
    exact String.toList_ofList
  rw [hid, List.map_id, List.intercalate_splitOn]

theorem not_mem_of_mem_segmentsOf {text part : List Char} (h : part ∈ segmentsOf text) :
    ':' ∉ part := by
  induction text generalizing part with
  | nil =>
      rw [List.mem_singleton.1 h]
      exact List.not_mem_nil
  | cons c rest ih =>
      rw [segmentsOf] at h
      split at h
      · rcases List.mem_cons.1 h with rfl | hrest
        · exact List.not_mem_nil
        · exact ih hrest
      · next hc =>
          cases hsegments : segmentsOf rest with
          | nil =>
              rw [hsegments, List.mem_singleton] at h
              rw [h, List.mem_singleton]
              exact fun hcolon => hc hcolon.symm
          | cons first others =>
              rw [hsegments] at h ih
              rcases List.mem_cons.1 h with rfl | hother
              · rw [List.mem_cons, not_or]
                exact ⟨fun hcolon => hc hcolon.symm, ih List.mem_cons_self⟩
              · exact ih (List.mem_cons_of_mem _ hother)

theorem plain_of_mem_segments {name segment : String} (h : segment ∈ segments name) :
    Plain segment := by
  obtain ⟨part, hpart, rfl⟩ := List.mem_map.1 h
  rw [Plain, String.toList_ofList]
  exact not_mem_of_mem_segmentsOf hpart

/-- Parts that hold no separator are the parts of the name that they make. -/
theorem segments_join {parts : List String} (hsome : parts ≠ [])
    (hplain : ∀ part ∈ parts, Plain part) : segments (join parts) = parts := by
  have hseparator : Decorator.separator.toList = [':'] := rfl
  have htexts : ∀ text ∈ parts.map String.toList, ':' ∉ text := by
    intro text htext
    obtain ⟨part, hpart, rfl⟩ := List.mem_map.1 htext
    exact hplain part hpart
  rw [segments, segmentsOf_eq_splitOn, join, String.toList_intercalate, hseparator,
    List.splitOn_intercalate ':' htexts (by simpa using hsome), List.map_map]
  have hid : String.ofList ∘ String.toList = id := by
    funext text
    exact String.ofList_toList
  rw [hid, List.map_id]

theorem join_cons {part : String} {parts : List String} (h : parts ≠ []) :
    join (part :: parts) = part ++ Decorator.separator ++ join parts :=
  String.intercalate_cons_of_ne_nil h

theorem join_append {parts others : List String} (h : parts ≠ []) (hothers : others ≠ []) :
    join (parts ++ others) = join parts ++ Decorator.separator ++ join others :=
  String.intercalate_append_of_ne_nil h hothers

end Rulebook.Registry
