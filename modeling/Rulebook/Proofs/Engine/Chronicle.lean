import Mathlib.Data.List.Nodup
import Rulebook.Engine.Run
import Rulebook.Proofs.Rule.Evaluation

/-!
What a run adds to a journal.

A journal that was used before keeps what is in it; a run adds its own results after the others, and
the event of each of them to the events of its outcome (`Chronicle`).  Handlers may change events of
the run, but neither take entries away nor add any.
-/

namespace Rulebook

/-- The outcome under which the event of a rule is recorded. -/
def Journal.outcomeOf (verdict : Bool) : Value := if verdict then success else failure

namespace Stamped

/-- The event of a result, with the stamp of the result. -/
def eventOf (entry : Stamped RuleResult) : Stamped Members := ⟨entry.stamp, entry.item.event⟩

/-- The results with a verdict. -/
def withVerdict (verdict : Bool) (entries : List (Stamped RuleResult)) :
    List (Stamped RuleResult) :=
  entries.filter fun entry => entry.item.result == verdict

/-- The places of results in the order of their run. -/
def places (entries : List (Stamped RuleResult)) : List Nat :=
  entries.map fun entry => entry.stamp.place

/-- The result, with its event changed if this is its stamp. -/
def changeResult (stamp : Stamp) (change : Members → Members) (entry : Stamped RuleResult) :
    Stamped RuleResult :=
  if entry.stamp = stamp then
    { entry with item := { entry.item with event := change entry.item.event } }
  else entry

/-- The event, changed if this is its stamp. -/
def changeItem (stamp : Stamp) (change : Members → Members) (entry : Stamped Members) :
    Stamped Members :=
  if entry.stamp = stamp then { entry with item := change entry.item } else entry

variable (stamp : Stamp) (change : Members → Members) (entry : Stamped RuleResult)

@[simp]
theorem stamp_changeResult : (entry.changeResult stamp change).stamp = entry.stamp := by
  unfold changeResult
  split <;> rfl

@[simp]
theorem result_changeResult :
    (entry.changeResult stamp change).item.result = entry.item.result := by
  unfold changeResult
  split <;> rfl

theorem eventOf_changeResult :
    (entry.changeResult stamp change).eventOf = entry.eventOf.changeItem stamp change := by
  unfold changeResult changeItem eventOf
  split <;> rfl

theorem changeResult_of {rule : Rule} (h : entry.item.Of rule) :
    (entry.changeResult stamp change).item.Of rule := by
  unfold changeResult
  split
  · exact ⟨h.name, h.priority, h.result⟩
  · exact h

end Stamped

open Stamped

/-- A journal holds what it held before the run and, after that, what the run added. -/
structure Chronicle (number : Nat) (order : List Rule) (earlier : RunJournal)
    (own : List (Stamped RuleResult)) (journal : RunJournal) : Prop where
  results : journal.results = earlier.results ++ own
  events : ∀ verdict, journal.eventsOf (Journal.outcomeOf verdict) =
    earlier.eventsOf (Journal.outcomeOf verdict) ++ (withVerdict verdict own).map eventOf
  run : ∀ entry ∈ own, entry.stamp.run = number
  rule : ∀ entry ∈ own, ∃ rule, order[entry.stamp.place]? = some rule ∧ entry.item.Of rule
  nodup : (places own).Nodup

/-- Everything in a journal was recorded in runs before this one. -/
structure Journal.Before (journal : RunJournal) (number : Nat) : Prop where
  results : ∀ entry ∈ journal.results, entry.stamp.run < number
  events : ∀ verdict, ∀ entry ∈ journal.eventsOf (outcomeOf verdict), entry.stamp.run < number

namespace Journal

theorem beq_outcomeOf_iff {value : Value} {verdict : Bool} :
    (value == outcomeOf verdict) = true ↔ value = outcomeOf verdict := by
  cases verdict <;> exact Value.beq_str_iff

theorem outcomeOf_ne {verdict other : Bool} (h : verdict ≠ other) :
    (outcomeOf verdict == outcomeOf other) = false := by
  rw [Bool.eq_false_iff, ne_eq, beq_outcomeOf_iff]
  cases verdict <;> cases other <;> simp_all [outcomeOf, success, failure]

theorem eventsOf_addEvent (journal : RunJournal) (verdict other : Bool) (event : Stamped Members) :
    (journal.addEvent (outcomeOf verdict) event).eventsOf (outcomeOf other) =
      journal.eventsOf (outcomeOf other) ++ if verdict = other then [event] else [] := by
  unfold eventsOf addEvent
  by_cases h : verdict = other
  · subst h
    rw [Table.find?_insert_self _ _ (beq_outcomeOf_iff.2 rfl), if_pos rfl]
    rfl
  · rw [Table.find?_insert_of_ne _ _ ?_ (outcomeOf_ne h), if_neg h, List.append_nil]
    intro known hknown
    rw [beq_outcomeOf_iff.1 hknown]
    exact outcomeOf_ne h

end Journal

theorem Journal.eventsOf_empty (verdict : Bool) :
    (Journal.empty : RunJournal).eventsOf (outcomeOf verdict) = [] := by
  cases verdict <;> decide +kernel

theorem Journal.before_empty (number : Nat) : Journal.empty.Before number where
  results := nofun
  events verdict := by
    rw [eventsOf_empty]
    nofun

theorem map_eq_self {α : Type} {change : α → α} {items : List α}
    (h : ∀ item ∈ items, change item = item) : items.map change = items :=
  (List.map_congr_left h).trans (List.map_id _)

namespace Chronicle

variable {number : Nat} {order : List Rule} {earlier journal : RunJournal}
  {own : List (Stamped RuleResult)}

theorem nil (number : Nat) (order : List Rule) (journal : RunJournal) :
    Chronicle number order journal [] journal where
  results := (List.append_nil _).symm
  events _ := (List.append_nil _).symm
  run := nofun
  rule := nofun
  nodup := .nil

/-- A result is recorded with its event. -/
theorem record (h : Chronicle number order earlier own journal) {place : Nat} {rule : Rule}
    (hrule : order[place]? = some rule) {result : RuleResult} (hresult : result.Of rule)
    (hnew : place ∉ places own) :
    Chronicle number order earlier (own ++ [⟨⟨number, place⟩, result⟩])
      ((journal.addResult ⟨⟨number, place⟩, result⟩).addEvent (Journal.outcomeOf result.result)
        ⟨⟨number, place⟩, result.event⟩) where
  results := by
    change journal.results ++ _ = _
    rw [h.results, List.append_assoc]
  events verdict := by
    rw [Journal.eventsOf_addEvent]
    change journal.eventsOf _ ++ _ = _
    rw [h.events verdict, List.append_assoc]
    by_cases hverdict : result.result = verdict
    · simp [withVerdict, eventOf, hverdict]
    · simp [withVerdict, hverdict]
  run := by
    intro entry hentry
    rcases List.mem_append.1 hentry with hold | hlast
    · exact h.run entry hold
    · rw [List.mem_singleton.1 hlast]
  rule := by
    intro entry hentry
    rcases List.mem_append.1 hentry with hold | hlast
    · exact h.rule entry hold
    · rw [List.mem_singleton.1 hlast]
      exact ⟨rule, hrule, hresult⟩
  nodup := by
    rw [places, List.map_append]
    exact h.nodup.append (List.nodup_singleton _) (by simpa using hnew)

/-- The event of a result of the run is changed. -/
theorem changeEvent {η : Type} {run : Run η}
    (h : Chronicle number order earlier own run.journal) (hearlier : earlier.Before number)
    {stamp : Stamp} (hstamp : stamp.run = number) (change : Members → Members) :
    Chronicle number order earlier (own.map (changeResult stamp change))
      (run.changeEvent stamp change).journal where
  results := by
    change run.journal.results.map (changeResult stamp change) = _
    rw [h.results, List.map_append]
    congr 1
    refine map_eq_self fun entry hentry => if_neg fun hsame => ?_
    exact absurd (hsame ▸ hstamp) (Nat.ne_of_lt (hearlier.results entry hentry))
  events verdict := by
    have hmap : (run.changeEvent stamp change).journal.eventsOf (Journal.outcomeOf verdict) =
        (run.journal.eventsOf (Journal.outcomeOf verdict)).map (changeItem stamp change) := by
      change (Table.find? (run.journal.events.map fun entry =>
        (entry.1, entry.2.map (changeItem stamp change))) _).getD [] = _
      rw [Table.find?_map]
      unfold Journal.eventsOf
      cases Table.find? run.journal.events (Journal.outcomeOf verdict) <;> rfl
    rw [hmap, h.events verdict, List.map_append]
    congr 1
    · refine map_eq_self fun entry hentry => if_neg fun hsame => ?_
      exact absurd (hsame ▸ hstamp) (Nat.ne_of_lt (hearlier.events verdict entry hentry))
    · rw [withVerdict, withVerdict, List.filter_map, List.map_map, List.map_map]
      simp [Function.comp_def, eventOf_changeResult]
  run := by
    simpa using h.run
  rule := by
    intro entry hentry
    obtain ⟨old, hold, rfl⟩ := List.mem_map.1 hentry
    obtain ⟨rule, hrule, hof⟩ := h.rule old hold
    exact ⟨rule, by rw [stamp_changeResult]; exact hrule, old.changeResult_of stamp change hof⟩
  nodup := by
    simpa [places, Function.comp_def] using h.nodup

/-- After a run, everything was recorded before later ones. -/
theorem before (h : Chronicle number order earlier own journal) (hearlier : earlier.Before number) :
    journal.Before (number + 1) where
  results entry hentry := by
    rw [h.results] at hentry
    rcases List.mem_append.1 hentry with hold | hown
    · exact Nat.lt_succ_of_lt (hearlier.results entry hold)
    · exact Nat.lt_succ_of_le (Nat.le_of_eq (h.run entry hown))
  events verdict entry hentry := by
    rw [h.events verdict] at hentry
    rcases List.mem_append.1 hentry with hold | hown
    · exact Nat.lt_succ_of_lt (hearlier.events verdict entry hold)
    · obtain ⟨result, hresult, rfl⟩ := List.mem_map.1 hown
      exact Nat.lt_succ_of_le (Nat.le_of_eq (h.run result (List.mem_filter.1 hresult).1))

end Chronicle

end Rulebook
