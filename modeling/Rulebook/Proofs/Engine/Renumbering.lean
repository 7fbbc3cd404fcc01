import Mathlib.Logic.Function.Basic
import Rulebook.Engine.Run
import Rulebook.Proofs.Table

/-!
Runs with other numbers.

A run stamps what it records with its number, and the stamps serve for nothing but telling apart
whose is what.  So numbers may be exchanged for others: what is done with a run can be done with the
run that has the other numbers, as long as different numbers stay different.
-/

namespace Rulebook

variable {η α : Type} {other : Nat → Nat}

/-- The stamp that a run with another number gives. -/
def Stamp.renumber (other : Nat → Nat) (stamp : Stamp) : Stamp :=
  { stamp with run := other stamp.run }

/-- The same with the stamp of a run with another number. -/
def Stamped.renumber (other : Nat → Nat) (entry : Stamped α) : Stamped α :=
  { entry with stamp := entry.stamp.renumber other }

/-- The same call, in a run with another number. -/
def Call.renumber (other : Nat → Nat) (call : Call η) : Call η :=
  { call with stamp := call.stamp.renumber other }

/-- The same records, of runs with other numbers. -/
def Journal.renumber (other : Nat → Nat) (journal : RunJournal) : RunJournal where
  events := journal.events.map fun entry => (entry.1, entry.2.map (Stamped.renumber other))
  results := journal.results.map (Stamped.renumber other)

/-- The same run with another number. -/
def Run.renumber (other : Nat → Nat) (run : Run η) : Run η where
  number := other run.number
  almanac := run.almanac
  journal := run.journal.renumber other
  calls := run.calls.map (Call.renumber other)

@[simp]
theorem Stamped.item_renumber (entry : Stamped α) : (entry.renumber other).item = entry.item := rfl

theorem Stamp.renumber_inj (hother : Function.Injective other) {stamp last : Stamp} :
    stamp.renumber other = last.renumber other ↔ stamp = last := by
  obtain ⟨run, place⟩ := stamp
  obtain ⟨lastRun, lastPlace⟩ := last
  rw [Stamp.renumber, Stamp.renumber, Stamp.mk.injEq, Stamp.mk.injEq, hother.eq_iff]

/-! ### Everything keeps its number -/

@[simp]
theorem Call.renumber_id (call : Call η) : call.renumber id = call := rfl

@[simp]
theorem Stamped.renumber_id : (Stamped.renumber id : Stamped α → Stamped α) = id := rfl

@[simp]
theorem Journal.renumber_id (journal : RunJournal) : journal.renumber id = journal := by
  obtain ⟨events, results⟩ := journal
  simp [Journal.renumber]

@[simp]
theorem Run.renumber_id (run : Run η) : run.renumber id = run := by
  obtain ⟨number, almanac, journal, calls⟩ := run
  have hcalls : calls.map (Call.renumber id) = calls := List.map_id calls
  rw [Run.renumber, Journal.renumber_id, hcalls, id_eq]

/-! ### What is recorded -/

namespace Journal

@[simp]
theorem renumber_empty : (empty : RunJournal).renumber other = empty := rfl

theorem find?_renumber (journal : RunJournal) (outcome : Value) :
    (journal.renumber other).events.find? outcome =
      (journal.events.find? outcome).map (List.map (Stamped.renumber other)) :=
  Table.find?_map journal.events (List.map (Stamped.renumber other)) outcome

theorem eventsOf_renumber (journal : RunJournal) (outcome : Value) :
    (journal.renumber other).eventsOf outcome =
      (journal.eventsOf outcome).map (Stamped.renumber other) := by
  rw [eventsOf, eventsOf, find?_renumber]
  cases journal.events.find? outcome <;> rfl

theorem renumber_addEvent (journal : RunJournal) (outcome : Value) (event : Stamped Members) :
    (journal.renumber other).addEvent outcome (event.renumber other) =
      (journal.addEvent outcome event).renumber other := by
  have hinsert := Table.map_insert journal.events (List.map (Stamped.renumber other)) outcome
    (journal.eventsOf outcome ++ [event])
  have hevents : (journal.renumber other).eventsOf outcome ++ [event.renumber other] =
      (journal.eventsOf outcome ++ [event]).map (Stamped.renumber other) := by
    rw [eventsOf_renumber, List.map_append]
    rfl
  rw [← hevents] at hinsert
  exact congrArg (fun events => Journal.mk events (journal.results.map _)) hinsert

theorem renumber_addResult (journal : RunJournal) (result : Stamped RuleResult) :
    (journal.renumber other).addResult (result.renumber other) =
      (journal.addResult result).renumber other := by
  simp [addResult, renumber]

end Journal

/-! ### What is done with a run -/

namespace Run

/-- The event of a stamp is that of the stamp with the other number. -/
theorem event?_renumber (hother : Function.Injective other) (run : Run η) (stamp : Stamp) :
    (run.renumber other).event? (stamp.renumber other) = run.event? stamp := by
  have hsame : (fun entry : Stamped RuleResult =>
      decide ((entry.renumber other).stamp = stamp.renumber other)) =
        fun entry => decide (entry.stamp = stamp) := by
    funext entry
    exact decide_eq_decide.2 (Stamp.renumber_inj hother)
  rw [event?, event?, renumber, Journal.renumber, List.find?_map, Option.map_map]
  exact congrArg (fun test => (run.journal.results.find? test).map _) hsame

theorem renumber_changeEvent (hother : Function.Injective other) (run : Run η) (stamp : Stamp)
    (change : Members → Members) :
    (run.renumber other).changeEvent (stamp.renumber other) change =
      (run.changeEvent stamp change).renumber other := by
  have hstamp : ∀ last : Stamp, last.renumber other = stamp.renumber other ↔ last = stamp :=
    fun _ => Stamp.renumber_inj hother
  simp only [changeEvent, renumber, Journal.renumber, List.map_map, Run.mk.injEq, Journal.mk.injEq,
    true_and, and_true]
  constructor
  · refine List.map_congr_left fun entry _ => congrArg (Prod.mk entry.1) ?_
    rw [List.map_map, List.map_map]
    refine List.map_congr_left fun event _ => ?_
    simp only [Function.comp_apply, Stamped.renumber, hstamp]
    split <;> rfl
  · refine List.map_congr_left fun result _ => ?_
    simp only [Function.comp_apply, Stamped.renumber, hstamp]
    split <;> rfl

end Run

end Rulebook
