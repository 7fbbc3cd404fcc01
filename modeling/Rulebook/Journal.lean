import Rulebook.Error
import Rulebook.Value.Equality

/-!
A journal keeps results, and events by the outcome they were emitted for.
-/

namespace Rulebook

/-- Events by outcome, and results, each in the order in which they were added. -/
structure Journal (ε ρ : Type) where
  events : Table Value (List ε)
  results : List ρ

namespace Journal

variable {ε ρ : Type}

/-- The outcome of a rule that holds. -/
def success : Value := .str "success"

/-- The outcome of a rule that does not hold. -/
def failure : Value := .str "failure"

/-- Nothing recorded. -/
def empty : Journal ε ρ := ⟨[(success, []), (failure, [])], []⟩

/-- Record an event. -/
def addEvent (journal : Journal ε ρ) (outcome : Value) (event : ε) : Journal ε ρ :=
  let events := (journal.events.find? outcome).getD []
  { journal with events := journal.events.insert outcome (events ++ [event]) }

/-- Record an event for an outcome that must be fit for a key. -/
def addEvent? (journal : Journal ε ρ) (outcome : Value) (event : ε) :
    Except Error (Journal ε ρ) :=
  if outcome.hashable then .ok (journal.addEvent outcome event) else .error .type

/-- The events of an outcome. -/
def eventsOf (journal : Journal ε ρ) (outcome : Value) : List ε :=
  (journal.events.find? outcome).getD []

/-- The events of an outcome, or all of them when it counts as false. -/
def eventsOf? (journal : Journal ε ρ) (outcome : Value) : Except Error (List ε) :=
  if !outcome.truthy then .ok journal.events.values.flatten
  else if outcome.hashable then .ok (journal.eventsOf outcome)
  else .error .type

/-- Record a result. -/
def addResult (journal : Journal ε ρ) (result : ρ) : Journal ε ρ :=
  { journal with results := journal.results ++ [result] }

end Journal

end Rulebook
