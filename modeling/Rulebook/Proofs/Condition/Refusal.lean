import Mathlib.Tactic.Common
import Rulebook.Proofs.Condition.Building
import Rulebook.Proofs.Condition.Grammar

/-!
Where a step of building is refused.

A reader of members succeeds or is refused at its place (`Decided`).  A comparison is read last of
all with the path in its value, so it may also be refused there (`LeafEnd`).
-/

namespace Rulebook.Definition

open Condition Registry

variable {known : String → Prop} {members : Members} {definition : Value}
  {before after : Option Registry} {place : String}

/-- A step of building is refused at a place. -/
def Refused {α : Type} (step : Build α) (before : Option Registry) (place : String) : Prop :=
  ∃ cause after, (step.run before : Except Error α × Option Registry) =
    (.error (.build cause (some place)), after)

namespace Refused

variable {α β : Type} {step : Build α} {next : α → Build β}

theorem refuse (cause : BuildCause) :
    Refused (Build.refuse cause place : Build α) before place :=
  ⟨cause, before, rfl⟩

/-- What is refused at first is refused. -/
theorem bind (h : Refused step before place) : Refused (step >>= next) before place := by
  obtain ⟨cause, after, hstep⟩ := h
  refine ⟨cause, after, ?_⟩
  show (ExceptT.bindCont next (step.run before).1).run (step.run before).2 = _
  rw [hstep]
  rfl

end Refused

/-- A step of building succeeds or is refused at a place. -/
def Decided {α : Type} (step : Build α) (before : Option Registry) (place : String) : Prop :=
  (∃ a after, Gives step before a after) ∨ Refused step before place

end Rulebook.Definition
