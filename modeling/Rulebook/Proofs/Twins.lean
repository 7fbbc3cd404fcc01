import Rulebook.Eval
import Rulebook.Proofs.Strand.Twins

/-!
Steps that do the same.

Two steps are twins under a relation of worlds if what they leave to be done are twins, whatever is
done after them.  There is one rule for each way to make a step from others.
-/

namespace Rulebook

open Strand

variable {σ ρ α β : Type} {R : σ → σ → Prop}

/-- Strands that are started one after the other, and what goes on with their numbers. -/
theorem Strand.Twins.spawnEach {children children' : List (Strand σ ρ)}
    (hchildren : List.Forall₂ (Strand.Twins R) children children')
    {next next' : List Nat → Strand σ ρ}
    (hnext : ∀ numbers, Strand.Twins R (next numbers) (next' numbers)) :
    Strand.Twins R (Strand.spawnEach children next) (Strand.spawnEach children' next') := by
  induction hchildren generalizing next next' with
  | nil => exact hnext []
  | cons hchild _ ih =>
      exact .spawn hchild fun number => ih fun numbers => hnext (number :: numbers)

namespace Eval

/-- Two steps that do the same in related worlds, keep the worlds related, and come to the same. -/
def Twins (R : σ → σ → Prop) (step step' : Eval σ α) : Prop :=
  ∀ next next' : Except Error α → Strand σ Ending,
    (∀ result, Strand.Twins R (next result) (next' result)) →
      Strand.Twins R (step next) (step' next')

namespace Twins

variable {step step' : Eval σ α}

theorem outcome (result : Except Error α) : Twins R (Eval.outcome result) (Eval.outcome result) :=
  fun _ _ hnext => hnext result

theorem bind {rest rest' : α → Eval σ β} (h : Twins R step step')
    (hrest : ∀ a, Twins R (rest a) (rest' a)) : Twins R (step >>= rest) (step' >>= rest') := by
  intro next next' hnext
  apply h
  intro result
  cases result with
  | ok a => exact hrest a next next' hnext
  | error e => exact hnext (.error e)

theorem attempt (h : Twins R step step') : Twins R step.attempt step'.attempt :=
  fun _ _ hnext => h _ _ fun result => hnext (.ok result)

/-- Steps that look at the world first. -/
theorem get_bind {rest rest' : σ → Eval σ α}
    (hrest : ∀ world world', R world world' → Twins R (rest world) (rest' world')) :
    Twins R (MonadState.get >>= rest) (MonadState.get >>= rest') :=
  fun _ _ hnext => .read fun world world' hworld => hrest world world' hworld _ _ hnext

theorem modify {change change' : σ → σ}
    (h : ∀ world world', R world world' → R (change world) (change' world')) :
    Twins R (modify change : Eval σ Unit) (modify change') :=
  fun _ _ hnext => .read fun world world' hworld => .write (h world world' hworld) (hnext (.ok ()))

theorem pause : Twins R (Eval.pause : Eval σ Unit) Eval.pause :=
  fun _ _ hnext => .pause (hnext (.ok ()))

variable [Parceled α] [Parceled β]

theorem strand (h : Twins R step step') : Strand.Twins R step.strand step'.strand :=
  h _ _ fun _ => .done _

theorem spawn (h : Twins R step step') {change change' : Ending → σ → σ}
    (hchange : ∀ ending world world', R world world' →
      R (change ending world) (change' ending world')) :
    Twins R (Eval.spawn step change) (Eval.spawn step' change') :=
  fun _ _ hnext => .spawn h.strand fun number => .watch number hchange (hnext (.ok number))

theorem join (number : Nat) : Twins R (Eval.join number : Eval σ α) (Eval.join number) :=
  fun _ _ hnext => .await _ _ fun _ => hnext _

theorem each {steps steps' : List (Eval σ α)} (h : List.Forall₂ (Twins R) steps steps') :
    Twins R (Eval.each steps) (Eval.each steps') := by
  intro next next' hnext
  apply Strand.Twins.spawnEach
  · rw [List.forall₂_map_left_iff, List.forall₂_map_right_iff]
    exact h.imp fun _ _ hstep => hstep.strand
  · exact fun numbers => .await _ _ fun _ => hnext _

theorem both {other other' : Eval σ β} (h : Twins R step step') (hother : Twins R other other') :
    Twins R (Eval.both step other) (Eval.both step' other') :=
  fun _ _ hnext => Strand.Twins.spawnEach (.cons h.strand (.cons hother.strand .nil))
    fun _ => .await _ _ fun _ => hnext _

/-- Twins that are made in related worlds come to the same, and leave related worlds. -/
theorem run (h : Twins R step step') {world world' : σ} (hworld : R world world') :
    (Eval.run world step).1 = (Eval.run world' step').1 ∧
      R (Eval.run world step).2 (Eval.run world' step').2 :=
  have hloop := (Loop.Twins.start hworld h.strand).run turnLimit
  ⟨congrArg received (hloop.outcome?_eq 0), hloop.world⟩

end Twins

end Eval

end Rulebook
