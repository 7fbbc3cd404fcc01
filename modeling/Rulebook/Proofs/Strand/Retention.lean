import Rulebook.Proofs.Strand.Balance
import Rulebook.Proofs.Strand.Progress

/-!
What a turn leaves alone.

What a strand does when it has its turn leaves alone what else is due, the waits, and the outcomes of
the others (`leaves_follow`).  So an outcome that is there stays there (`InTurn.outcome_run`).
-/

namespace Rulebook.Strand.Loop

variable {σ ρ : Type} {own : Option Nat} {loop other last next : Loop σ ρ}

/-! ### What a turn leaves alone -/

/-- What is due stays due, who waits goes on waiting, and the outcomes of others stay as they are. -/
structure Leaves (own : Option Nat) (loop other : Loop σ ρ) : Prop where
  queue : ∀ event ∈ loop.queue, event ∈ other.queue
  waits : loop.waits <+: other.waits
  outcome : ∀ strand < loop.records.length, own ≠ some strand →
    other.outcome? strand = loop.outcome? strand
  length : loop.records.length ≤ other.records.length

theorem Leaves.of_extends (h : Leaves own other last) (hextends : Extends loop other) :
    Leaves own loop last where
  queue event hevent := h.queue event (hextends.queue event hevent)
  waits := hextends.waits ▸ h.waits
  outcome strand hstrand hne :=
    (h.outcome strand (Nat.lt_of_lt_of_le hstrand hextends.length) hne).trans
      (hextends.outcome strand hstrand)
  length := Nat.le_trans hextends.length h.length

theorem Extends.leaves (h : Extends loop other) (own : Option Nat) : Leaves own loop other where
  queue := h.queue
  waits := h.waits ▸ List.prefix_rfl
  outcome strand hstrand _ := h.outcome strand hstrand
  length := h.length

theorem leaves_finish (loop : Loop σ ρ) (strand : Nat) (outcome : ρ) :
    Leaves (some strand) loop (loop.finish strand outcome) where
  queue _ hevent := List.mem_append_left _ hevent
  waits := List.prefix_rfl
  outcome other _ hne := by
    rw [outcome?, outcome?, Loop.finish, List.getElem?_set_ne fun heq => hne (congrArg some heq)]
  length := Nat.le_of_eq List.length_set.symm

theorem leaves_suspend (own : Option Nat) (loop : Loop σ ρ) (wait : Wait σ ρ) :
    Leaves own loop (loop.suspend wait) := by
  have h := (extends_listenEach loop.waits.length wait.strands.zipIdx
    { loop with waits := loop.waits ++ [some wait] }).leaves own
  exact ⟨h.queue, (List.prefix_append _ _).trans h.waits, h.outcome, h.length⟩

/-- A strand has its turn. -/
theorem leaves_follow (number : Nat) (strand : Strand σ ρ) (loop : Loop σ ρ) :
    Leaves (some number) loop (follow number strand loop) := by
  induction strand generalizing loop with
  | done outcome => exact leaves_finish loop number outcome
  | read next ih => exact ih loop.world loop
  | write world next ih =>
      have h := ih { loop with world }
      exact ⟨h.queue, h.waits, h.outcome, h.length⟩
  | pause next ih => exact (extends_enqueue loop _).leaves _
  | spawn child next ihChild ih => exact (ih _ (loop.add child)).of_extends (extends_add loop child)
  | watch strand change next ih =>
      exact (ih (loop.listen strand (.world change))).of_extends (extends_listen loop strand _)
  | await strands enough next ih =>
      rw [Loop.follow]
      split
      · exact ih _ loop
      · exact leaves_suspend _ loop _

theorem outcome?_hear (hearer : Hearer σ ρ) (outcome : ρ) (loop : Loop σ ρ) (strand : Nat) :
    (hear hearer outcome loop).outcome? strand = loop.outcome? strand := by
  unfold hear
  dsimp only
  split
  · rfl
  · split
    · split <;> rfl
    · rfl

/-- An outcome that is there stays there. -/
theorem InTurn.outcome_step {begun : Nat} (h : InTurn begun none loop)
    (hstep : loop.step = some next) {strand : Nat} {outcome : ρ}
    (houtcome : loop.outcome? strand = some outcome) : next.outcome? strand = some outcome := by
  unfold Loop.step at hstep
  split at hstep
  · cases hstep
  · next number rest queue hqueue =>
      cases hstep
      have hlt : strand < loop.records.length := by
        obtain ⟨record, hrecord, _⟩ := Option.bind_eq_some_iff.1 houtcome
        exact (List.getElem?_eq_some_iff.1 hrecord).1
      have hbusy : number ∈ loop.busy none := by simp [busy, due, hqueue, Event.strand?]
      have hne : number ≠ strand := by
        rintro rfl
        cases (h.unfinished number hbusy).2.symm.trans houtcome
      exact ((leaves_follow number rest { loop with queue }).outcome strand hlt
        fun heq => hne (Option.some.inj heq)).trans houtcome
  · cases hstep
    exact (outcome?_hear _ _ _ strand).trans houtcome

theorem InTurn.outcome_run {begun : Nat} (h : InTurn begun none loop) {strand : Nat} {outcome : ρ}
    (houtcome : loop.outcome? strand = some outcome) (turns : Nat) :
    (loop.run turns).outcome? strand = some outcome := by
  induction turns generalizing begun loop with
  | zero => exact houtcome
  | succ turns ih =>
      rw [Loop.run]
      cases hstep : loop.step with
      | none => exact houtcome
      | some next =>
          obtain ⟨later, hlater⟩ := h.step hstep
          exact ih hlater (h.outcome_step hstep houtcome)

/-- Strands only become more. -/
theorem length_le_step (hstep : loop.step = some next) :
    loop.records.length ≤ next.records.length := by
  unfold Loop.step at hstep
  split at hstep
  · cases hstep
  · next number rest queue _ =>
      cases hstep
      exact (leaves_follow number rest { loop with queue }).length
  · cases hstep
    unfold hear
    dsimp only
    split
    · exact Nat.le_refl _
    · split
      · split <;> exact Nat.le_refl _
      · exact Nat.le_refl _

theorem length_le_run (loop : Loop σ ρ) (turns : Nat) :
    loop.records.length ≤ (loop.run turns).records.length := by
  induction turns generalizing loop with
  | zero => exact Nat.le_refl _
  | succ turns ih =>
      rw [Loop.run]
      cases hstep : loop.step with
      | none => exact Nat.le_refl _
      | some next => exact Nat.le_trans (length_le_step hstep) (ih next)

theorem run_succ_of_step (hstep : loop.step = some next) (turns : Nat) :
    loop.run (turns + 1) = next.run turns := by
  rw [Loop.run, hstep]

/-- The strand that comes first in the queue is at its end; that is its outcome from then on. -/
theorem InTurn.outcome_of_done {begun number : Nat} {outcome : ρ} {queue : List (Event σ ρ)}
    (hqueue : loop.queue = .turn number (.done outcome) :: queue)
    (h : InTurn begun (some number) { loop with queue }) (turns : Nat) :
    (loop.run (turns + 1)).outcome? number = some outcome := by
  have hstep : loop.step = some (Loop.finish { loop with queue } number outcome) := by
    unfold Loop.step
    rw [hqueue]
    rfl
  have hlt : number < loop.records.length := (h.unfinished number (by simp [busy])).1
  rw [run_succ_of_step hstep]
  refine (h.finish outcome).outcome_run ?_ turns
  simp [outcome?, Loop.finish, List.getElem?_set_self hlt]

end Rulebook.Strand.Loop
