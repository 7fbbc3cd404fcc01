import Rulebook.Proofs.Condition.Trail
import Rulebook.Proofs.Fact.Twins

/-!
What evaluating conditions does not depend on.

Conditions are scheduled by the almanac, and apart from that they depend on the world through their
comparisons and their references.  So where looking facts up is the same in related worlds, and
names stand for the same conditions there, conditions come out the same
(`Congruent.twins_evaluate`).
-/

namespace Rulebook

open Session Eval

variable {σ : Type} {R : σ → σ → Prop}

theorem twins_runBatch {batch : Batch σ}
    (hbatch : ∀ entry ∈ batch, Twins R entry.1.run entry.1.run) :
    Twins R (Schedule.runBatch batch) (Schedule.runBatch batch) := by
  refine Twins.bind (.each (List.forall₂_same.2 fun step hstep => ?_)) fun outcomes => ?_
  · obtain ⟨entry, hentry, rfl⟩ := List.mem_map.1 hstep
    exact hbatch entry hentry
  · exact (Twins.outcome (Schedule.allOk outcomes)).bind fun results => .outcome _

namespace Congruent

variable [HasSession σ]

theorem twins_skipEach (h : Congruent R) (batch : Batch σ) :
    Twins R (Schedule.skipEach batch) (Schedule.skipEach batch) := by
  induction batch with
  | nil => exact .outcome _
  | cons entry rest ih =>
      exact (h.count .skips _).bind fun _ => ih.bind fun results => .outcome _

theorem twins_runBatches (h : Congruent R) (join : Join) {batches : List (Batch σ)}
    (hbatches : ∀ batch ∈ batches, ∀ entry ∈ batch, Twins R entry.1.run entry.1.run) :
    Twins R (Schedule.runBatches join batches) (Schedule.runBatches join batches) := by
  induction batches with
  | nil => exact .outcome _
  | cons batch rest ih =>
      rw [List.forall_mem_cons] at hbatches
      refine (twins_runBatch hbatches.1).bind fun results => ?_
      split
      · exact (h.twins_skipEach rest.flatten).bind fun skipped => .outcome _
      · exact (ih hbatches.2).bind fun others => .outcome _

/-- The children of a combinator are put into the same batches in related worlds. -/
theorem twins_schedule (h : Congruent R) (join : Join) {branches : List (Branch σ)}
    (hbranches : ∀ branch ∈ branches, Twins R branch.run branch.run) :
    Twins R (Schedule.run join branches) (Schedule.run join branches) := by
  unfold Schedule.run
  split
  · exact .outcome _
  · next branch => exact (hbranches branch List.mem_cons_self).bind fun result => .outcome _
  · apply twins_current_bind
    intro world world' hworld
    rw [h.almanac world world' hworld]
    refine (h.twins_runBatches join fun batch hbatch entry hentry => ?_).bind
      fun found => .outcome _
    exact hbranches entry.1 (mem_of_mem_batch hbatch hentry)

/-- A condition comes out the same in related worlds, given that comparisons and what references
lead to do. -/
theorem twins_evaluateWith (h : Congruent R) {meaning : Meaning σ}
    (hcompare : ∀ leaf, Twins R (meaning.compare leaf) (meaning.compare leaf))
    (hnamed : ∀ world world', R world world' → meaning.named world = meaning.named world')
    {follow : Condition → Eval σ ConditionResult}
    (hfollow : ∀ target, Twins R (follow target) (follow target)) (condition : Condition) :
    Twins R (condition.evaluateWith meaning follow) (condition.evaluateWith meaning follow) := by
  have hbranches : ∀ children : List Condition,
      (∀ child ∈ children,
        Twins R (child.evaluateWith meaning follow) (child.evaluateWith meaning follow)) →
        ∀ branch ∈ Condition.branches meaning follow children, Twins R branch.run branch.run := by
    intro children hchildren branch hbranch
    rw [Condition.branches_eq_map] at hbranch
    obtain ⟨child, hchild, rfl⟩ := List.mem_map.1 hbranch
    exact hchildren child hchild
  induction condition with
  | all children name priority ih =>
      rw [Condition.evaluateWith]
      refine (h.count .evaluations _).bind fun _ => ?_
      exact (h.twins_schedule .all (hbranches children ih)).bind fun found => .outcome _
  | any children name priority ih =>
      rw [Condition.evaluateWith]
      refine (h.count .evaluations _).bind fun _ => ?_
      exact (h.twins_schedule .any (hbranches children ih)).bind fun found => .outcome _
  | not child name priority ih =>
      rw [Condition.evaluateWith]
      exact (h.count .evaluations _).bind fun _ => ih.bind fun result => .outcome _
  | never name =>
      rw [Condition.evaluateWith]
      exact (h.count .evaluations _).bind fun _ => .outcome _
  | reference target name priority =>
      rw [Condition.evaluateWith]
      refine (h.count .evaluations _).bind fun _ => .get_bind fun world world' hworld => ?_
      rw [hnamed world world' hworld]
      dsimp only
      split
      · exact (hfollow _).bind fun result => .outcome _
      · apply twins_current_bind
        intro seen seen' hseen
        rw [h.almanac seen seen' hseen]
        split
        · exact .outcome _
        · split
          · exact .outcome _
          · exact .outcome _
  | comparison leaf name priority =>
      rw [Condition.evaluateWith]
      refine (h.count .evaluations _).bind fun _ => (hcompare leaf).bind fun found => ?_
      apply twins_current_bind
      intro world world' hworld
      rw [h.almanac world world' hworld]
      exact .outcome _

/-- A condition comes out the same in related worlds in which the same conditions have names. -/
theorem twins_evaluate (h : Congruent R) {named : σ → Table Value Condition}
    (hnamed : ∀ world world', R world world' → named world = named world')
    (condition : Condition) : Twins R (condition.evaluate named) (condition.evaluate named) := by
  have hdepth : ∀ depth condition,
      Twins R (Condition.evaluateIn ⟨Leaf.compare depthLimit, named⟩ depth condition)
        (Condition.evaluateIn ⟨Leaf.compare depthLimit, named⟩ depth condition) := by
    intro depth
    induction depth with
    | zero => exact fun condition =>
        h.twins_evaluateWith (h.twins_compare depthLimit) hnamed (fun _ => .outcome _) condition
    | succ depth ih => exact h.twins_evaluateWith (h.twins_compare depthLimit) hnamed ih
  exact hdepth depthLimit condition

end Congruent

end Rulebook
