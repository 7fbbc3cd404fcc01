import Rulebook.Proofs.Strand.Progress
import Rulebook.Proofs.Strand.Termination

/-!
Strands that keep their pledges, run to the end.

`holds_of_outcome?` says that a strand which keeps its pledge comes to an outcome that it has
pledged, if it comes to one, and `exists_outcome?` that it does come to one if its rank is finite.
-/

namespace Rulebook.Strand.Loop

variable {σ ρ : Type} {inv : Invariant σ ρ} {pledges : Pledges ρ} {loop : Loop σ ρ}

/-- Every strand keeps its pledge, nothing is forgotten, and the world keeps the invariant. -/
structure Sound (inv : Invariant σ ρ) (pledges : Pledges ρ) (loop : Loop σ ρ) : Prop where
  kept : Kept inv pledges loop
  live : Live pledges none loop
  world : inv pledges loop.world

/-- A strand that keeps its pledge has its turn. -/
theorem sound_follow {strand : Strand σ ρ} {number : Nat} {pledge : Pledge ρ}
    (hkept : Kept inv pledges loop) (hlive : Live pledges (some number) loop)
    (hpledge : pledges[number]? = some pledge)
    (hkeeps : Keeps inv strand pledge pledges loop.world) :
    ∃ later, pledges <+: later ∧ Sound inv later (follow number strand loop) := by
  induction strand generalizing pledges loop with
  | done outcome =>
      exact ⟨pledges, List.prefix_rfl, hkept.finish ⟨pledge, hpledge, hkeeps.1⟩,
        hlive.finish outcome, hkeeps.2⟩
  | read next ih => exact ih loop.world hkept hlive hpledge hkeeps
  | write world next ih =>
      exact ih (hkept.ofWorld world) ⟨hlive.goesOn, hlive.attended⟩ hpledge hkeeps
  | pause next ih =>
      refine ⟨pledges, List.prefix_rfl, hkept.enqueue fun event hevent => ?_, hlive.pause next,
        hkeeps.1⟩
      rw [List.mem_singleton.1 hevent]
      exact ⟨pledge, hpledge, hkeeps.2⟩
  | spawn child next ihChild ih =>
      obtain ⟨childPledge, hchild, hnext⟩ := hkeeps
      have hmore : pledges <+: pledges ++ [childPledge] := List.prefix_append _ _
      rw [hkept.length] at hnext
      obtain ⟨later, hlater, hsound⟩ := ih loop.records.length (hkept.add hchild)
        (hlive.add childPledge child) (getElem?_mono hmore hpledge) hnext
      exact ⟨later, hmore.trans hlater, hsound⟩
  | watch watched change next ih =>
      apply ih (hkept.listen hkeeps.1) (hlive.listen watched _) hpledge
      rw [world_listen]
      exact hkeeps.2
  | await strands enough next ih =>
      obtain ⟨hinv, hawait, hnext⟩ := hkeeps
      have hknown := hkept.admitsEach strands
      rw [follow]
      split
      · next henough =>
          exact ih _ hkept hlive hpledge
            (hnext _ henough pledges loop.world List.prefix_rfl hinv hknown)
      · next henough =>
          refine ⟨pledges, List.prefix_rfl, hkept.suspend ⟨pledge, hpledge, hknown, hnext⟩,
            hlive.suspend hkept.length hpledge hawait rfl (Bool.eq_false_of_not_eq_true henough), ?_⟩
          rw [world_suspend]
          exact hinv

/-- An event happens. -/
theorem Sound.step (h : Sound inv pledges loop) {next : Loop σ ρ} (hstep : loop.step = some next) :
    ∃ later, pledges <+: later ∧ Sound inv later next := by
  unfold Loop.step at hstep
  split at hstep
  · cases hstep
  · next strand rest queue hqueue =>
      cases hstep
      have hevent := h.kept.event (.turn strand rest) (hqueue ▸ List.mem_cons_self)
      obtain ⟨pledge, hpledge, hkeeps⟩ := hevent
      exact sound_follow (h.kept.tail hqueue) (h.live.turn hqueue) hpledge
        (hkeeps pledges loop.world List.prefix_rfl h.world)
  · next hearer outcome queue hqueue =>
      cases hstep
      have hhear := h.kept.event (.news hearer outcome) (hqueue ▸ List.mem_cons_self)
      obtain ⟨hkept, hworld⟩ := (h.kept.tail hqueue).hear h.world hhear
      exact ⟨pledges, List.prefix_rfl, hkept, h.live.hear hqueue, hworld⟩

/-- Any number of events happen. -/
theorem Sound.run (h : Sound inv pledges loop) (turns : Nat) :
    ∃ later, pledges <+: later ∧ Sound inv later (run turns loop) := by
  induction turns generalizing pledges loop with
  | zero => exact ⟨pledges, List.prefix_rfl, h⟩
  | succ turns ih =>
      rw [Loop.run]
      cases hstep : loop.step with
      | none => exact ⟨pledges, List.prefix_rfl, h⟩
      | some next =>
          obtain ⟨middle, hmiddle, hsound⟩ := h.step hstep
          obtain ⟨later, hlater, hrest⟩ := ih hsound
          exact ⟨later, hmiddle.trans hlater, hrest⟩

variable {world : σ} {strand : Strand σ ρ} {pledge : Pledge ρ}

theorem sound_start (hinv : inv [pledge] world)
    (hkeeps : Lasting inv [pledge] (Keeps inv strand pledge)) :
    Sound inv [pledge] (start world strand) :=
  ⟨kept_start hkeeps, live_start world strand pledge, hinv⟩

/-- A strand that keeps its pledge comes to an outcome that it has pledged, if to any. -/
theorem holds_of_outcome? (hinv : inv [pledge] world)
    (hkeeps : Lasting inv [pledge] (Keeps inv strand pledge)) {turns : Nat} {outcome : ρ}
    (houtcome : ((start world strand).run turns).outcome? 0 = some outcome) :
    pledge.holds outcome := by
  obtain ⟨later, hlater, hsound⟩ := (sound_start hinv hkeeps).run turns
  obtain ⟨found, hfound, hholds⟩ := hsound.kept.outcome 0 outcome houtcome
  have hsame := getElem?_mono hlater (List.getElem?_cons_zero (a := pledge))
  rw [hfound, Option.some.injEq] at hsame
  exact hsame ▸ hholds

/-- A strand of finite rank that keeps its pledge comes to an outcome. -/
theorem exists_outcome? (hinv : inv [pledge] world)
    (hkeeps : Lasting inv [pledge] (Keeps inv strand pledge)) (hrank : pledge.rank ≠ ⊤) :
    ∃ turns outcome, ((start world strand).run turns).outcome? 0 = some outcome := by
  obtain ⟨turns, hqueue⟩ := exists_run_queue_nil (start world strand)
  obtain ⟨later, hlater, hsound⟩ := (sound_start hinv hkeeps).run turns
  exact ⟨turns, hsound.live.outcome hsound.kept.length hsound.kept.length_known hqueue
    (getElem?_mono hlater (List.getElem?_cons_zero (a := pledge))) hrank⟩

end Rulebook.Strand.Loop
