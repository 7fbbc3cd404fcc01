import Rulebook.Proofs.Strand.Balance
import Rulebook.Proofs.Strand.Progress

/-!
Strands that keep to a charter and never wait in a circle.

The ranks of a charter are those of the strands, whatever they enter into their accounts.  So as long
as all keep to the charter nothing is forgotten (`Patient.run`), and when nothing is due any more
every strand of finite rank has come to an outcome (`Patient.exists_outcome`).
-/

namespace Rulebook.Strand.Loop

variable {σ ρ Λ : Type} [Preorder Λ] {charter : Charter σ ρ Λ} {ledger : Ledger Λ}
  {loop : Loop σ ρ}

theorem Live.mono {pledges later : Pledges ρ} {running : Option Nat}
    (h : Live pledges running loop) (hlater : pledges <+: later) : Live later running loop :=
  h.extend hlater (.refl loop) fun _ hle hlt => absurd hlt (Nat.not_lt.2 hle)

theorem Balanced.length_pledges {having : Option Nat} (h : Balanced charter ledger having loop) :
    (charter.pledges ledger).length = loop.records.length := by
  rw [Charter.pledges, List.length_map, h.length]

theorem Balanced.length_known {having : Option Nat} (h : Balanced charter ledger having loop)
    (number : Nat) (wait : Wait σ ρ) (hwait : loop.waits[number]? = some (some wait)) :
    wait.known.length = wait.strands.length :=
  (h.wait number wait hwait).1.length_eq.symm

/-- Every strand keeps to the charter, nothing is forgotten, and the charter holds of the world. -/
structure Patient (charter : Charter σ ρ Λ) (ledger : Ledger Λ) (loop : Loop σ ρ) : Prop where
  balanced : Balanced charter ledger none loop
  live : Live (charter.pledges ledger) none loop
  holds : charter.holds ledger loop.world

/-- A strand that keeps to the charter has its turn. -/
theorem patient_follow {strand : Strand σ ρ} {own : Nat}
    (hbalanced : Balanced charter ledger (some own) loop)
    (hlive : Live (charter.pledges ledger) (some own) loop)
    (hhonours : charter.Honours strand own ledger loop.world) :
    ∃ later, ledger.Grows later ∧ Patient charter later (follow own strand loop) := by
  induction strand generalizing ledger loop with
  | done outcome =>
      obtain ⟨a, hmay, hsettles, hholds⟩ := hhonours
      exact ⟨_, hmay.grows, (hbalanced.enter hmay).finish ⟨a, hmay.account, hsettles⟩,
        (hlive.mono (Charter.pledges_grows hmay.grows)).finish outcome, hholds⟩
  | read next ih => exact ih loop.world hbalanced hlive hhonours
  | write world next ih =>
      exact ih (hbalanced.ofWorld world) ⟨hlive.goesOn, hlive.attended⟩ hhonours
  | pause next ih =>
      obtain ⟨a, hmay, hholds, hnext⟩ := hhonours
      exact ⟨_, hmay.grows, (hbalanced.enter hmay).pause hnext,
        (hlive.mono (Charter.pledges_grows hmay.grows)).pause next, hholds⟩
  | spawn child next ihChild ih =>
      obtain ⟨a, hchild, hnext⟩ := hhonours
      rw [hbalanced.length] at hchild hnext
      have hadd := hlive.add (charter.pledge a) child
      rw [Charter.pledges, ← List.map_singleton, ← List.map_append] at hadd
      obtain ⟨later, hlater, hpatient⟩ := ih loop.records.length (hbalanced.add hchild) hadd hnext
      exact ⟨later, (ledger.grows_openFor a).trans hlater, hpatient⟩
  | watch watched change next ih =>
      apply ih (hbalanced.listen (show MayTell charter loop.waits watched (.world change) from
        hhonours.1)) (hlive.listen watched _)
      rw [world_listen]
      exact hhonours.2
  | await strands enough next ih =>
      obtain ⟨a, hmay, hholds, hawait, hnext⟩ := hhonours
      have henter := hbalanced.enter hmay
      have hlater : Live (charter.pledges _) (some own) loop :=
        hlive.mono (Charter.pledges_grows hmay.grows)
      have hknown := henter.admitsEach strands
      rw [Loop.follow]
      split
      · next henough =>
          obtain ⟨later, hgrows, hpatient⟩ := ih _ henter hlater
            (hnext _ henough _ loop.world (.refl _) rfl hholds hknown)
          exact ⟨later, hmay.grows.trans hgrows, hpatient⟩
      · next henough =>
          refine ⟨_, hmay.grows, henter.suspend ⟨hknown, hnext⟩,
            hlater.suspend henter.length_pledges (Charter.getElem?_pledges hmay.account) hawait rfl
              (Bool.eq_false_of_not_eq_true henough), ?_⟩
          rw [world_suspend]
          exact hholds

/-- An event happens. -/
theorem Patient.step (h : Patient charter ledger loop) {next : Loop σ ρ}
    (hstep : loop.step = some next) : ∃ later, ledger.Grows later ∧ Patient charter later next := by
  unfold Loop.step at hstep
  split at hstep
  · cases hstep
  · next own rest queue hqueue =>
      cases hstep
      obtain ⟨middle, hmiddle, _, hbalanced, hhonours⟩ := h.balanced.turnOf h.holds hqueue
      obtain ⟨later, hlater, hpatient⟩ := patient_follow hbalanced
        ((h.live.turn hqueue).mono (Charter.pledges_grows hmiddle)) hhonours
      exact ⟨later, hmiddle.trans hlater, hpatient⟩
  · next hearer outcome queue hqueue =>
      cases hstep
      obtain ⟨strand, hadmits, htell⟩ := h.balanced.news hearer outcome (hqueue ▸ List.mem_cons_self)
      obtain ⟨hbalanced, hholds⟩ := (h.balanced.tail_news hqueue).hear h.holds hadmits htell
      exact ⟨ledger, .refl ledger, hbalanced, h.live.hear hqueue, hholds⟩

/-- Any number of events happen. -/
theorem Patient.run (h : Patient charter ledger loop) (turns : Nat) :
    ∃ later, ledger.Grows later ∧ Patient charter later (run turns loop) := by
  induction turns generalizing ledger loop with
  | zero => exact ⟨ledger, .refl ledger, h⟩
  | succ turns ih =>
      rw [Loop.run]
      cases hstep : loop.step with
      | none => exact ⟨ledger, .refl ledger, h⟩
      | some next =>
          obtain ⟨middle, hmiddle, hpatient⟩ := h.step hstep
          obtain ⟨later, hlater, hrest⟩ := ih hpatient
          exact ⟨later, hmiddle.trans hlater, hrest⟩

/-- When nothing is due any more, a strand of finite rank has come to an outcome. -/
theorem Patient.exists_outcome (h : Patient charter ledger loop) (hqueue : loop.queue = [])
    {strand : Nat} {a : Λ} (haccount : ledger.accounts[strand]? = some a)
    (hrank : charter.rank a ≠ ⊤) : ∃ outcome, loop.outcome? strand = some outcome :=
  h.live.outcome h.balanced.length_pledges h.balanced.length_known hqueue
    (Charter.getElem?_pledges haccount) hrank

/-- A single strand that keeps to the charter. -/
theorem patient_start {world : σ} {strand : Strand σ ρ} {a : Λ}
    (hstarts : charter.Starts (charter.Honours strand 0) 0 a)
    (hholds : charter.holds ⟨[a], 0⟩ world) :
    Patient charter ⟨[a], 0⟩ (start world strand) where
  balanced := balanced_start hstarts
  live := live_start world strand (charter.pledge a)
  holds := hholds

end Rulebook.Strand.Loop
