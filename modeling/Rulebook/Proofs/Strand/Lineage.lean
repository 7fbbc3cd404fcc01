import Rulebook.Proofs.Strand.Truth

/-!
Which strands a strand starts, and their first turns.

A strand that is started has its first turn some time later, with what it was started with
(`Proper.exists_firstTurn`).  What it notes in its account at that moment still stands there, or
something that came of it, whatever the others do (`Balanced.run_noting`).
-/

namespace Rulebook.Strand

variable {σ ρ Λ : Type}

namespace Loop

variable {loop next : Loop σ ρ} {strand turns : Nat} {rest : Strand σ ρ}

/-! ### Turns of one strand -/

/-- A strand has its next turn after so many turns, and this is what is left of it by then. -/
structure FirstTurn (loop : Loop σ ρ) (strand turns : Nat) (rest : Strand σ ρ) : Prop where
  queue : ∃ queue, (loop.run turns).queue = .turn strand rest :: queue
  before : ∀ t < turns, (loop.run t).next? ≠ some strand

theorem next?_of_queue {queue : List (Event σ ρ)} (h : loop.queue = .turn strand rest :: queue) :
    loop.next? = some strand := by
  rw [next?, h]
  rfl

theorem mem_due_of_next? (h : loop.next? = some strand) : strand ∈ loop.due := by
  obtain ⟨event, hevent, hstrand⟩ := Option.bind_eq_some_iff.1 h
  exact List.mem_filterMap.2 ⟨event, List.mem_of_head? hevent, hstrand⟩

theorem FirstTurn.next? (h : FirstTurn loop strand turns rest) :
    (loop.run turns).next? = some strand :=
  h.queue.elim fun _ => next?_of_queue

theorem FirstTurn.of_step (hstep : loop.step = some next)
    (h : FirstTurn loop strand (turns + 1) rest) : FirstTurn next strand turns rest := by
  have hrun := run_succ_of_step hstep
  refine ⟨hrun turns ▸ h.queue, fun t ht => ?_⟩
  rw [← hrun t]
  exact h.before (t + 1) (Nat.succ_lt_succ ht)

/-- A strand with a turn to come has it before it comes to an outcome. -/
theorem Proper.exists_firstTurn (h : loop.Proper) (hdue : .turn strand rest ∈ loop.queue) {outcome : ρ}
    (houtcome : (loop.run turns).outcome? strand = some outcome) :
    ∃ t < turns, FirstTurn loop strand t rest := by
  -- It goes on as one does that waited for nothing.
  have hexpects : Expects ⟨strand, [], [], fun _ => true, fun _ => rest⟩ loop :=
    .inr ⟨[], hdue, rfl, .nil⟩
  obtain ⟨⟨_, hturn⟩, htruth⟩ := h
  obtain ⟨t, ht, ⟨_, hqueue, _⟩, hbefore⟩ := hexpects.exists_goesOn hturn htruth houtcome
  exact ⟨t, ht, hqueue, hbefore⟩

/-- A strand that is there only later has its first turn later. -/
theorem FirstTurn.of_run (hproper : loop.Proper) {earlier : Nat}
    (hnew : (loop.run earlier).records.length ≤ strand)
    (h : FirstTurn (loop.run (earlier + 1)) strand turns rest) :
    FirstTurn loop strand (earlier + 1 + turns) rest := by
  refine ⟨run_add (earlier + 1) turns loop ▸ h.queue, fun t ht => ?_⟩
  rcases Nat.lt_or_ge t (earlier + 1) with hlt | hle
  · intro hnext
    obtain ⟨⟨_, hturn⟩, _⟩ := hproper.run t
    have hthere := (hturn.unfinished strand (by
      simpa [busy] using .inl (mem_due_of_next? hnext))).1
    obtain ⟨more, rfl⟩ := Nat.exists_eq_add_of_le (Nat.le_of_lt_succ hlt)
    have hmore := length_le_run (loop.run t) more
    rw [← run_add] at hmore
    exact Nat.not_lt.2 hnew (Nat.lt_of_lt_of_le hthere hmore)
  · obtain ⟨t, rfl⟩ := Nat.exists_eq_add_of_le hle
    rw [run_add]
    exact h.before t (Nat.lt_of_add_lt_add_left ht)

/-- The turn after which a strand has its next one. -/
def firstTurn? (loop : Loop σ ρ) (strand turns : Nat) : Option Nat :=
  (List.range turns).find? fun t => (loop.run t).next? = some strand

/-- The strands that a strand starts in its turn after so many turns. -/
def startedAt (loop : Loop σ ρ) (own turns : Nat) : List Nat :=
  if (loop.run turns).next? = some own then
    List.range' (loop.run turns).records.length
      ((loop.run (turns + 1)).records.length - (loop.run turns).records.length)
  else []

/-- The strands that a strand starts in some turns. -/
def startedIn (loop : Loop σ ρ) (own : Nat) (turns : List Nat) : List Nat :=
  turns.flatMap (loop.startedAt own)

theorem startedAt_of_ne {own : Nat} (h : (loop.run turns).next? ≠ some own) :
    loop.startedAt own turns = [] :=
  if_neg h

theorem startedIn_of_ne {own : Nat} {several : List Nat}
    (h : ∀ t ∈ several, (loop.run t).next? ≠ some own) : loop.startedIn own several = [] :=
  List.flatMap_eq_nil_iff.2 fun t ht => startedAt_of_ne (h t ht)

end Loop

/-! ### What is noted at first -/

namespace Charter

variable [Preorder Λ] {charter : Charter σ ρ Λ} {note : σ → Λ → Prop} {rest : Strand σ ρ} {own : Nat}
  {ledger : Ledger Λ} {world : σ}

/-- A strand that has its turn notes something, and keeps to the charter from there. -/
def Notes (charter : Charter σ ρ Λ) (note : σ → Λ → Prop) (rest : Strand σ ρ) (own : Nat)
    (ledger : Ledger Λ) (world : σ) : Prop :=
  ∃ a, ledger.MayEnter own a ∧ note world a ∧ charter.Honours rest own (ledger.enter own a) world

theorem Notes.honours (h : charter.Notes note rest own ledger world) :
    charter.Honours rest own ledger world := by
  obtain ⟨a, hmay, _, hhonours⟩ := h
  exact hhonours.of_enter hmay

theorem Starts.honours {a : Λ} (h : charter.Starts (charter.Notes note rest own) own a) :
    charter.Starts (charter.Honours rest own) own a :=
  fun later world haccount hbegun hholds => (h later world haccount hbegun hholds).honours

/-- There may be nothing to note. -/
theorem Starts.notes {a : Λ} (h : charter.Starts (charter.Honours rest own) own a) :
    charter.Starts (charter.Notes (fun _ _ => True) rest own) own a := by
  intro later world haccount hbegun hholds
  have hbegins : later.begin.accounts[own]? = some a := haccount
  refine ⟨a, Ledger.mayEnter_self hbegins, trivial, ?_⟩
  rw [Ledger.enter_self hbegins]
  exact h later world haccount hbegun hholds

end Charter

namespace Loop

variable [Preorder Λ] {charter : Charter σ ρ Λ} {ledger : Ledger Λ} {loop next : Loop σ ρ}
  {note : σ → Λ → Prop}

/-- A strand has yet to have its first turn, and it will note something then. -/
structure ToNote (charter : Charter σ ρ Λ) (note : σ → Λ → Prop) (ledger : Ledger Λ)
    (loop : Loop σ ρ) (strand turns : Nat) (rest : Strand σ ρ) : Prop where
  begun : ledger.begun ≤ strand
  first : FirstTurn loop strand turns rest
  starts : ∃ a, ledger.accounts[strand]? = some a ∧
    charter.Starts (charter.Notes note rest strand) strand a

theorem ToNote.of_step {later : Ledger Λ} {strand turns : Nat} {rest : Strand σ ρ}
    (h : ToNote charter note ledger loop strand (turns + 1) rest)
    (hspares : ledger.Spares loop.next? later) (hstep : loop.step = some next) :
    ToNote charter note later next strand turns rest := by
  have hne : loop.next? ≠ some strand := h.first.before 0 (Nat.zero_lt_succ turns)
  obtain ⟨a, haccount, hstarts⟩ := h.starts
  refine ⟨hspares.begun strand h.begun hne, h.first.of_step hstep, a, ?_, hstarts⟩
  exact (hspares.account strand (List.getElem?_eq_some_iff.1 haccount).1 hne).trans haccount

/-- The next strand to begin notes something in its first turn. -/
theorem Balanced.step_noting (hnote : ∀ world a b, note world a → a ≤ b → note world b)
    (h : Balanced charter ledger none loop) (hholds : charter.holds ledger loop.world)
    {strand : Nat} {rest : Strand σ ρ} (hnow : ToNote charter note ledger loop strand 0 rest)
    (hstep : loop.step = some next) :
    ∃ later, ledger.Grows later ∧ ledger.Spares loop.next? later ∧
      Balanced charter later none next ∧ charter.holds later next.world ∧
        ∃ b, later.accounts[strand]? = some b ∧ note loop.world b := by
  obtain ⟨hle, hfirst, a, haccount, hstarts⟩ := hnow
  obtain ⟨queue, hqueue : loop.queue = _⟩ := hfirst.queue
  obtain rfl : strand = ledger.begun := by
    rcases h.inTurn.turn hqueue with ⟨hlt, _⟩ | ⟨heq, _⟩
    · exact absurd hlt (Nat.not_lt.2 hle)
    · exact heq
  obtain ⟨b, hmay, hb, hhonours⟩ := hstarts ledger loop.world haccount rfl hholds
  obtain ⟨later, hgrows, hspares, hbalanced, hworld⟩ :=
    ((h.turnOf_first hqueue).enter hmay).follow hhonours
  have hnext : next = Loop.follow ledger.begun rest { loop with queue } := by
    unfold Loop.step at hstep
    rw [hqueue] at hstep
    exact (Option.some.inj hstep).symm
  obtain ⟨c, hc, hle⟩ := hgrows.account hmay.account
  rw [hnext, next?_of_queue hqueue]
  exact ⟨later, ledger.grows_begin.trans (hmay.grows.trans hgrows),
    (ledger.spares_begin.trans (ledger.begin.spares_enter _ b)).trans hspares, hbalanced, hworld,
    c, hc, hnote _ b c hb hle⟩

/-- An event happens, and if it is the first turn of a strand that notes something, it does. -/
theorem Balanced.step_listed {listed : Nat → Strand σ ρ → Prop}
    (hnote : ∀ world a b, note world a → a ≤ b → note world b)
    (h : Balanced charter ledger none loop) (hholds : charter.holds ledger loop.world)
    (hlisted : ∀ strand rest, listed strand rest → ToNote charter note ledger loop strand 0 rest)
    (hstep : loop.step = some next) :
    ∃ later, ledger.Grows later ∧ ledger.Spares loop.next? later ∧
      Balanced charter later none next ∧ charter.holds later next.world ∧
        ∀ strand rest, listed strand rest →
          ∃ b, later.accounts[strand]? = some b ∧ note loop.world b := by
  by_cases hnow : ∃ strand rest, listed strand rest
  · obtain ⟨strand, rest, hmem⟩ := hnow
    have hfirst := hlisted strand rest hmem
    obtain ⟨later, hgrows, hspares, hbalanced, hworld, hnoted⟩ :=
      h.step_noting hnote hholds hfirst hstep
    refine ⟨later, hgrows, hspares, hbalanced, hworld, fun other code hother => ?_⟩
    have hnext := (hlisted other code hother).first.next?
    obtain rfl := Option.some.inj (hfirst.first.next?.symm.trans hnext)
    exact hnoted
  · obtain ⟨later, hgrows, hspares, hbalanced, hworld⟩ := h.step hholds hstep
    exact ⟨later, hgrows, hspares, hbalanced, hworld,
      fun strand rest hmem => absurd ⟨strand, rest, hmem⟩ hnow⟩

/-- A run in which some strands have their first turns.  What they note then, or something that came of
it, stands in their accounts in the end; and a strand that had no turn has its account as it was. -/
theorem Balanced.run_noting {listed : Nat → Nat → Strand σ ρ → Prop}
    (hnote : ∀ world a b, note world a → a ≤ b → note world b)
    (h : Balanced charter ledger none loop) (hholds : charter.holds ledger loop.world)
    (hlisted : ∀ strand t rest, listed strand t rest →
      ToNote charter note ledger loop strand t rest) (turns : Nat) :
    ∃ later, ledger.Grows later ∧ Balanced charter later none (loop.run turns) ∧
      charter.holds later (loop.run turns).world ∧
      (∀ strand < ledger.accounts.length, (∀ t < turns, (loop.run t).next? ≠ some strand) →
        later.accounts[strand]? = ledger.accounts[strand]?) ∧
      ∀ strand t rest, listed strand t rest → t < turns →
        ∃ a, later.accounts[strand]? = some a ∧ note (loop.run t).world a := by
  induction turns generalizing ledger loop listed with
  | zero =>
      exact ⟨ledger, .refl ledger, h, hholds, fun _ _ _ => rfl,
        fun _ _ _ _ hlt => absurd hlt (Nat.not_lt_zero _)⟩
  | succ turns ih =>
      cases hstep : loop.step with
      | none =>
          have hidle := (step_eq_none_iff loop).1 hstep
          rw [run_of_queue_nil hidle]
          refine ⟨ledger, .refl ledger, h, hholds, fun _ _ _ => rfl, fun strand t rest hmem _ => ?_⟩
          obtain ⟨queue, hqueue⟩ := (hlisted strand t rest hmem).first.queue
          rw [run_of_queue_nil hidle, hidle] at hqueue
          cases hqueue
      | some next =>
          have hfirst : ∀ strand rest, listed strand 0 rest →
              ToNote charter note ledger loop strand 0 rest :=
            fun strand rest => hlisted strand 0 rest
          obtain ⟨middle, hgrows, hspares, hbalanced, hworld, hnoted⟩ :=
            h.step_listed hnote hholds hfirst hstep
          have hothers : ∀ strand t rest, listed strand (t + 1) rest →
              ToNote charter note middle next strand t rest :=
            fun strand t rest hmem => (hlisted strand (t + 1) rest hmem).of_step hspares hstep
          obtain ⟨later, hlater, hbalanced', hworld', hkept, hrest⟩ := ih hbalanced hworld hothers
          refine ⟨later, hgrows.trans hlater, ?_⟩
          rw [run_succ_of_step hstep]
          refine ⟨hbalanced', hworld', fun strand hlt hnone => ?_, fun strand t rest hmem ht => ?_⟩
          · have hsame := hspares.account strand hlt (hnone 0 (Nat.zero_lt_succ _))
            have hlt' : strand < middle.accounts.length := by
              rw [List.getElem?_eq_getElem hlt] at hsame
              exact (List.getElem?_eq_some_iff.1 hsame).1
            refine (hkept strand hlt' fun t ht => ?_).trans hsame
            rw [← run_succ_of_step hstep]
            exact hnone (t + 1) (Nat.succ_lt_succ ht)
          · cases t with
            | zero =>
                obtain ⟨a, haccount, ha⟩ := hnoted strand rest hmem
                obtain ⟨b, hb, hle⟩ := hlater.account haccount
                exact ⟨b, hb, hnote _ a b ha hle⟩
            | succ t =>
                rw [run_succ_of_step hstep]
                exact hrest strand t rest hmem (Nat.lt_of_succ_lt_succ ht)

end Loop

end Rulebook.Strand
