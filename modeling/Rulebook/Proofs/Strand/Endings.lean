import Rulebook.Proofs.Strand.Balance
import Rulebook.Proofs.Strand.Mirrors
import Rulebook.Proofs.Strand.Progress

/-!
What a strand may come to.

What stands at the ends of a strand is all that it may come to, whatever the others do: a strand each
of whose ends is of some kind has no outcome of another kind (`Loop.Bound.run`).  So a strand that
has come to an outcome of another kind has not been lost to its image (`Loop.Mirrors.exists_run`).
-/

namespace Rulebook.Strand

variable {σ ρ : Type} {post : ρ → Prop}

/-- All that the strand may come to is of a kind. -/
inductive Ends (post : ρ → Prop) : Strand σ ρ → Prop where
  | done {outcome : ρ} (h : post outcome) : Ends post (.done outcome)
  | read {next : σ → Strand σ ρ} (goesOn : ∀ world, Ends post (next world)) :
      Ends post (.read next)
  | write (world : σ) {next : Strand σ ρ} (goesOn : Ends post next) :
      Ends post (.write world next)
  | pause {next : Strand σ ρ} (goesOn : Ends post next) : Ends post (.pause next)
  | spawn (child : Strand σ ρ) {next : Nat → Strand σ ρ} (goesOn : ∀ number, Ends post (next number)) :
      Ends post (.spawn child next)
  | watch (strand : Nat) (change : ρ → σ → σ) {next : Strand σ ρ} (goesOn : Ends post next) :
      Ends post (.watch strand change next)
  | await (strands : List Nat) (enough : List (Option ρ) → Bool)
      {next : List (Option ρ) → Strand σ ρ}
      (goesOn : ∀ known, known.length = strands.length → Ends post (next known)) :
      Ends post (.await strands enough next)

/-- Whatever the numbers are of the strands that are started one after the other. -/
theorem Ends.spawnEach {children : List (Strand σ ρ)} {next : List Nat → Strand σ ρ}
    (h : ∀ numbers, numbers.length = children.length → (next numbers).Ends post) :
    (Strand.spawnEach children next).Ends post := by
  induction children generalizing next with
  | nil => exact h [] rfl
  | cons child rest ih =>
      refine .spawn child fun number => ih fun numbers hnumbers => h (number :: numbers) ?_
      rw [List.length_cons, List.length_cons, hnumbers]

namespace Loop

/-- The strand of a number has come to an outcome of a kind, or all that it may come to is. -/
structure Bound (number : Nat) (post : ρ → Prop) (loop : Loop σ ρ) : Prop where
  started : number < loop.records.length
  turns : ∀ rest, .turn number rest ∈ loop.queue → rest.Ends post
  waits : ∀ (place : Nat) (wait : Wait σ ρ), loop.waits[place]? = some (some wait) →
    wait.strand = number → wait.known.length = wait.strands.length ∧
      ∀ known : List (Option ρ), known.length = wait.strands.length → (wait.next known).Ends post
  outcome : ∀ outcome, loop.outcome? number = some outcome → post outcome

variable {number : Nat} {loop other : Loop σ ρ}

/-- A strand that has its turn is neither due nor does it wait. -/
theorem InTurn.bound {begun : Nat} (h : InTurn begun (some number) loop) (post : ρ → Prop) :
    Bound number post loop where
  started := (h.unfinished number (by simp [busy])).1
  turns _ hturn := absurd rfl (h.ne_having (.inl (mem_due hturn)))
  waits _ _ hwait heq := absurd heq (h.ne_having (.inr (mem_waiting hwait)))
  outcome outcome houtcome := by
    cases (h.unfinished number (by simp [busy])).2.symm.trans houtcome

theorem Bound.finish (h : Bound number post loop) (strand : Nat) {outcome : ρ}
    (hown : strand = number → post outcome) : Bound number post (loop.finish strand outcome) := by
  refine ⟨by rw [Loop.finish, List.length_set]; exact h.started, fun rest hrest => ?_, h.waits,
    fun found hfound => ?_⟩
  · rcases List.mem_append.1 hrest with hold | hnew
    · exact h.turns rest hold
    · obtain ⟨_, _, heq⟩ := List.mem_map.1 hnew
      cases heq
  · by_cases hsame : strand = number
    · subst hsame
      rw [outcome?, Loop.finish, List.getElem?_set_self h.started] at hfound
      exact Option.some.inj hfound ▸ hown rfl
    · rw [outcome?, Loop.finish, List.getElem?_set_ne hsame] at hfound
      exact h.outcome found hfound

theorem Bound.pause (h : Bound number post loop) (strand : Nat) {rest : Strand σ ρ}
    (hown : strand = number → rest.Ends post) :
    Bound number post (loop.enqueue [.turn strand rest]) := by
  refine ⟨h.started, fun found hfound => ?_, h.waits, h.outcome⟩
  rcases List.mem_append.1 hfound with hold | hnew
  · exact h.turns found hold
  · obtain ⟨rfl, rfl⟩ := Event.turn.inj (List.mem_singleton.1 hnew)
    exact hown rfl

theorem Bound.add (h : Bound number post loop) (child : Strand σ ρ) :
    Bound number post (loop.add child) := by
  refine ⟨Nat.lt_of_lt_of_le h.started (extends_add loop child).length, fun rest hrest => ?_,
    h.waits, fun outcome houtcome => ?_⟩
  · rcases List.mem_append.1 hrest with hold | hnew
    · exact h.turns rest hold
    · obtain ⟨rfl, _⟩ := Event.turn.inj (List.mem_singleton.1 hnew)
      exact absurd h.started (Nat.lt_irrefl _)
  · rw [(extends_add loop child).outcome number h.started] at houtcome
    exact h.outcome outcome houtcome

theorem Bound.listen (h : Bound number post loop) (strand : Nat) (hearer : Hearer σ ρ) :
    Bound number post (loop.listen strand hearer) := by
  have hextends := extends_listen loop strand hearer
  refine ⟨Nat.lt_of_lt_of_le h.started hextends.length, fun rest hrest => h.turns rest ?_,
    hextends.waits ▸ h.waits, fun outcome houtcome => ?_⟩
  · unfold Loop.listen at hrest
    split at hrest
    · exact hrest
    · simpa [Loop.enqueue] using hrest
    · exact hrest
  · rw [hextends.outcome number h.started] at houtcome
    exact h.outcome outcome houtcome

theorem Bound.listenEach (h : Bound number post loop) (wait : Nat) (places : List (Nat × Nat)) :
    Bound number post (Loop.listenEach wait places loop) := by
  induction places generalizing loop with
  | nil => exact h
  | cons entry rest ih =>
      rw [Loop.listenEach]
      apply ih
      split
      · exact h
      · exact h.listen entry.1 _

theorem Bound.suspend (h : Bound number post loop) {wait : Wait σ ρ}
    (hlength : wait.known.length = wait.strands.length)
    (hown : wait.strand = number → ∀ known, known.length = wait.strands.length →
      (wait.next known).Ends post) : Bound number post (loop.suspend wait) := by
  have hwaits : Bound number post { loop with waits := loop.waits ++ [some wait] } := by
    refine ⟨h.started, h.turns, fun place found hfound hsame => ?_, h.outcome⟩
    rw [List.getElem?_append] at hfound
    split at hfound
    · exact h.waits place found hfound hsame
    · obtain rfl := Option.some.inj (List.mem_singleton.1 (List.mem_of_getElem? hfound))
      exact ⟨hlength, hown hsame⟩
  exact hwaits.listenEach _ _

/-- A strand has its turn. -/
theorem Bound.follow (h : Bound number post loop) (strand : Nat) {rest : Strand σ ρ}
    (hown : strand = number → rest.Ends post) : Bound number post (Loop.follow strand rest loop) := by
  induction rest generalizing loop with
  | done outcome => exact h.finish strand fun hsame => by cases hown hsame; assumption
  | read next ih => exact ih loop.world h fun hsame => by cases hown hsame with | read hnext => exact hnext _
  | write world next ih =>
      exact ih ⟨h.started, h.turns, h.waits, h.outcome⟩ fun hsame => by
        cases hown hsame; assumption
  | pause next _ => exact h.pause strand fun hsame => by cases hown hsame; assumption
  | spawn child next _ ih =>
      exact ih _ (h.add child) fun hsame => by cases hown hsame with | spawn _ hnext => exact hnext _
  | watch other change next ih =>
      exact ih (h.listen other _) fun hsame => by cases hown hsame; assumption
  | await strands enough next ih =>
      have hnext : strand = number → ∀ known, known.length = strands.length →
          (next known).Ends post := by
        intro hsame
        cases hown hsame with
        | await _ _ hnext => exact hnext
      rw [Loop.follow]
      split
      · exact ih _ h fun hsame => hnext hsame _ (List.length_map _)
      · exact h.suspend (List.length_map _) hnext

/-- Someone hears of an outcome. -/
theorem Bound.hear (h : Bound number post loop) (hearer : Hearer σ ρ) (outcome : ρ) :
    Bound number post (Loop.hear hearer outcome loop) := by
  cases hearer with
  | world change => exact ⟨h.started, h.turns, h.waits, h.outcome⟩
  | wait mine place =>
      simp only [Loop.hear]
      split
      · next wait hwait =>
          have hlt := (List.getElem?_eq_some_iff.1 hwait).1
          split
          · refine ⟨h.started, fun rest hrest => ?_, fun other found hfound hsame => ?_, h.outcome⟩
            · rcases List.mem_append.1 hrest with hold | hnew
              · exact h.turns rest hold
              · obtain ⟨hsame, rfl⟩ := Event.turn.inj (List.mem_singleton.1 hnew)
                obtain ⟨hlength, hnext⟩ := h.waits mine wait hwait hsame.symm
                exact hnext _ (by rw [List.length_set, hlength])
            · by_cases heq : mine = other
              · subst heq
                rw [List.getElem?_set_self hlt] at hfound
                cases hfound
              · rw [List.getElem?_set_ne heq] at hfound
                exact h.waits other found hfound hsame
          · refine ⟨h.started, h.turns, fun other found hfound hsame => ?_, h.outcome⟩
            by_cases heq : mine = other
            · subst heq
              rw [List.getElem?_set_self hlt] at hfound
              obtain rfl := Option.some.inj (Option.some.inj hfound)
              obtain ⟨hlength, hnext⟩ := h.waits mine wait hwait hsame
              exact ⟨by rw [List.length_set, hlength], hnext⟩
            · rw [List.getElem?_set_ne heq] at hfound
              exact h.waits other found hfound hsame
      · exact h

theorem Bound.step (h : Bound number post loop) (hstep : loop.step = some other) :
    Bound number post other := by
  unfold Loop.step at hstep
  split at hstep
  · cases hstep
  · next strand rest queue hqueue =>
      cases hstep
      have htail : Bound number post { loop with queue } :=
        ⟨h.started, fun found hfound => h.turns found (hqueue ▸ List.mem_cons_of_mem _ hfound),
          h.waits, h.outcome⟩
      refine htail.follow strand fun hsame => h.turns rest ?_
      rw [hqueue, hsame]
      exact List.mem_cons_self
  · next hearer outcome queue hqueue =>
      cases hstep
      have htail : Bound number post { loop with queue } :=
        ⟨h.started, fun found hfound => h.turns found (hqueue ▸ List.mem_cons_of_mem _ hfound),
          h.waits, h.outcome⟩
      exact htail.hear hearer outcome

/-- However long a loop runs on, the strand comes to nothing else. -/
theorem Bound.run (h : Bound number post loop) (turns : Nat) :
    Bound number post (loop.run turns) := by
  induction turns generalizing loop with
  | zero => exact h
  | succ turns ih =>
      rw [Loop.run]
      split
      · exact h
      · next other hstep => exact ih (h.step hstep)

/-- Loops run side by side until a strand has come to an outcome, if after getting lost it would have
come to others only. -/
theorem Mirrors.exists_run {τ : Type} {mirror : Mirror σ τ ρ} {loop' : Loop τ ρ}
    (h : loop.Mirrors mirror loop') {begun : Nat} (hturn : InTurn begun none loop)
    (hlost : ∀ strand rest, mirror.lost strand rest → strand = number ∧ rest.Ends post)
    {turns : Nat} {outcome : ρ} (houtcome : (loop.run turns).outcome? number = some outcome)
    (hother : ¬ post outcome) : ∃ turns', (loop.run turns).Mirrors mirror (loop'.run turns') := by
  refine (h.run hturn turns).resolve_right ?_
  rintro ⟨before, after, rfl, strand, _, rest, last, later, hrest, hlast, hstep⟩
  obtain ⟨rfl, hends⟩ := hlost strand rest hrest
  have hbound := ((hlast.bound post).follow strand fun _ => hends).run after
  rw [Nat.add_assoc, run_add, Nat.add_comm 1, Loop.run, hstep] at houtcome
  exact hother (hbound.outcome outcome houtcome)

end Loop

end Rulebook.Strand
