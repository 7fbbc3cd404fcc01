import Mathlib.Tactic.ByContra

/-!
How far the rules of a run have come.

The rules of a run are processed in strands that have their first turns in the order of the run, but
that go on from there in any order.  A rule that finds the engine stopped is skipped, and so is every
one after it; so the rules that are evaluated are always the first ones (`Orderly`).
-/

namespace Rulebook.Engine

/-- How far the processing of a rule has come. -/
inductive Phase where
  /-- It has yet to begin. -/
  | waiting
  /-- It began when the engine was stopped already. -/
  | skipped
  /-- The rule is evaluated. -/
  | working
  /-- The result is recorded, and handlers are called. -/
  | recorded
  /-- A handler is called that stops the engine. -/
  | stopping
  /-- The handlers have been called. -/
  | reported
  /-- It has failed, with its result recorded or not. -/
  | failed (noted : Bool)
  deriving DecidableEq

namespace Phase

/-- Something is left to be done. -/
def isOpen : Phase → Bool
  | .waiting | .working | .recorded | .stopping => true
  | .skipped | .reported | .failed _ => false

/-- The evaluation of the rule has begun. -/
def isEvaluated : Phase → Bool
  | .waiting | .skipped => false
  | .working | .recorded | .stopping | .reported | .failed _ => true

/-- The result of the rule is recorded. -/
def isRecorded : Phase → Bool
  | .recorded | .stopping | .reported => true
  | .failed noted => noted
  | .waiting | .skipped | .working => false

/-- Nothing is left to be done, and nothing has failed. -/
def IsThrough (phase : Phase) : Prop := phase = .skipped ∨ phase = .reported

theorem IsThrough.isOpen {phase : Phase} (h : phase.IsThrough) : phase.isOpen = false := by
  rcases h with rfl | rfl <;> rfl

theorem isEvaluated_of_isRecorded {phase : Phase} (h : phase.isRecorded = true) :
    phase.isEvaluated = true := by
  cases phase <;> first | rfl | cases h

end Phase

/-- What the phases are after one of them has changed. -/
theorem getElem?_set_phase {phases : List Phase} {place : Nat} {old : Phase}
    (hold : phases[place]? = some old) {phase found : Phase} {other : Nat} :
    (phases.set place phase)[other]? = some found ↔
      (other = place ∧ found = phase) ∨ (other ≠ place ∧ phases[other]? = some found) := by
  by_cases hother : other = place
  · subst hother
    rw [List.getElem?_set_self (List.getElem?_eq_some_iff.1 hold).1]
    simp [eq_comm]
  · rw [List.getElem?_set_ne (Ne.symm hother)]
    simp [hother]

/-- The rules of a run begin in their order, and are skipped from some point on.  Those before
`start` are through. -/
structure Orderly (start : Nat) (phases : List Phase) (stopped : Prop) : Prop where
  through : ∀ (place : Nat) (phase : Phase), place < start → phases[place]? = some phase →
    phase.IsThrough
  waiting : ∀ place : Nat, phases[place]? = some Phase.waiting → ∀ (later : Nat) (phase : Phase),
    place ≤ later → phases[later]? = some phase → phase = .waiting
  stopped : Phase.skipped ∈ phases → stopped
  skipped : ∀ place : Nat, phases[place]? = some Phase.skipped → ∀ (other : Nat) (phase : Phase),
    phases[other]? = some phase → phase.isEvaluated = true → other < place

namespace Orderly

variable {start place : Nat} {phases : List Phase} {old phase : Phase} {stopped : Prop}

theorem imp (h : Orderly start phases stopped) {now : Prop} (hnow : stopped → now) :
    Orderly start phases now :=
  ⟨h.through, h.waiting, fun hskipped => hnow (h.stopped hskipped), h.skipped⟩

/-- What is still open belongs to the present group. -/
theorem start_le (h : Orderly start phases stopped) (hold : phases[place]? = some old)
    (hopen : old.isOpen = true) : start ≤ place := by
  by_contra hlt
  cases (h.through place old (Nat.lt_of_not_le hlt) hold).isOpen.symm.trans hopen

/-- A rule whose evaluation has begun comes further. -/
theorem set (h : Orderly start phases stopped) (hold : phases[place]? = some old)
    (hopen : old.isOpen = true) (hbegun : old.isEvaluated = true)
    (hphase : phase.isEvaluated = true) : Orderly start (phases.set place phase) stopped := by
  have hset : ∀ {other : Nat} {found : Phase}, (phases.set place phase)[other]? = some found ↔
      (other = place ∧ found = phase) ∨ (other ≠ place ∧ phases[other]? = some found) :=
    getElem?_set_phase hold
  constructor
  · intro other found hlt hfound
    rcases hset.1 hfound with ⟨rfl, rfl⟩ | ⟨_, hsame⟩
    · exact absurd hlt (Nat.not_lt.2 (h.start_le hold hopen))
    · exact h.through other found hlt hsame
  · intro other hother later found hle hfound
    rcases hset.1 hother with ⟨rfl, rfl⟩ | ⟨_, hwaiting⟩
    · cases hphase
    · rcases hset.1 hfound with ⟨rfl, rfl⟩ | ⟨_, hsame⟩
      · cases h.waiting other hwaiting later old hle hold
        cases hbegun
      · exact h.waiting other hwaiting later found hle hsame
  · intro hskipped
    obtain ⟨other, hother⟩ := List.mem_iff_getElem?.1 hskipped
    rcases hset.1 hother with ⟨rfl, rfl⟩ | ⟨_, hsame⟩
    · cases hphase
    · exact h.stopped (List.mem_of_getElem? hsame)
  · intro other hother later found hfound hevaluated
    rcases hset.1 hother with ⟨rfl, rfl⟩ | ⟨_, hskipped⟩
    · cases hphase
    · rcases hset.1 hfound with ⟨rfl, rfl⟩ | ⟨_, hsame⟩
      · exact h.skipped other hskipped later old hold hbegun
      · exact h.skipped other hskipped later found hsame hevaluated

/-- The first rule that waits begins: it is skipped if the engine is stopped, and evaluated if it is
not. -/
theorem begin (h : Orderly start phases stopped) (hold : phases[place]? = some .waiting)
    (hfirst : ∀ other, other < place → phases[other]? ≠ some .waiting)
    (hphase : (phase = .skipped ∧ stopped) ∨ (phase = .working ∧ ¬ stopped)) :
    Orderly start (phases.set place phase) stopped := by
  have hset : ∀ {other : Nat} {found : Phase}, (phases.set place phase)[other]? = some found ↔
      (other = place ∧ found = phase) ∨ (other ≠ place ∧ phases[other]? = some found) :=
    getElem?_set_phase hold
  have hwaits : phase ≠ .waiting := by
    rcases hphase with ⟨rfl, _⟩ | ⟨rfl, _⟩ <;> nofun
  have hbefore : ∀ other found, phases[other]? = some found → found.isEvaluated = true →
      other < place := by
    intro other found hfound hevaluated
    by_contra hle
    cases h.waiting place hold other found (Nat.not_lt.1 hle) hfound
    cases hevaluated
  constructor
  · intro other found hlt hfound
    rcases hset.1 hfound with ⟨rfl, rfl⟩ | ⟨_, hsame⟩
    · exact absurd hlt (Nat.not_lt.2 (h.start_le hold rfl))
    · exact h.through other found hlt hsame
  · intro other hother later found hle hfound
    rcases hset.1 hother with ⟨rfl, hwrong⟩ | ⟨hne, hwaiting⟩
    · exact absurd hwrong.symm hwaits
    · have hlt : place < other :=
        Nat.lt_of_le_of_ne (Nat.not_lt.1 fun hlt => hfirst other hlt hwaiting) (Ne.symm hne)
      rcases hset.1 hfound with ⟨rfl, rfl⟩ | ⟨_, hsame⟩
      · exact absurd hle (Nat.not_le.2 hlt)
      · exact h.waiting other hwaiting later found hle hsame
  · intro hskipped
    rcases hphase with ⟨_, hstopped⟩ | ⟨rfl, _⟩
    · exact hstopped
    · obtain ⟨other, hother⟩ := List.mem_iff_getElem?.1 hskipped
      rcases hset.1 hother with ⟨_, hwrong⟩ | ⟨_, hsame⟩
      · cases hwrong
      · exact h.stopped (List.mem_of_getElem? hsame)
  · intro other hother later found hfound hevaluated
    rcases hset.1 hother with ⟨rfl, rfl⟩ | ⟨_, hskipped⟩
    · rcases hset.1 hfound with ⟨rfl, rfl⟩ | ⟨_, hsame⟩
      · cases hevaluated
      · exact hbefore later found hsame hevaluated
    · rcases hset.1 hfound with ⟨rfl, rfl⟩ | ⟨_, hsame⟩
      · -- Nothing is skipped before the engine is stopped.
        rcases hphase with ⟨rfl, _⟩ | ⟨rfl, hgoes⟩
        · cases hevaluated
        · exact absurd (h.stopped (List.mem_of_getElem? hskipped)) hgoes
      · exact h.skipped other hskipped later found hsame hevaluated

/-- When every rule so far is through, further ones may wait. -/
theorem append (h : Orderly start phases stopped) (hgoes : ¬ stopped)
    (hthrough : ∀ phase ∈ phases, phase.IsThrough) (n : Nat) :
    Orderly phases.length (phases ++ List.replicate n .waiting) stopped := by
  have hlater : ∀ {other : Nat} {found : Phase},
      (phases ++ List.replicate n .waiting)[other]? = some found →
        phases[other]? = some found ∨ phases.length ≤ other ∧ found = .waiting := by
    intro other found hfound
    rw [List.getElem?_append] at hfound
    split at hfound
    · exact .inl hfound
    · next hle =>
        exact .inr ⟨Nat.not_lt.1 hle, List.eq_of_mem_replicate (List.mem_of_getElem? hfound)⟩
  have hshut : ∀ {other : Nat} {found : Phase}, phases[other]? = some found →
      found.isOpen = false := fun hfound => (hthrough _ (List.mem_of_getElem? hfound)).isOpen
  constructor
  · intro other found hlt hfound
    rw [List.getElem?_append_left hlt] at hfound
    exact hthrough found (List.mem_of_getElem? hfound)
  · intro other hother later found hle hfound
    rcases hlater hother with hold | ⟨hplace, _⟩
    · cases hshut hold
    · rcases hlater hfound with hold | ⟨_, hwaiting⟩
      · exact absurd (List.getElem?_eq_some_iff.1 hold).1 (Nat.not_lt.2 (Nat.le_trans hplace hle))
      · exact hwaiting
  · intro hskipped
    rcases List.mem_append.1 hskipped with hold | hnew
    · exact h.stopped hold
    · cases List.eq_of_mem_replicate hnew
  · intro other hother
    rcases hlater hother with hold | ⟨_, hwrong⟩
    · exact absurd (h.stopped (List.mem_of_getElem? hold)) hgoes
    · cases hwrong

/-- In the end just the first rules are recorded. -/
theorem exists_recorded (h : Orderly start phases stopped)
    (hthrough : ∀ phase ∈ phases, phase.IsThrough) :
    ∃ n, n ≤ phases.length ∧ (n < phases.length → stopped) ∧ ∀ place, place < n ↔
      ∃ phase, phases[place]? = some phase ∧ phase.isRecorded = true := by
  have hskipped : ∀ hlt : phases.findIdx (· == .skipped) < phases.length,
      phases[phases.findIdx (· == .skipped)]? = some .skipped := by
    intro hlt
    rw [List.getElem?_eq_getElem hlt, beq_iff_eq.1 (List.findIdx_getElem (w := hlt))]
  refine ⟨phases.findIdx (· == .skipped), List.findIdx_le_length, fun hlt => ?_, fun place => ?_⟩
  · exact h.stopped (List.mem_of_getElem? (hskipped hlt))
  · constructor
    · intro hlt
      have hbound := Nat.lt_of_lt_of_le hlt List.findIdx_le_length
      have hne : phases[place] ≠ .skipped := by
        simpa using List.not_of_lt_findIdx hlt
      rcases hthrough phases[place] (List.getElem_mem hbound) with hwrong | hreported
      · exact absurd hwrong hne
      · exact ⟨_, List.getElem?_eq_getElem hbound, by rw [hreported]; rfl⟩
    · rintro ⟨phase, hphase, hrecorded⟩
      by_contra hle
      have hbound := (List.getElem?_eq_some_iff.1 hphase).1
      have hlt := Nat.lt_of_le_of_lt (Nat.not_lt.1 hle) hbound
      exact hle (h.skipped _ (hskipped hlt) place phase hphase
        (Phase.isEvaluated_of_isRecorded hrecorded))

end Orderly

end Rulebook.Engine
