import Rulebook.Proofs.Engine.Phases
import Rulebook.Proofs.Strand.Ledger

/-!
The accounts of a run.

The strand of the run itself tells which rules are through and whether the run is; a strand that
processes a rule tells how far it has come; any other strand has nothing to tell.  An account that
is closed stays as it is.
-/

namespace Rulebook.Engine

open Strand

/-- What a strand of a run tells of itself. -/
inductive Account where
  /-- Nothing. -/
  | aside
  /-- The rules before `start` are through, those from there to `finish` are processed, and the run
  is over or not. -/
  | root (start finish : Nat) (isOver : Bool)
  /-- The rule at a place of the order is processed. -/
  | process (place : Nat) (phase : Phase)

namespace Account

/-- The account may still change. -/
def isOpen : Account → Bool
  | .aside => false
  | .root _ _ isOver => !isOver
  | .process _ phase => phase.isOpen

/-- The rule that is processed, by its place. -/
def process? : Account → Option (Phase × Nat)
  | .process place phase => some (phase, place)
  | .aside | .root _ _ _ => none

/-- The place of the rule that is processed. -/
def place? (account : Account) : Option Nat := account.process?.map (·.2)

instance : Preorder Account where
  le a b := a = b ∨ a.isOpen = true ∧ a.place? = b.place?
  le_refl _ := .inl rfl
  le_trans a b c hab hbc := by
    rcases hab with rfl | ⟨hopen, hplace⟩
    · exact hbc
    · rcases hbc with rfl | ⟨_, hplace'⟩
      · exact .inr ⟨hopen, hplace⟩
      · exact .inr ⟨hopen, hplace.trans hplace'⟩

theorem process_le {place : Nat} {old : Phase} (hopen : old.isOpen = true) (phase : Phase) :
    Account.process place old ≤ .process place phase :=
  .inr ⟨hopen, rfl⟩

theorem exists_of_process_le {place : Nat} {phase : Phase} {account : Account}
    (h : Account.process place phase ≤ account) : ∃ later, account = .process place later := by
  rcases h with rfl | ⟨_, hplace⟩
  · exact ⟨phase, rfl⟩
  · cases account with
    | aside => cases hplace
    | root start finish isOver => cases hplace
    | process other later =>
        obtain rfl := Option.some.inj hplace
        exact ⟨later, rfl⟩

end Account

/-- The accounts tell how far the rules have come, in the order of the run; and those have begun
whose strands have had their first turn. -/
structure Books (ledger : Ledger Account) (start finish : Nat) (isOver : Bool) (phases : List Phase) :
    Prop where
  root : ledger.accounts[0]? = some (.root start finish isOver)
  processes : ledger.accounts.filterMap Account.process? = phases.zipIdx
  begun : ∀ (strand place : Nat) (phase : Phase),
    ledger.accounts[strand]? = some (.process place phase) →
      (strand < ledger.begun ↔ phase ≠ .waiting)
  begun_le : ledger.begun ≤ ledger.accounts.length

/-- Where something stands that is listed with its place. -/
theorem zipIdx_eq_append_cons {α : Type} {items : List α} {first rest : List (α × Nat)} {item : α}
    {place : Nat} (h : first ++ (item, place) :: rest = items.zipIdx) :
    first = (items.take place).zipIdx ∧ rest = (items.drop (place + 1)).zipIdx (place + 1) := by
  have hget : items.zipIdx[first.length]? = some (item, place) := by
    rw [← h]
    simp
  rw [List.getElem?_zipIdx] at hget
  obtain ⟨found, hfound, hpair⟩ := Option.map_eq_some_iff.1 hget
  obtain rfl : first.length = place := by simpa using congrArg Prod.snd hpair
  obtain ⟨hlt, hitem⟩ := List.getElem?_eq_some_iff.1 hfound
  have hlength : (items.take first.length).length = first.length := by
    simp [Nat.min_eq_left (Nat.le_of_lt hlt)]
  rw [← List.take_append_drop first.length items, List.zipIdx_append, Nat.zero_add, hlength,
    List.drop_eq_getElem_cons hlt, List.zipIdx_cons] at h
  obtain ⟨hfirst, hrest⟩ := List.append_inj h (by rw [List.length_zipIdx, hlength])
  exact ⟨hfirst, List.tail_eq_of_cons_eq hrest⟩

namespace Books

variable {ledger : Ledger Account} {start finish strand place : Nat} {isOver : Bool} {phases : List Phase}
  {old phase : Phase}

theorem phase_of_account (h : Books ledger start finish isOver phases)
    (haccount : ledger.accounts[strand]? = some (.process place old)) :
    phases[place]? = some old := by
  have hmem : (old, place) ∈ ledger.accounts.filterMap Account.process? :=
    List.mem_filterMap.2 ⟨_, List.mem_of_getElem? haccount, rfl⟩
  rw [h.processes] at hmem
  exact List.mem_zipIdx_iff_getElem?.1 hmem

/-- The strands of the rules stand in the order of the rules. -/
theorem split (h : Books ledger start finish isOver phases)
    (haccount : ledger.accounts[strand]? = some (.process place old)) :
    (ledger.accounts.take strand).filterMap Account.process? = (phases.take place).zipIdx ∧
      (ledger.accounts.drop (strand + 1)).filterMap Account.process? =
        (phases.drop (place + 1)).zipIdx (place + 1) := by
  obtain ⟨hlt, hget⟩ := List.getElem?_eq_some_iff.1 haccount
  apply zipIdx_eq_append_cons
  rw [← h.processes]
  conv_rhs => rw [← List.take_append_drop strand ledger.accounts,
    List.drop_eq_getElem_cons hlt, hget]
  rw [List.filterMap_append, List.filterMap_cons]
  rfl

/-- The strands of the rules before one come before its strand. -/
theorem exists_strand_lt (h : Books ledger start finish isOver phases)
    (haccount : ledger.accounts[strand]? = some (.process place old)) {other : Nat}
    (hlt : other < place) (hphase : phases[other]? = some phase) :
    ∃ earlier, earlier < strand ∧ ledger.accounts[earlier]? = some (.process other phase) := by
  have hmem : (phase, other) ∈ (phases.take place).zipIdx := by
    rw [List.mem_zipIdx_iff_getElem?, List.getElem?_take_of_lt hlt]
    exact hphase
  rw [← (h.split haccount).1] at hmem
  obtain ⟨account, haccount', hprocess⟩ := List.mem_filterMap.1 hmem
  obtain ⟨earlier, hearlier, hget⟩ := List.mem_take_iff_getElem.1 haccount'
  have hsame : account = .process other phase := by
    cases account with
    | process place phase => cases hprocess; rfl
    | aside => cases hprocess
    | root start finish isOver => cases hprocess
  have hlts := Nat.lt_min.1 hearlier
  exact ⟨earlier, hlts.1, by rw [List.getElem?_eq_getElem hlts.2, hget, hsame]⟩

/-- A rule comes further. -/
theorem processes_set (h : Books ledger start finish isOver phases)
    (haccount : ledger.accounts[strand]? = some (.process place old)) (phase : Phase) :
    (ledger.accounts.set strand (.process place phase)).filterMap Account.process? =
      (phases.set place phase).zipIdx := by
  obtain ⟨hfirst, hrest⟩ := h.split haccount
  have hstrand := (List.getElem?_eq_some_iff.1 haccount).1
  have hplace := (List.getElem?_eq_some_iff.1 (h.phase_of_account haccount)).1
  rw [List.set_eq_take_append_cons_drop, if_pos hstrand, List.filterMap_append,
    List.filterMap_cons, hfirst, hrest, List.set_eq_take_append_cons_drop, if_pos hplace,
    List.zipIdx_append, List.zipIdx_cons]
  simp [Nat.min_eq_left (Nat.le_of_lt hplace), Account.process?]

theorem ne_zero (h : Books ledger start finish isOver phases)
    (haccount : ledger.accounts[strand]? = some (.process place old)) : strand ≠ 0 := by
  rintro rfl
  cases h.root.symm.trans haccount

/-! ### What changes the accounts -/

/-- A rule that has begun comes further. -/
theorem enter (h : Books ledger start finish isOver phases)
    (haccount : ledger.accounts[strand]? = some (.process place old)) (hold : old ≠ .waiting)
    (hphase : phase ≠ .waiting) :
    Books (ledger.enter strand (.process place phase)) start finish isOver (phases.set place phase) where
  root := (List.getElem?_set_ne (h.ne_zero haccount)).trans h.root
  processes := h.processes_set haccount phase
  begun := by
    intro other place' found hfound
    by_cases hsame : strand = other
    · subst hsame
      rw [Ledger.enter, List.getElem?_set_self (List.getElem?_eq_some_iff.1 haccount).1] at hfound
      cases hfound
      exact iff_of_true ((h.begun strand place old haccount).2 hold) hphase
    · rw [Ledger.enter, List.getElem?_set_ne hsame] at hfound
      exact h.begun other place' found hfound
  begun_le := by
    simpa [Ledger.enter] using h.begun_le

/-- A rule begins. -/
theorem begin (h : Books ledger start finish isOver phases) (hbegun : ledger.begun = strand)
    (haccount : ledger.accounts[strand]? = some (.process place old)) (hphase : phase ≠ .waiting) :
    Books (ledger.begin.enter strand (.process place phase)) start finish isOver (phases.set place phase) where
  root := (List.getElem?_set_ne (h.ne_zero haccount)).trans h.root
  processes := h.processes_set haccount phase
  begun := by
    intro other place' found hfound
    have hlt := (List.getElem?_eq_some_iff.1 haccount).1
    subst hbegun
    by_cases hsame : ledger.begun = other
    · subst hsame
      rw [Ledger.enter, Ledger.begin, List.getElem?_set_self hlt] at hfound
      cases hfound
      exact iff_of_true (Nat.lt_succ_self _) hphase
    · rw [Ledger.enter, Ledger.begin, List.getElem?_set_ne hsame] at hfound
      rw [← h.begun other place' found hfound]
      change other < ledger.begun + 1 ↔ _
      omega
  begun_le := by
    rw [Ledger.enter, Ledger.begin, List.length_set, hbegun]
    exact (List.getElem?_eq_some_iff.1 haccount).1

/-- The run comes further. -/
theorem enter_root (h : Books ledger start finish isOver phases) (later last : Nat) (ended : Bool) :
    Books (ledger.enter 0 (.root later last ended)) later last ended phases where
  root := List.getElem?_set_self (List.getElem?_eq_some_iff.1 h.root).1
  processes := by
    obtain ⟨hlt, hroot⟩ := List.getElem?_eq_some_iff.1 h.root
    have hcons : ledger.accounts = .root start finish isOver :: ledger.accounts.drop 1 := by
      conv_lhs => rw [← List.drop_zero (l := ledger.accounts), List.drop_eq_getElem_cons hlt, hroot]
    have hprocesses := h.processes
    rw [hcons, List.filterMap_cons] at hprocesses
    rw [Ledger.enter, hcons, List.set_cons_zero, List.filterMap_cons]
    exact hprocesses
  begun := by
    intro strand place phase hphase
    cases strand with
    | zero =>
        rw [Ledger.enter, List.getElem?_set_self (List.getElem?_eq_some_iff.1 h.root).1] at hphase
        cases hphase
    | succ strand =>
        rw [Ledger.enter, List.getElem?_set_ne (by omega)] at hphase
        exact h.begun _ place phase hphase
  begun_le := by
    simpa [Ledger.enter] using h.begun_le

/-- A strand with nothing to tell is started. -/
theorem openFor (h : Books ledger start finish isOver phases) :
    Books (ledger.openFor .aside) start finish isOver phases where
  root := (List.getElem?_append_left (List.getElem?_eq_some_iff.1 h.root).1).trans h.root
  processes := by
    rw [Ledger.openFor, List.filterMap_append, h.processes]
    exact List.append_nil _
  begun := by
    intro strand place phase hphase
    rw [Ledger.openFor, List.getElem?_append] at hphase
    split at hphase
    · exact h.begun strand place phase hphase
    · cases List.mem_singleton.1 (List.mem_of_getElem? hphase)
  begun_le := by
    rw [Ledger.openFor, List.length_append]
    exact Nat.le_add_right_of_le h.begun_le

/-- A strand that processes no rule has its first turn. -/
theorem begin_other (h : Books ledger start finish isOver phases) {account : Account}
    (haccount : ledger.accounts[ledger.begun]? = some account) (hother : account.process? = none) :
    Books ledger.begin start finish isOver phases where
  root := h.root
  processes := h.processes
  begun := by
    intro strand place phase hphase
    have hne : strand ≠ ledger.begun := by
      rintro rfl
      obtain rfl := Option.some.inj (haccount.symm.trans hphase)
      cases hother
    rw [← h.begun strand place phase hphase]
    change strand < ledger.begun + 1 ↔ _
    omega
  begun_le := (List.getElem?_eq_some_iff.1 haccount).1

/-- The rules of a group wait. -/
theorem openEach (h : Books ledger start finish isOver phases) (n : Nat) :
    Books { ledger with accounts := ledger.accounts ++
      (List.range' phases.length n).map fun place => .process place .waiting } start finish isOver
        (phases ++ List.replicate n .waiting) where
  root := (List.getElem?_append_left (List.getElem?_eq_some_iff.1 h.root).1).trans h.root
  processes := by
    rw [List.filterMap_append, h.processes, List.zipIdx_append, Nat.zero_add]
    congr 1
    generalize phases.length = first
    induction n generalizing first with
    | zero => rfl
    | succ n ih =>
        rw [List.range'_succ, List.map_cons, List.filterMap_cons, List.replicate_succ,
          List.zipIdx_cons]
        exact congrArg _ (ih (first + 1))
  begun := by
    intro strand place phase hphase
    rw [List.getElem?_append] at hphase
    split at hphase
    · exact h.begun strand place phase hphase
    · next hle =>
        obtain ⟨other, _, hother⟩ := List.mem_map.1 (List.mem_of_getElem? hphase)
        cases hother
        have hnew := Nat.le_trans h.begun_le (Nat.not_lt.1 hle)
        exact iff_of_false (Nat.not_lt.2 hnew) fun hne => hne rfl
  begun_le := by
    rw [List.length_append]
    exact Nat.le_add_right_of_le h.begun_le

end Books

end Rulebook.Engine
