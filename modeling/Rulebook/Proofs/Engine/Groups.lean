import Rulebook.Proofs.Engine.Process

/-!
Running groups of rules.

The rules of a group are processed side by side, and the next group waits for all of them; so when
the strand of the run has its turn between two groups, every rule so far is through
(`triple_runGroup`).  From there the whole run follows group by group (`triple_runGroups`).
-/

namespace Rulebook.Engine

open Eval Strand

variable {η : Type} {plan : Plan η} {handling : Handling η} {place : Nat}
  {ledger : Ledger Account} {scene : Scene η}

/-- Between two groups: the first `place` rules are through, and no others have begun. -/
def Between (plan : Plan η) (place : Nat) (ledger : Ledger Account) (scene : Scene η) : Prop :=
  ∃ start finish phases, Books ledger start finish false phases ∧ phases.length = finish ∧
    phases.length = place ∧ Progress plan start false phases scene ∧
      ∀ phase ∈ phases, phase.IsThrough

/-- A group, with the stamps of its rules. -/
def stampedGroup (number place : Nat) (group : List Rule) : List (Rule × Stamp) :=
  (group.zipIdx place).map fun (rule, place) => (rule, ⟨number, place⟩)

theorem mem_stampedGroup {number : Nat} {group : List Rule} {entry : Rule × Stamp}
    (h : entry ∈ stampedGroup number place group) :
    ∃ i, group[i]? = some entry.1 ∧ entry.2 = ⟨number, place + i⟩ := by
  obtain ⟨⟨rule, other⟩, hmem, rfl⟩ := List.mem_map.1 h
  obtain ⟨hle, hrule⟩ := List.mk_mem_zipIdx_iff_le_and_getElem?_sub.1 hmem
  refine ⟨other - place, hrule, ?_⟩
  rw [Nat.add_sub_of_le hle]

/-- The accounts that are opened for the rules of a group. -/
def accountOf (entry : Rule × Stamp) : Account := .process entry.2.place .waiting

theorem map_accountOf (number : Nat) (group : List Rule) :
    (stampedGroup number place group).map accountOf =
      (List.range' place group.length).map fun place => .process place .waiting := by
  rw [stampedGroup, List.map_map, ← List.zipIdx_map_snd place group, List.map_map]
  rfl

/-- A rule whose strand came to a result is through. -/
theorem through_of_settled {start finish : Nat} {isOver : Bool} {phases : List Phase}
    (hbooks : Books ledger start finish isOver phases) {phase : Phase}
    (hphase : phases[place]? = some phase) {outcome : Except Error Unit}
    (h : Triple.Settled (charter plan) ledger (.process place .waiting) outcome)
    (hok : outcome = .ok ()) : phase.IsThrough := by
  obtain ⟨number, account, ending, haccount, hle, hsettles, houtcome⟩ := h
  obtain ⟨later, rfl⟩ := Account.exists_of_process_le hle
  obtain rfl := Option.some.inj ((hbooks.phase_of_account haccount).symm.trans hphase)
  rcases hsettles with hthrough | ⟨_, e, rfl⟩
  · exact hthrough
  · cases houtcome.symm.trans hok

theorem ok_of_allOk {α : Type} {outcomes : List (Except Error α)} {results : List α}
    (h : Schedule.allOk outcomes = .ok results) : ∀ outcome ∈ outcomes, ∃ a, outcome = .ok a := by
  induction outcomes generalizing results with
  | nil => nofun
  | cons first rest ih =>
      cases first with
      | error e => cases h
      | ok a =>
          rw [Schedule.allOk] at h
          cases hrest : Schedule.allOk rest with
          | error e =>
              rw [hrest] at h
              cases h
          | ok others =>
              rw [List.forall_mem_cons]
              exact ⟨⟨a, rfl⟩, ih hrest⟩

/-- After a group: all of its rules are through, or one of them has failed. -/
def AfterGroup (plan : Plan η) (place finish : Nat) :
    Except Error Unit → Ledger Account → Scene η → Prop
  | .ok _ => Between plan finish
  | .error _ => At (charter plan) 0 (.root place finish false)

variable {group : List Rule}

/-- Accounts are opened for the rules of a group. -/
theorem at_openEach (h : Between plan place ledger scene) (hrunning : scene.engine.status = .running)
    (hlevel : OneLevel plan place (place + group.length)) (number : Nat) :
    let opened := Triple.openEach ledger ((stampedGroup number place group).map accountOf)
    let account := Account.root place (place + group.length) false
    opened.MayEnter 0 account ∧ (charter plan).holds (opened.enter 0 account) scene := by
  obtain ⟨start, finish, phases, hbooks, hlength, rfl, hprogress, hthrough⟩ := h
  rw [map_accountOf]
  have hopened := hbooks.openEach group.length
  refine ⟨⟨_, hopened.root, .inr ⟨rfl, rfl⟩⟩, phases.length, phases.length + group.length, false,
    phases ++ List.replicate group.length .waiting, ?_, ?_, ?_⟩
  · exact hopened.enter_root _ _ _
  · rw [List.length_append, List.length_replicate]
  · exact hprogress.openEach hthrough hrunning hlevel

theorem between_of_settled {number : Nat}
    (hat : At (charter plan) 0 (.root place (place + group.length) false) ledger scene)
    {outcomes : List (Except Error Unit)}
    (hsettled : List.Forall₂ (Triple.Settled (charter plan) ledger)
      ((stampedGroup number place group).map accountOf) outcomes)
    (hok : ∀ outcome ∈ outcomes, ∃ a, outcome = .ok a) :
    Between plan (place + group.length) ledger scene := by
  obtain ⟨hroot, start, finish, isOver, phases, hbooks, hlength, hprogress⟩ := hat
  cases hbooks.root.symm.trans hroot
  refine ⟨place, _, phases, hbooks, hlength, hlength, hprogress, fun phase hphase => ?_⟩
  obtain ⟨other, hother⟩ := List.mem_iff_getElem?.1 hphase
  by_cases hlt : other < place
  · exact hprogress.orderly.through other phase hlt hother
  · rw [map_accountOf] at hsettled
    have hrange : other ∈ List.range' place group.length := by
      have hbound := (List.getElem?_eq_some_iff.1 hother).1
      rw [List.mem_range'_1]
      omega
    rw [List.forall₂_map_left_iff] at hsettled
    obtain ⟨outcome, houtcome, h⟩ := Schedule.exists_of_mem_right hsettled.flip hrange
    obtain ⟨a, ha⟩ := hok outcome houtcome
    exact through_of_settled hbooks hother h ha

/-- The strands of a group keep to the charter. -/
theorem starts_group (hearlier : plan.earlier.Before plan.number)
    (hcourteous : Courteous plan handling) {rest : List Rule}
    (horder : plan.order.drop place = group ++ rest) :
    ∀ entry ∈ stampedGroup plan.number place group, ∀ number, (charter plan).Starts
      ((charter plan).Honours (process handling entry.1 entry.2).strand number) number
      (accountOf entry) := by
  intro entry hentry number
  obtain ⟨i, hrule, hstamp⟩ := mem_stampedGroup hentry
  have hplace : plan.order[place + i]? = some entry.1 := by
    rw [← List.getElem?_drop, horder,
      List.getElem?_append_left (List.getElem?_eq_some_iff.1 hrule).1]
    exact hrule
  rw [accountOf, hstamp]
  exact starts_process hearlier hcourteous hplace number

theorem triple_runGroup (hearlier : plan.earlier.Before plan.number)
    (hcourteous : Courteous plan handling) {rest : List Rule}
    (horder : plan.order.drop place = group ++ rest)
    (hlevel : OneLevel plan place (place + group.length)) :
    Triple (charter plan) 0
      (fun ledger scene => scene.engine.status = .running ∧ Between plan place ledger scene)
      (runGroup handling (stampedGroup plan.number place group))
      (AfterGroup plan place (place + group.length)) := by
  have heach : Triple (charter plan) 0
      (fun ledger scene => scene.engine.status = .running ∧ Between plan place ledger scene)
      (Eval.each ((stampedGroup plan.number place group).map fun entry =>
        process handling entry.1 entry.2)) _ :=
    Triple.each (a := .root place (place + group.length) false) accountOf
      (starts_group hearlier hcourteous horder)
      (fun ledger scene h => at_openEach h.2 h.1 hlevel plan.number)
  refine heach.bind (fun outcomes => ?_) fun _ _ _ ⟨_, _, hwrong, _⟩ => nomatch hwrong
  cases hall : Schedule.allOk outcomes with
  | error e => exact .outcome fun _ _ h => h.1
  | ok results =>
      refine .outcome ?_
      rintro ledger scene ⟨hat, _, heq, hsettled⟩
      cases heq
      exact between_of_settled hat hsettled (ok_of_allOk hall)

/-- The run is over. -/
theorem mayEnd_between (h : Between plan place ledger scene)
    (hlast : place = plan.order.length ∨ scene.engine.status ≠ .running) :
    MayEnd (charter plan) 0 (.ok ()) ledger scene := by
  obtain ⟨start, finish, phases, hbooks, hlength, rfl, hprogress, hthrough⟩ := h
  exact ⟨.root start finish true, ⟨_, hbooks.root, .inr ⟨rfl, rfl⟩⟩, .inl rfl, start, finish, true,
    phases, hbooks.enter_root _ _ _, hlength, hprogress.finish hthrough hlast⟩

/-- The run fails with its last group. -/
theorem mayEnd_root {start finish : Nat}
    (hat : At (charter plan) 0 (.root start finish false) ledger scene) (e : Error) :
    MayEnd (α := Unit) (charter plan) 0 (.error e) ledger scene :=
  ⟨_, Ledger.mayEnter_self hat.account, .inr ⟨e, rfl⟩,
    (Ledger.enter_self hat.account).symm ▸ hat.holds⟩

/-- The groups that are left of a plan, from a place in its order on. -/
structure Plan.Left (plan : Plan η) (place : Nat) (groups : List (List Rule)) : Prop where
  order : plan.order.drop place = groups.flatten
  place : place ≤ plan.order.length
  level : ∀ group ∈ groups, ∀ rule ∈ group, ∀ other ∈ group, plan.level rule = plan.level other

namespace Plan.Left

variable {groups : List (List Rule)}

theorem order_cons (h : plan.Left place (group :: groups)) :
    plan.order.drop place = group ++ groups.flatten := by
  rw [h.order, List.flatten_cons]

theorem rest (h : plan.Left place (group :: groups)) : plan.Left (place + group.length) groups where
  order := by rw [← List.drop_drop, h.order_cons, List.drop_left]
  place := by
    have hlength := congrArg List.length h.order_cons
    have hplace := h.place
    rw [List.length_drop, List.length_append] at hlength
    omega
  level := (List.forall_mem_cons.1 h.level).2

theorem oneLevel (h : plan.Left place (group :: groups)) :
    OneLevel plan place (place + group.length) := by
  have hgroup : ∀ (i : Nat) (rule : Rule), place ≤ i → i < place + group.length →
      plan.order[i]? = some rule → rule ∈ group := by
    intro i rule hle hlt hrule
    rw [← Nat.add_sub_of_le hle, ← List.getElem?_drop, h.order_cons,
      List.getElem?_append_left (by omega)] at hrule
    exact List.mem_of_getElem? hrule
  intro first second rule other hfirst hsecond hlt hlt' hrule hother
  exact (List.forall_mem_cons.1 h.level).1 rule (hgroup first rule hfirst hlt hrule) other
    (hgroup second other hsecond hlt' hother)

end Plan.Left

/-- The strand of a run keeps to the charter. -/
theorem triple_runGroups (hearlier : plan.earlier.Before plan.number)
    (hcourteous : Courteous plan handling) {groups : List (List Rule)}
    (hleft : plan.Left place groups) :
    Triple (charter plan) 0 (Between plan place)
      (runGroups handling (stamped plan.number place groups)) (MayEnd (charter plan) 0) := by
  induction groups generalizing place with
  | nil =>
      have hend : place = plan.order.length :=
        Nat.le_antisymm hleft.place (List.drop_eq_nil_iff.1 hleft.order)
      exact .outcome fun ledger scene h => mayEnd_between h (.inl hend)
  | cons group rest ih =>
      refine .get_bind fun seen => ?_
      split
      · next hrunning =>
          have hrun := triple_runGroup hearlier hcourteous hleft.order_cons hleft.oneLevel
          exact (hrun.bind (fun _ => ih hleft.rest) fun e ledger scene hat => mayEnd_root hat e).imp
            (fun ledger scene h => ⟨h.1 ▸ hrunning, h.2⟩) fun _ _ _ h => h
      · next hstopped =>
          exact .outcome fun ledger scene h => mayEnd_between h.2 (.inr (h.1 ▸ hstopped))

end Rulebook.Engine
