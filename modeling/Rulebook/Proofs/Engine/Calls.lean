import Rulebook.Proofs.Engine.Reporting
import Rulebook.Proofs.Engine.Run

/-!
Which handlers a run calls.

The rules of a group are reported side by side, and the run waits for all of them, also when one of
them fails; so when a run has come to its end there are no calls under way (`triple_runGroups`), and
each rule that was recorded has had the calls that its verdict gives rise to (`run_calls`).  Those
are not only the ones one expects: an event of the type `failure` calls the handlers of `failure`
for a rule that holds.
-/

namespace Rulebook.Engine

open Eval Strand Stamped

variable {η : Type} {handling : Handling η} {engine : Engine η} {entries : List RuntimeEntry}
  {reused : Option (Almanac × RunJournal)}

namespace Reporting

variable {setting : Setting η} {accounts : List (Account η)} {scene : Scene η}
  {ledger : Ledger (Account η)} {place start finish : Nat} {stage : Stage} {group : List Rule}

/-! ### Groups -/

theorem getElem?_set_root (hroot : accounts[0]? = some (.root start finish stage))
    (start' finish' : Nat) (stage' : Stage) (strand place : Nat)
    (told : Option (Bool × List (η × Subject))) (ending : Stage) :
    (accounts.set 0 (.root start' finish' stage'))[strand]? = some (.rule place told ending) ↔
      accounts[strand]? = some (.rule place told ending) := by
  cases strand with
  | zero =>
      rw [List.getElem?_set_self (List.getElem?_eq_some_iff.1 hroot).1, hroot]
      exact iff_of_false nofun nofun
  | succ strand => rw [List.getElem?_set_ne (Nat.succ_ne_zero strand).symm]

theorem leads_set_root (hroot : accounts[0]? = some (.root start finish stage))
    {start' finish' : Nat} {stage' : Stage}
    (hrules : ∀ (strand place : Nat) told ending,
      accounts[strand]? = some (.rule place told ending) →
        place < finish' ∧ (place < start' → ending = .done) ∧ stage'.Covers ending) :
    Leads (accounts.set 0 (.root start' finish' stage')) start' finish' stage' := by
  refine ⟨List.getElem?_set_self (List.getElem?_eq_some_iff.1 hroot).1, ?_⟩
  simpa only [getElem?_set_root hroot] using hrules

/-- The run comes further. -/
theorem Faithful.enter_root (h : Faithful setting accounts scene)
    (hroot : accounts[0]? = some (.root start finish stage)) {start' finish' : Nat} {stage' : Stage}
    (hleads : Leads (accounts.set 0 (.root start' finish' stage')) start' finish' stage') :
    Faithful setting (accounts.set 0 (.root start' finish' stage')) scene :=
  h.congr (getElem?_set_root hroot start' finish' stage') hleads

/-- The accounts after those of some rules were opened. -/
def withWaiting (accounts : List (Account η)) (place n : Nat) : List (Account η) :=
  accounts ++ (List.range' place n).map fun place => .rule place none .going

theorem getElem?_withWaiting {strand : Nat} {account : Account η}
    (haccount : accounts[strand]? = some account) (place n : Nat) :
    (withWaiting accounts place n)[strand]? = some account :=
  (List.getElem?_append_left (List.getElem?_eq_some_iff.1 haccount).1).trans haccount

/-- Any account of a rule was there before, or it is that of a rule which waits. -/
theorem cases_withWaiting {n strand other : Nat} {told : Option (Bool × List (η × Subject))}
    {ending : Stage}
    (hfound : (withWaiting accounts place n)[strand]? = some (.rule other told ending)) :
    accounts[strand]? = some (.rule other told ending) ∨
      (place ≤ other ∧ other < place + n ∧ strand = accounts.length + (other - place) ∧
        told = none) := by
  rw [withWaiting, List.getElem?_append] at hfound
  split at hfound
  · exact .inl hfound
  · next hge =>
      rw [List.getElem?_map, Option.map_eq_some_iff] at hfound
      obtain ⟨waiting, hwaiting, heq⟩ := hfound
      cases heq
      obtain ⟨hlt, hget⟩ := List.getElem?_eq_some_iff.1 hwaiting
      rw [List.length_range'] at hlt
      rw [List.getElem_range', Nat.one_mul] at hget
      exact .inr ⟨by omega, by omega, by omega, rfl⟩

/-- The rules of a group wait to be processed; none of them was processed before. -/
theorem Faithful.withWaiting (h : Faithful setting accounts scene)
    (hleads : Leads accounts start finish .going) (hstart : start ≤ place) {n : Nat}
    (hfinish : place + n ≤ finish)
    (hnew : ∀ (strand other : Nat) told ending,
      accounts[strand]? = some (.rule other told ending) → other < place) :
    Faithful setting (withWaiting accounts place n) scene := by
  refine ⟨h.handlers, h.calls,
    ⟨start, finish, .going, getElem?_withWaiting hleads.root place n, ?_⟩, ?_, ?_, ?_⟩
  · intro strand other told ending hfound
    rcases cases_withWaiting hfound with hold | ⟨hle, hlt, _⟩
    · exact hleads.rules strand other told ending hold
    · exact ⟨by omega, fun hlt => by omega, trivial⟩
  · intro strand other shared told told' ending ending' hfirst hsecond
    rcases cases_withWaiting hfirst with hold | ⟨hle, _, hstrand, _⟩
    · rcases cases_withWaiting hsecond with hold' | ⟨hle, _⟩
      · exact h.single _ _ _ _ _ _ _ hold hold'
      · exact absurd (hnew _ _ _ _ hold) (Nat.not_lt.2 hle)
    · rcases cases_withWaiting hsecond with hold | ⟨_, _, hother, _⟩
      · exact absurd (hnew _ _ _ _ hold) (Nat.not_lt.2 hle)
      · exact hstrand.trans hother.symm
  · intro strand other told ending hfound
    rcases cases_withWaiting hfound with hold | ⟨hle, _, _, rfl⟩
    · exact h.tells strand other told ending hold
    · exact h.others other fun strand told ending hold =>
        absurd (hnew strand other told ending hold) (Nat.not_lt.2 hle)
  · exact fun other hnone => h.others other fun strand told ending hold =>
      hnone strand told ending (getElem?_withWaiting hold place n)

/-- Between two groups: the rules before `place` are through, and no others have begun. -/
def Between (setting : Setting η) (place : Nat) : Ledger (Account η) → Scene η → Prop :=
  At (charter setting) 0 (.root place place .going)

/-- The account that is opened for a rule of a group. -/
def accountOf (entry : Rule × Stamp) : Account η := .rule entry.2.place none .going

theorem map_accountOf (number place : Nat) (group : List Rule) :
    (stampedGroup number place group).map accountOf =
      (List.range' place group.length).map fun place =>
        (.rule place none .going : Account η) := by
  rw [stampedGroup, List.map_map, ← List.zipIdx_map_snd place group, List.map_map]
  rfl

theorem leads_of_at (hat : At (charter setting) 0 (.root start finish stage) ledger scene) :
    Leads ledger.accounts start finish stage := by
  obtain ⟨start', finish', stage', hleads⟩ := hat.holds.leads
  cases hleads.root.symm.trans hat.account
  exact hleads

/-- Accounts are opened for the rules of a group. -/
theorem at_openEach (h : Between setting place ledger scene) (number : Nat) (group : List Rule) :
    let opened := Triple.openEach ledger ((stampedGroup number place group).map accountOf)
    let account : Account η := .root place (place + group.length) .going
    opened.MayEnter 0 account ∧ (charter setting).holds (opened.enter 0 account) scene := by
  intro opened account
  have hlt := (List.getElem?_eq_some_iff.1 h.account).1
  have hrules := (leads_of_at h).rules
  have hleads : Leads (ledger.accounts.set 0 account) place (place + group.length) .going :=
    leads_set_root h.account fun strand other told ending haccount =>
      ⟨Nat.lt_add_right _ (hrules strand other told ending haccount).1,
        (hrules strand other told ending haccount).2⟩
  have hwaiting := (h.holds.enter_root h.account hleads).withWaiting hleads (Nat.le_refl place)
    (Nat.le_refl _) fun strand other told ending haccount =>
      (hrules strand other told ending ((getElem?_set_root h.account ..).1 haccount)).1
  rw [withWaiting, ← map_accountOf number, ← List.set_append_left 0 account hlt] at hwaiting
  exact ⟨⟨_, (List.getElem?_append_left hlt).trans h.account, .inr ⟨rfl, rfl⟩⟩, hwaiting⟩

/-- A rule whose strand came to an ending is done, or it has failed. -/
theorem stage_of_settled (hfaithful : Faithful setting ledger.accounts scene) {strand : Nat}
    {told : Option (Bool × List (η × Subject))}
    (haccount : ledger.accounts[strand]? = some (.rule place told stage))
    {outcome : Except Error Unit}
    (h : Triple.Settled (charter setting) ledger (.rule place none .going) outcome) :
    stage = .done ∨ (stage = .failed ∧ ∃ e, outcome = .error e) := by
  obtain ⟨number, account, ending, hother, hle, hsettles, rfl⟩ := h
  obtain ⟨later, found, rfl⟩ := Account.exists_of_rule_le hle
  obtain rfl := hfaithful.single _ _ _ _ _ _ _ haccount hother
  cases haccount.symm.trans hother
  refine hsettles.imp_right fun hfailed => ⟨hfailed.1, ?_⟩
  obtain ⟨_, e, rfl⟩ := hfailed
  exact ⟨e, rfl⟩

/-- After a group: all of its rules are done, or one of them has failed and none goes on. -/
def AfterGroup (setting : Setting η) (start finish : Nat) :
    Except Error Unit → Ledger (Account η) → Scene η → Prop
  | .ok _ => Between setting finish
  | .error _ => fun ledger scene =>
      At (charter setting) 0 (.root start finish .going) ledger scene ∧
        ∀ (strand place : Nat) told ending,
          ledger.accounts[strand]? = some (.rule place told ending) → ending ≠ .going

/-- When the strands of a group have come to their endings, their rules are done, or have failed as
their outcomes tell. -/
theorem stage_of_each
    (hat : At (charter setting) 0 (.root place (place + group.length) .going) ledger scene)
    {number : Nat} {outcomes : List (Except Error Unit)}
    (hsettled : List.Forall₂ (Triple.Settled (charter setting) ledger)
      ((stampedGroup number place group).map accountOf) outcomes)
    {strand other : Nat} {told : Option (Bool × List (η × Subject))}
    (haccount : ledger.accounts[strand]? = some (.rule other told stage)) :
    stage = .done ∨ (stage = .failed ∧ ∃ e, .error e ∈ outcomes) := by
  obtain ⟨hlt, hdone, _⟩ := (leads_of_at hat).rules strand other told stage haccount
  by_cases hother : other < place
  · exact .inl (hdone hother)
  · rw [map_accountOf, List.forall₂_map_left_iff] at hsettled
    have hrange : other ∈ List.range' place group.length := by
      rw [List.mem_range'_1]
      omega
    obtain ⟨outcome, houtcome, h⟩ := Schedule.exists_of_mem_right hsettled.flip hrange
    refine (stage_of_settled hat.holds haccount h).imp_right fun hfailed => ⟨hfailed.1, ?_⟩
    obtain ⟨_, e, rfl⟩ := hfailed
    exact ⟨e, houtcome⟩

/-- When the strands of a group have come to their endings, no rule goes on. -/
theorem stage_ne_going
    (hat : At (charter setting) 0 (.root place (place + group.length) .going) ledger scene)
    {number : Nat} {outcomes : List (Except Error Unit)}
    (hsettled : List.Forall₂ (Triple.Settled (charter setting) ledger)
      ((stampedGroup number place group).map accountOf) outcomes) (strand other : Nat)
    (told : Option (Bool × List (η × Subject))) (ending : Stage)
    (haccount : ledger.accounts[strand]? = some (.rule other told ending)) : ending ≠ .going := by
  rcases stage_of_each hat hsettled haccount with rfl | ⟨rfl, _⟩
  · nofun
  · nofun

/-- When no rule of a group has failed, the next group may come. -/
theorem between_of_settled
    (hat : At (charter setting) 0 (.root place (place + group.length) .going) ledger scene)
    {number : Nat} {outcomes : List (Except Error Unit)}
    (hsettled : List.Forall₂ (Triple.Settled (charter setting) ledger)
      ((stampedGroup number place group).map accountOf) outcomes)
    (hok : ∀ outcome ∈ outcomes, ∃ a, outcome = .ok a) :
    let account : Account η := .root (place + group.length) (place + group.length) .going
    ledger.MayEnter 0 account ∧
      Between setting (place + group.length) (ledger.enter 0 account) scene := by
  intro account
  have hmay : ledger.MayEnter 0 account := ⟨_, hat.account, .inr ⟨rfl, rfl⟩⟩
  refine ⟨hmay, hmay.account, hat.holds.enter_root hat.account (leads_set_root hat.account ?_)⟩
  intro strand other told ending haccount
  refine ⟨((leads_of_at hat).rules strand other told ending haccount).1, fun _ => ?_, trivial⟩
  rcases stage_of_each hat hsettled haccount with hdone | ⟨_, e, he⟩
  · exact hdone
  · obtain ⟨_, hok⟩ := hok _ he
    cases hok

theorem triple_runGroup (hobliging : Obliging setting handling) {rest : List Rule}
    (horder : setting.order.drop place = group ++ rest) :
    Triple (charter setting) 0 (Between setting place)
      (runGroup handling (stampedGroup setting.number place group))
      (AfterGroup setting place (place + group.length)) := by
  have heach : Triple (charter setting) 0 (Between setting place)
      (Eval.each ((stampedGroup setting.number place group).map fun entry =>
        process handling entry.1 entry.2)) _ :=
    Triple.each (a := .root place (place + group.length) .going) accountOf
      (fun entry hentry number => by
        obtain ⟨i, hrule, hstamp⟩ := mem_stampedGroup hentry
        have hplace : setting.order[place + i]? = some entry.1 := by
          rw [← List.getElem?_drop, horder,
            List.getElem?_append_left (List.getElem?_eq_some_iff.1 hrule).1]
          exact hrule
        rw [accountOf, hstamp]
        exact starts_process hobliging hplace number)
      (fun ledger scene h => at_openEach h setting.number group)
  refine heach.bind (fun outcomes => ?_) fun _ _ _ ⟨_, _, hwrong, _⟩ => nomatch hwrong
  cases hall : Schedule.allOk outcomes with
  | error e =>
      refine .outcome ?_
      rintro ledger scene ⟨hat, _, heq, hsettled⟩
      cases heq
      exact ⟨hat, stage_ne_going hat hsettled⟩
  | ok results =>
      refine Triple.entered (.root (place + group.length) (place + group.length) .going)
        (.outcome ?_)
      rintro ledger scene ⟨hat, _, heq, hsettled⟩
      cases heq
      exact between_of_settled hat hsettled (ok_of_allOk hall)

/-- The run is over, and so are all rules of which the accounts tell. -/
theorem mayEnd_root (hat : At (charter setting) 0 (.root start finish .going) ledger scene)
    {result : Except Error Unit} (stage : Stage)
    (hstage : stage = .done ∨ (stage = .failed ∧ ∃ e, result = .error e))
    (hrules : ∀ (strand place : Nat) told ending,
      ledger.accounts[strand]? = some (.rule place told ending) → stage.Covers ending) :
    MayEnd (charter setting) 0 result ledger scene := by
  refine ⟨.root start finish stage, ⟨_, hat.account, .inr ⟨rfl, rfl⟩⟩, ?_,
    hat.holds.enter_root hat.account (leads_set_root hat.account ?_)⟩
  · rcases hstage with hdone | ⟨hfailed, e, rfl⟩
    · exact .inl hdone
    · exact .inr ⟨hfailed, e, rfl⟩
  · intro strand place told ending haccount
    obtain ⟨hfinish, hstart, _⟩ := (leads_of_at hat).rules strand place told ending haccount
    exact ⟨hfinish, hstart, hrules strand place told ending haccount⟩

theorem mayEnd_between (h : Between setting place ledger scene) :
    MayEnd (charter setting) 0 (.ok ()) ledger scene := by
  refine mayEnd_root h .done (.inl rfl) fun strand other told ending haccount => ?_
  obtain ⟨hlt, hdone, _⟩ := (leads_of_at h).rules strand other told ending haccount
  exact hdone hlt

/-- The strand of a run keeps to the charter. -/
theorem triple_runGroups (hobliging : Obliging setting handling) {groups : List (List Rule)}
    (horder : setting.order.drop place = groups.flatten) :
    Triple (charter setting) 0 (Between setting place)
      (runGroups handling (stamped setting.number place groups)) (MayEnd (charter setting) 0) := by
  induction groups generalizing place with
  | nil => exact .outcome fun _ _ h => mayEnd_between h
  | cons group rest ih =>
      rw [List.flatten_cons] at horder
      have hrest : setting.order.drop (place + group.length) = rest.flatten := by
        rw [← List.drop_drop, horder, List.drop_left]
      refine .get_bind fun seen => ?_
      split
      · refine ((triple_runGroup hobliging horder).bind (fun _ => ih hrest)
          fun e ledger scene hat => ?_).imp (fun _ _ h => h.2) fun _ _ _ h => h
        exact mayEnd_root hat.1 .failed (.inr ⟨rfl, e, rfl⟩) hat.2
      · exact .outcome fun _ _ h => mayEnd_between h.2

/-! ### What the accounts tell -/

variable {becomes : Members → Members → Prop} {mayFail : Prop}

end Reporting

end Rulebook.Engine
