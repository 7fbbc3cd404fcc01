import Mathlib.Algebra.Group.Prod
import Mathlib.Data.Multiset.AddSub
import Rulebook.Proofs.Engine.Calls
import Rulebook.Proofs.Engine.Conduct

/-!
What a run counts and records for each of its rules.

A strand that processes a rule tells in its account whether the engine was running when it began, and
what it has counted and recorded since then; so the counters and the journal have grown by what all
accounts tell together (`charter`).  A rule that finds the engine stopped adds nothing.  One that is
started adds either an evaluation, with a duration and a result, or else a failure (`Settles`): what its
handlers do makes no difference to that.
-/

namespace Rulebook.Engine

open Eval Strand Session

variable {η : Type}

/-! ### What is counted and recorded -/

/-- How many rules and failures were counted, how many durations were taken, and under which stamps
there are results. -/
abbrev Toll := (Nat × Nat × Nat) × Multiset Stamp

namespace Toll

/-- What the evaluation of a rule adds. -/
def evaluated (stamp : Stamp) : Toll := ((1, 0, 1), {stamp})

/-- What an evaluation adds that fails. -/
def failed : Toll := ((0, 1, 0), 0)

end Toll

/-- The stamps of results. -/
def stampsOf (journal : RunJournal) : Multiset Stamp := journal.results.map Stamped.stamp

/-- What is counted and recorded by now, if anything is counted. -/
def tollOf (scene : Scene η) : Option Toll :=
  scene.engine.tally.map fun tally =>
    ((tally.amount .rules (Rule.outcomeLabel true) + tally.amount .rules (Rule.outcomeLabel false),
      tally.total .errors, tally.timings), stampsOf scene.run.journal)

variable {scene now : Scene η} {becomes : Members → Members → Prop} {current : Nat}

theorem tollOf_congr (hscore : (HasSession.session now).score = (HasSession.session scene).score)
    (hstamps : stampsOf now.run.journal = stampsOf scene.run.journal) : tollOf now = tollOf scene := by
  have htoll : ∀ scene : Scene η, tollOf scene = (HasSession.session scene).score.map fun score =>
      (((Table.find? score.rules (Rule.outcomeLabel true)).getD 0 +
          (Table.find? score.rules (Rule.outcomeLabel false)).getD 0,
        (Table.values score.errors).foldr (· + ·) 0, score.timings), stampsOf scene.run.journal) := by
    intro scene
    rw [tollOf, Session.score, Option.map_map]
    refine congrArg (scene.engine.tally.map ·) (funext fun tally => ?_)
    rw [Tally.amount_eq_labels, Tally.amount_eq_labels]
    rfl
  rw [htoll, htoll, hscore, hstamps]

/-- A change that adds nothing. -/
def Free (scene now : Scene η) : Prop := tollOf now = tollOf scene

theorem allowsEvaluation_free : AllowsEvaluation (Free (η := η)) :=
  fun _ _ hscore => tollOf_congr hscore rfl

theorem tollOf_failed (scene : Scene η) (label : String) :
    tollOf (HasSession.withSession { HasSession.session scene with
      tally := (HasSession.session scene).tally.map fun tally => tally.count .errors label } scene) =
        (tollOf scene).map (· + Toll.failed) := by
  change (scene.engine.tally.map fun tally => tally.count .errors label).map _ = _
  rw [tollOf, Option.map_map, Option.map_map]
  refine congrArg (scene.engine.tally.map ·) (funext fun tally => Prod.ext ?_ (add_zero _).symm)
  simp only [Function.comp_apply, Tally.amount_count, Tally.total_count]
  rfl

theorem stampsOf_withResult (scene : Scene η) (stamp : Stamp) (result : RuleResult)
    (outcome : Value) : stampsOf (withResult scene stamp result outcome).run.journal =
      stampsOf scene.run.journal + {stamp} := by
  change ((scene.run.journal.results ++ [(⟨stamp, result⟩ : Stamped RuleResult)]).map Stamped.stamp :
    Multiset Stamp) = _
  rw [List.map_append, ← Multiset.coe_add]
  rfl

theorem tollOf_evaluated (scene : Scene η) (stamp : Stamp) (result : RuleResult) (outcome : Value) :
    tollOf (withResult (Rule.counting result.result scene) stamp result outcome) =
      (tollOf scene).map (· + Toll.evaluated stamp) := by
  change ((scene.engine.tally.map fun tally =>
    tally.count .rules (Rule.outcomeLabel result.result)).map Tally.time).map _ = _
  rw [tollOf, Option.map_map, Option.map_map, Option.map_map]
  refine congrArg (scene.engine.tally.map ·) (funext fun tally => ?_)
  refine Prod.ext (Prod.ext ?_ (Prod.ext ?_ rfl)) (stampsOf_withResult scene stamp result outcome)
  · change (tally.count .rules (Rule.outcomeLabel result.result)).amount .rules _ +
      (tally.count .rules (Rule.outcomeLabel result.result)).amount .rules _ = _
    rw [Tally.amount_count, Tally.amount_count]
    cases result.result <;> simp [Rule.outcomeLabel, Toll.evaluated] <;> omega
  · change (tally.count .rules _).total .errors = _
    rw [Tally.total_count]
    rfl

/-! ### Accounts -/

namespace Tolls

/-- What a strand of a run tells of itself. -/
inductive Account where
  /-- Nothing. -/
  | aside
  /-- The rules before `finish` were begun. -/
  | root (finish : Nat) (isOver : Bool)
  /-- The rule at a place of the order is processed.  The strand tells whether the engine was running when
  it began, and what it has added since then. -/
  | rule (place : Nat) (seen : Option Bool) (toll : Toll) (isOver : Bool)

namespace Account

/-- What may become of an account. -/
inductive Becomes : Account → Account → Prop where
  | root (finish later : Nat) (isOver : Bool) : Becomes (.root finish false) (.root later isOver)
  | begun (place : Nat) (seen : Option Bool) (toll later : Toll) (isOver : Bool) :
      Becomes (.rule place none toll false) (.rule place seen later isOver)
  | added (place : Nat) (seen : Option Bool) (toll later : Toll) (isOver : Bool) :
      Becomes (.rule place seen toll false) (.rule place seen later isOver)

theorem Becomes.trans {a b c : Account} (hab : Becomes a b) (hbc : Becomes b c) : Becomes a c := by
  cases hab <;> cases hbc <;> constructor

instance : Preorder Account where
  le a b := a = b ∨ Becomes a b
  le_refl _ := .inl rfl
  le_trans a b c hab hbc := by
    rcases hab with rfl | hab
    · exact hbc
    · rcases hbc with rfl | hbc
      · exact .inr hab
      · exact .inr (hab.trans hbc)

/-- The place of the rule that is processed. -/
def place? : Account → Option Nat
  | .rule place _ _ _ => some place
  | .aside | .root _ _ => none

/-- What the strand has added. -/
def toll : Account → Toll
  | .rule _ _ toll _ => toll
  | .aside | .root _ _ => 0

end Account

/-- What a rule has added in the end, and how its strand ends, given whether the engine was running when
it began. -/
inductive Settles (stamp : Stamp) : Option Bool → Toll → Ending → Prop where
  | skipped : Settles stamp (some false) 0 (.ok .nothing)
  /-- Then it is for the handlers how the strand ends. -/
  | evaluated (ending : Ending) : Settles stamp (some true) (Toll.evaluated stamp) ending
  | failed (e : Error) : Settles stamp (some true) Toll.failed (.error e)

/-- Counters and journal have grown by what the accounts tell.  The strand of the run tells how many rules
were begun; their strands are those of the first rules, in order. -/
structure Grown (start : Toll) (accounts : List Account) (scene : Scene η) : Prop where
  root : ∃ finish isOver, accounts[0]? = some (.root finish isOver) ∧
    accounts.filterMap Account.place? = List.range finish
  total : tollOf scene = some (start + (accounts.map Account.toll).sum)

/-- The accounts tell what was added. -/
def charter (number : Nat) (start : Toll) : Charter (Scene η) Ending Account where
  holds ledger scene := Grown start ledger.accounts scene
  settles account ending :=
    match account with
    | .aside | .root _ _ => True
    | .rule place seen toll isOver => isOver = true ∧ Settles ⟨number, place⟩ seen toll ending
  settles_mono := by
    rintro a b ending h (rfl | hlater)
    · exact h
    · cases hlater with
      | root _ _ _ => trivial
      | begun _ _ _ _ _ => cases h.1
      | added _ _ _ _ _ => cases h.1

instance (number : Nat) (start : Toll) : (charter (η := η) number start).Unranked := ⟨fun _ => rfl⟩

/-! ### What changes the accounts -/

theorem filterMap_place?_set {accounts : List Account} {own : Nat} {account : Account}
    (haccount : accounts[own]? = some account) (other : Account)
    (hplace : other.place? = account.place?) :
    (accounts.set own other).filterMap Account.place? = accounts.filterMap Account.place? := by
  induction accounts generalizing own with
  | nil => cases haccount
  | cons first rest ih =>
      cases own with
      | zero =>
          obtain rfl := Option.some.inj haccount
          rw [List.set_cons_zero, List.filterMap_cons, List.filterMap_cons, hplace]
      | succ own => rw [List.set_cons_succ, List.filterMap_cons, List.filterMap_cons, ih haccount]

theorem sum_toll_set {accounts : List Account} {own : Nat} {account : Account}
    (haccount : accounts[own]? = some account) (other : Account) {more : Toll}
    (htoll : other.toll = account.toll + more) :
    ((accounts.set own other).map Account.toll).sum = (accounts.map Account.toll).sum + more := by
  induction accounts generalizing own with
  | nil => cases haccount
  | cons first rest ih =>
      cases own with
      | zero =>
          obtain rfl := Option.some.inj haccount
          rw [List.set_cons_zero, List.map_cons, List.sum_cons, htoll, List.map_cons, List.sum_cons,
            add_right_comm]
      | succ own =>
          rw [List.set_cons_succ, List.map_cons, List.sum_cons, ih haccount, List.map_cons,
            List.sum_cons, add_assoc]

variable {number place finish : Nat} {start toll more : Toll} {seen : Option Bool} {isOver : Bool}
  {ledger : Ledger Account} {own : Nat} {handling : Handling η}

/-- The strand of a rule adds something. -/
theorem at_enter (hat : At (charter number start) own (.rule place seen toll false) ledger scene)
    (later : Option Bool) (hseen : seen = none ∨ seen = later) (isOver : Bool)
    (hnow : tollOf now = (tollOf scene).map (· + more)) :
    ledger.MayEnter own (.rule place later (toll + more) isOver) ∧
      At (charter number start) own (.rule place later (toll + more) isOver)
        (ledger.enter own (.rule place later (toll + more) isOver)) now := by
  have hmay : ledger.MayEnter own (.rule place later (toll + more) isOver) :=
    ⟨_, hat.account, .inr (by rcases hseen with rfl | rfl <;> constructor)⟩
  obtain ⟨finish, ended, hroot, hplaces⟩ := hat.holds.root
  refine ⟨hmay, hmay.account, ⟨finish, ended, ?_, ?_⟩, ?_⟩
  · refine (List.getElem?_set_ne ?_).trans hroot
    rintro rfl
    cases hroot.symm.trans hat.account
  · exact (filterMap_place?_set hat.account (.rule place later _ isOver) rfl).trans hplaces
  · rw [hnow, hat.holds.total, Option.map_some, add_assoc]
    exact congrArg (fun sum => some (start + sum)) (sum_toll_set hat.account _ rfl).symm

theorem idle_aside : Idle (charter number start) (Free (η := η)) .aside where
  settles _ := trivial
  openFor := by
    rintro ledger scene ⟨⟨finish, ended, hroot, hplaces⟩, htotal⟩
    refine ⟨⟨finish, ended, ?_, ?_⟩, ?_⟩
    · exact (List.getElem?_append_left (List.getElem?_eq_some_iff.1 hroot).1).trans hroot
    · rw [Ledger.openFor, List.filterMap_append, hplaces]
      exact List.append_nil _
    · have haside : ([Account.aside].map Account.toll).sum = 0 := rfl
      rw [Ledger.openFor, List.map_append, List.sum_append, haside, add_zero, htotal]
  begin _ _ _ h := h
  change _ _ _ hfree h := ⟨h.root, Eq.trans hfree h.total⟩

/-! ### Processing -/

variable {rule : Rule}

/-- Calling handlers adds nothing. -/
theorem within_callEach (hhandling : ∀ call, Within Free (handling call)) (rule : Rule) (verdict : Bool)
    (stamp : Stamp) (subject : Subject) (handlers : List η) :
    Within Free (callEach handling rule verdict stamp subject handlers) := by
  induction handlers with
  | nil => exact .outcome _
  | cons handler rest ih =>
      refine .get_bind fun seen => ?_
      exact .bind (.modify fun _ => rfl) fun _ => .bind (hhandling _) fun _ => ih

theorem within_emit (hhandling : ∀ call, Within Free (handling call)) (rule : Rule) (verdict : Bool)
    (stamp : Stamp) (event : Value) (subject : Subject) :
    Within Free (emit handling rule verdict stamp event subject) :=
  .get_bind fun _ => within_callEach hhandling rule verdict stamp subject _

/-- After an evaluation: the rule was counted just now, or a failure was. -/
def AfterEvaluation (number : Nat) (start : Toll) (own place : Nat) (rule : Rule) :
    Except Error RuleResult → Ledger Account → Scene η → Prop
  | .ok result => Rule.Evaluated (charter number start) own (.rule place (some true) 0 false) rule
      (.ok result)
  | .error _ => At (charter number start) own (.rule place (some true) Toll.failed false)

theorem triple_evaluateRule (rule : Rule) :
    Triple (charter number start) own
      (At (charter (η := η) number start) own (.rule place (some true) 0 false))
      (evaluateRule rule) (AfterEvaluation number start own place rule) := by
  refine (Rule.triple_evaluate idle_aside allowsEvaluation_free namedIn rule).attempt.bind
    (fun outcome => ?_) fun _ _ _ ⟨_, hwrong, _⟩ => by cases hwrong
  cases outcome with
  | ok result =>
      refine .outcome ?_
      rintro ledger scene ⟨_, heq, hevaluated⟩
      cases heq
      exact hevaluated
  | error e =>
      have hcount : Triple (charter number start) own
          (At (charter (η := η) number start) own (.rule place (some true) 0 false))
          (Session.count .errors e.className)
          fun _ => At (charter number start) own (.rule place (some true) Toll.failed false) := by
        refine Triple.entered (.rule place (some true) Toll.failed false)
          (Triple.modify.imp (fun ledger scene hat => ?_) fun _ _ _ h => h)
        have hadded := at_enter hat _ (.inr rfl) false (tollOf_failed scene e.className)
        rwa [zero_add] at hadded
      refine (hcount.bind (fun _ => .outcome fun _ _ hat => hat) fun _ _ _ hat => hat).imp ?_
        fun _ _ _ h => h
      rintro ledger scene ⟨_, heq, hevaluated⟩
      cases heq
      exact hevaluated

/-- A rule is reported: it is recorded, and whatever its handlers do adds nothing. -/
theorem triple_report (hhandling : ∀ call, Within Free (handling call)) (result : RuleResult) :
    Triple (charter number start) own
      (Rule.Evaluated (charter number start) own (.rule place (some true) 0 false) rule (.ok result))
      (report handling rule ⟨number, place⟩ result)
      fun _ => At (charter number start) own
        (.rule place (some true) (Toll.evaluated ⟨number, place⟩) false) := by
  have hrecord : ∀ outcome, Triple (charter number start) own
      (Rule.Evaluated (charter number start) own (.rule place (some true) 0 false) rule (.ok result))
      (record ⟨number, place⟩ result outcome) fun _ => At (charter (η := η) number start) own
        (.rule place (some true) (Toll.evaluated ⟨number, place⟩) false) := by
    intro outcome
    refine Triple.entered (.rule place (some true) (Toll.evaluated ⟨number, place⟩) false)
      (Triple.modify.imp ?_ fun _ _ _ h => h)
    rintro ledger _ ⟨_, scene, hat, rfl⟩
    have hadded := at_enter hat _ (.inr rfl) false (tollOf_evaluated scene ⟨number, place⟩ result outcome)
    rwa [zero_add] at hadded
  have hcalls : ∀ step : Act η Unit, Within Free step → Triple (charter number start) own
      (At (charter number start) own (.rule place (some true) (Toll.evaluated ⟨number, place⟩) false))
      step fun _ => At (charter number start) own
        (.rule place (some true) (Toll.evaluated ⟨number, place⟩) false) :=
    fun step hstep => hstep.triple idle_aside own _
  unfold report
  split
  · refine (hrecord _).bind (fun _ => hcalls _ ?_) fun _ _ _ hat => hat
    exact .bind (within_emit hhandling ..) fun _ => within_emit hhandling ..
  · exact (hrecord _).bind (fun _ => hcalls _ (within_emit hhandling ..)) fun _ _ _ hat => hat

/-- The strand of a rule comes to its end. -/
theorem mayEnd_rule {result : Except Error Unit}
    (hat : At (charter number start) own (.rule place seen toll false) ledger scene)
    (hsettles : Settles ⟨number, place⟩ seen toll (result.map Parceled.pack)) :
    MayEnd (charter number start) own result ledger scene := by
  have hsame : tollOf scene = (tollOf scene).map (· + 0) := by simp
  obtain ⟨hmay, hend⟩ := at_enter hat _ (.inr rfl) true hsame
  rw [add_zero] at hmay hend
  exact ⟨_, hmay, ⟨rfl, hsettles⟩, hend.holds⟩

/-- A rule that is started adds an evaluation or a failure. -/
theorem triple_started (hhandling : ∀ call, Within Free (handling call)) (rule : Rule) :
    Triple (charter number start) own
      (At (charter number start) own (.rule place (some true) 0 false))
      (do report handling rule ⟨number, place⟩ (← evaluateRule rule))
      (MayEnd (charter number start) own) := by
  refine (triple_evaluateRule rule).bind (fun result => ?_) fun e _ _ hat =>
    mayEnd_rule hat (.failed e)
  exact (triple_report hhandling result).imp (fun _ _ h => h) fun _ _ _ hat =>
    mayEnd_rule hat (.evaluated _)

/-- The strand of a rule notes whether the engine is running when it begins. -/
def Notes (scene : Scene η) : Account → Prop
  | .rule _ seen _ _ => seen = some (decide (scene.engine.status = .running))
  | .aside | .root _ _ => False

theorem starts_process (hhandling : ∀ call, Within Free (handling call)) (rule : Rule) (own : Nat) :
    (charter number start).Starts
      ((charter number start).Notes Notes (process handling rule ⟨number, place⟩).strand own) own
      (.rule place none 0 false) := by
  intro ledger scene haccount _ hholds
  have hsame : tollOf scene = (tollOf scene).map (· + 0) := by simp
  have hat : At (charter number start) own (.rule place none 0 false) ledger.begin scene :=
    ⟨haccount, hholds⟩
  obtain ⟨hmay, hbegun⟩ := at_enter hat (some (decide (scene.engine.status = .running)))
    (.inl rfl) false hsame
  rw [add_zero] at hmay hbegun
  refine ⟨_, hmay, rfl, ?_⟩
  change (charter number start).Honours ((if scene.engine.status = Status.running then
    (do report handling rule ⟨number, place⟩ (← evaluateRule rule)) else pure ()) _) _ _ _
  by_cases hrunning : scene.engine.status = .running
  · rw [if_pos hrunning]
    rw [decide_eq_true hrunning] at hbegun ⊢
    exact triple_started hhandling rule (fun result => .done (result.map Parceled.pack))
      (fun _ _ _ hend => hend) _ _ hbegun
  · rw [if_neg hrunning]
    rw [decide_eq_false hrunning] at hbegun ⊢
    have hend : MayEnd (charter number start) own (.ok ()) _ scene := mayEnd_rule hbegun .skipped
    exact hend

/-! ### Runs -/

/-- The account that is opened for a rule. -/
def accountOf (entry : Rule × Stamp) : Account := .rule entry.2.place none 0 false

variable {accounts : List Account} {group : List Rule}

/-- The strand of the run comes further. -/
theorem Grown.enter_root (h : Grown start accounts scene)
    (hroot : accounts[0]? = some (.root finish isOver)) (later : Bool) :
    Grown start (accounts.set 0 (.root finish later)) scene := by
  obtain ⟨_, _, hsame, hplaces⟩ := h.root
  cases hsame.symm.trans hroot
  refine ⟨⟨finish, later, List.getElem?_set_self (List.getElem?_eq_some_iff.1 hroot).1, ?_⟩, ?_⟩
  · exact (filterMap_place?_set hroot (.root finish later) rfl).trans hplaces
  · rw [sum_toll_set hroot (.root finish later) (add_zero _).symm, add_zero, h.total]

/-- The rules of a group are begun. -/
theorem Grown.openEach (h : Grown start accounts scene)
    (hroot : accounts[0]? = some (.root place false)) (number : Nat) (group : List Rule) :
    Grown start ((accounts ++ (stampedGroup number place group).map accountOf).set 0
      (.root (place + group.length) false)) scene := by
  obtain ⟨_, _, hsame, hplaces⟩ := h.root
  cases hsame.symm.trans hroot
  have hstill : (accounts ++ (stampedGroup number place group).map accountOf)[0]? =
      some (.root place false) :=
    (List.getElem?_append_left (List.getElem?_eq_some_iff.1 hroot).1).trans hroot
  have hopened : ((stampedGroup number place group).map accountOf).filterMap Account.place? =
      List.range' place group.length := by
    have hplace : Account.place? ∘ accountOf = some ∘ fun entry => entry.2.place := rfl
    rw [List.filterMap_map, hplace, List.filterMap_eq_map, ← List.zipIdx_map_snd place group,
      stampedGroup, List.map_map]
    rfl
  have hnothing : (((stampedGroup number place group).map accountOf).map Account.toll).sum = 0 := by
    rw [List.map_map]
    exact List.sum_map_zero
  refine ⟨⟨_, false, List.getElem?_set_self (List.getElem?_eq_some_iff.1 hstill).1, ?_⟩, ?_⟩
  · rw [filterMap_place?_set hstill (.root (place + group.length) false) rfl,
      List.filterMap_append, hplaces, hopened, List.range_eq_range', List.range_eq_range']
    simpa using List.range'_append_1 (s := 0) (m := place) (n := group.length)
  · rw [sum_toll_set hstill (.root (place + group.length) false) (add_zero _).symm, add_zero,
      List.map_append, List.sum_append, hnothing, add_zero, h.total]

/-- What a run tells of what it counts and records. -/
def conduct (hhandling : ∀ call, Within Free (handling call)) (number : Nat) (order : List Rule)
    (start : Toll) : Conduct handling number order (charter number start) where
  account := accountOf
  root place length := .root (place + length) false
  between place := At (charter number start) 0 (.root place false)
  final place account := account = .root place true
  note := Notes
  final_mono := by
    rintro place _ b rfl (rfl | hlater)
    · rfl
    · cases hlater
  note_mono := by
    rintro scene a b hnote (rfl | hlater)
    · exact hnote
    · cases hlater with
      | root _ _ _ => exact hnote
      | begun _ _ _ _ _ => cases hnote
      | added _ _ _ _ _ => exact hnote
  starts _ own := starts_process hhandling _ own
  opens hbetween _ := by
    have hlt := (List.getElem?_eq_some_iff.1 hbetween.account).1
    exact ⟨⟨_, (List.getElem?_append_left hlt).trans hbetween.account, .inr (.root _ _ _)⟩,
      hbetween.holds.openEach hbetween.account number _⟩
  gathers hat _ _ := ⟨_, Ledger.mayEnter_self hat.account, by rwa [Ledger.enter_self hat.account]⟩
  fails hat _ _ := ⟨.root _ true, ⟨_, hat.account, .inr (.root _ _ _)⟩, rfl, trivial,
    hat.holds.enter_root hat.account true⟩
  closes hbetween := ⟨.root _ true, ⟨_, hbetween.account, .inr (.root _ _ _)⟩, rfl, trivial,
    hbetween.holds.enter_root hbetween.account true⟩

/-! ### What there is in the end -/

/-- What a strand has added. -/
def added (ledger : Ledger Account) (strand : Nat) : Toll :=
  (ledger.accounts[strand]?.map Account.toll).getD 0

/-- What was added, by the places of rules. -/
def rule? : Account → Option (Nat × Toll)
  | .rule place _ toll _ => some (place, toll)
  | .aside | .root _ _ => none

theorem sum_toll_eq (accounts : List Account) :
    (accounts.map Account.toll).sum = ((accounts.filterMap rule?).map Prod.snd).sum := by
  induction accounts with
  | nil => rfl
  | cons account rest ih =>
      rw [List.map_cons, List.sum_cons, ih]
      cases account with
      | aside => exact zero_add _
      | root _ _ => exact zero_add _
      | rule _ _ _ _ => rfl

theorem map_snd_of_places {entries : List (Nat × Toll)} {tolls : List Toll}
    (hplaces : entries.map Prod.fst = List.range tolls.length)
    (htolls : ∀ (i : Nat) (toll : Toll), tolls[i]? = some toll → (i, toll) ∈ entries) :
    entries.map Prod.snd = tolls := by
  have hlength : entries.length = tolls.length := by
    simpa using congrArg List.length hplaces
  refine List.ext_getElem (by rw [List.length_map, hlength]) fun i hi hi' => ?_
  obtain ⟨j, hj, hentry⟩ := List.mem_iff_getElem.1 (htolls i _ (List.getElem?_eq_getElem hi'))
  -- A place tells where the entry stands.
  have hplace : (entries.map Prod.fst)[j]? = some j := by
    rw [hplaces, List.getElem?_range (hlength ▸ hj)]
  rw [List.getElem?_map, List.getElem?_eq_getElem hj, hentry] at hplace
  obtain rfl : i = j := Option.some.inj hplace
  rw [List.getElem_map, hentry]

/-- All that was added was added by the strands of rules. -/
theorem Grown.sum_eq (h : Grown start ledger.accounts scene) {strands : List Nat} {ended : Bool}
    (hroot : ledger.accounts[0]? = some (.root strands.length ended))
    (hstrands : ∀ (i strand : Nat), strands[i]? = some strand → ∃ seen toll isOver,
      ledger.accounts[strand]? = some (.rule i seen toll isOver)) :
    tollOf scene = some (start + (strands.map (added ledger)).sum) := by
  obtain ⟨_, _, hsame, hplaces⟩ := h.root
  cases hsame.symm.trans hroot
  have hfst : (ledger.accounts.filterMap rule?).map Prod.fst =
      ledger.accounts.filterMap Account.place? := by
    rw [List.map_filterMap]
    exact congrArg (List.filterMap · ledger.accounts) (funext fun account => by cases account <;> rfl)
  have htolls : (ledger.accounts.filterMap rule?).map Prod.snd = strands.map (added ledger) := by
    refine map_snd_of_places (by rw [hfst, hplaces, List.length_map]) fun i toll htoll => ?_
    rw [List.getElem?_map, Option.map_eq_some_iff] at htoll
    obtain ⟨strand, hstrand, rfl⟩ := htoll
    obtain ⟨seen, toll, isOver, haccount⟩ := hstrands i strand hstrand
    refine List.mem_filterMap.2 ⟨_, List.mem_of_getElem? haccount, ?_⟩
    rw [added, haccount]
    rfl
  rw [h.total, sum_toll_eq, htolls]

end Tolls

end Rulebook.Engine
