import Rulebook.Proofs.Engine.Answers
import Rulebook.Proofs.Engine.Groups

/-!
Calling the handlers of a rule.

A strand that processes a rule tells in its account whether the rule was recorded and which handlers
have been called for it; the calls and the results of the run are just those that the accounts tell
of (`Faithful`).  So they stay as they are whatever the other rules do, and when the strand has come
to its end, its calls are all that the verdict gives rise to (`starts_process`).
-/

namespace Rulebook.Engine.Reporting

open Eval Strand

variable {η : Type}

/-- How a strand of a run stands. -/
inductive Stage where
  | going
  | done
  | failed
  deriving DecidableEq

/-- What one may conclude of the rules of a run from how the run stands. -/
def Stage.Covers : Stage → Stage → Prop
  | .going, _ => True
  | .done, stage => stage = .done
  | .failed, stage => stage ≠ .going

/-- What a strand of a run tells of itself. -/
inductive Account (η : Type) where
  /-- Nothing. -/
  | aside
  /-- The rules before `start` are reported, and those from there to `finish` are processed. -/
  | root (start finish : Nat) (stage : Stage)
  /-- The rule at a place of the order is processed.  Once it is recorded, there is its verdict, and
  who was called for it. -/
  | rule (place : Nat) (told : Option (Bool × List (η × Subject))) (stage : Stage)

namespace Account

/-- The account may still change. -/
def isOpen : Account η → Bool
  | .aside => false
  | .root _ _ stage | .rule _ _ stage => stage = .going

/-- The place of the rule that is processed. -/
def place? : Account η → Option Nat
  | .rule place _ _ => some place
  | .aside | .root _ _ _ => none

instance : Preorder (Account η) where
  le a b := a = b ∨ a.isOpen = true ∧ a.place? = b.place?
  le_refl _ := .inl rfl
  le_trans a b c hab hbc := by
    rcases hab with rfl | ⟨hopen, hplace⟩
    · exact hbc
    · rcases hbc with rfl | ⟨_, hplace'⟩
      · exact .inr ⟨hopen, hplace⟩
      · exact .inr ⟨hopen, hplace.trans hplace'⟩

theorem exists_of_rule_le {place : Nat} {told : Option (Bool × List (η × Subject))} {stage : Stage}
    {account : Account η} (h : Account.rule place told stage ≤ account) :
    ∃ later ending, account = .rule place later ending := by
  rcases h with rfl | ⟨_, hplace⟩
  · exact ⟨told, stage, rfl⟩
  · cases account with
    | aside => cases hplace
    | root start finish stage => cases hplace
    | rule other later ending =>
        obtain rfl := Option.some.inj hplace
        exact ⟨later, ending, rfl⟩

/-- The account of a rule after an entry was made: that entry, or what stood there before. -/
theorem getElem?_set_rule {accounts : List (Account η)} {own : Nat} {account : Account η}
    (haccount : accounts[own]? = some account) (place : Nat)
    (told : Option (Bool × List (η × Subject))) (stage : Stage) (strand other : Nat)
    (found : Option (Bool × List (η × Subject))) (ending : Stage) :
    (accounts.set own (.rule place told stage))[strand]? = some (.rule other found ending) ↔
      (strand = own ∧ other = place ∧ found = told ∧ ending = stage) ∨
        (strand ≠ own ∧ accounts[strand]? = some (.rule other found ending)) := by
  by_cases hsame : strand = own
  · subst hsame
    rw [List.getElem?_set_self (List.getElem?_eq_some_iff.1 haccount).1, Option.some.injEq,
      Account.rule.injEq]
    simp [eq_comm]
  · simp [List.getElem?_set_ne (Ne.symm hsame), hsame]

end Account

/-- What is settled when a run starts: its number, its rules in their order, the engine with its
handlers, what events may become, and whether handlers may fail. -/
structure Setting (η : Type) where
  number : Nat
  order : List Rule
  engine : Engine η
  becomes : Members → Members → Prop
  mayFail : Prop

/-- The calls that a rule gives rise to. -/
def Setting.due (setting : Setting η) (rule : Rule) (verdict : Bool) : List (η × Subject) :=
  setting.engine.owed rule verdict ++ setting.engine.stray rule verdict

/-- The calls so far are the first ones of those that are due.  All of them were made when the
strand is done, and when it has failed although no handler has. -/
structure Timely (setting : Setting η) (rule : Rule) (verdict : Bool)
    (called : List (η × Subject)) (stage : Stage) : Prop where
  first : called <+: setting.due rule verdict
  done : stage = .done → called = setting.due rule verdict
  failed : stage = .failed → setting.mayFail

/-- The results and calls of a rule are as its account tells. -/
def Tells (setting : Setting η) (place : Nat) (results : List (Stamped RuleResult))
    (calls : List (Call η)) (stage : Stage) : Option (Bool × List (η × Subject)) → Prop
  | none => results = [] ∧ calls = []
  | some (verdict, called) => ∃ rule, setting.order[place]? = some rule ∧
      Recorded setting.becomes rule verdict called results calls ∧
        Timely setting rule verdict called stage

/-- The strand of the run tells which rules there are to tell of, which of them are done, and how
the others stand. -/
structure Leads (accounts : List (Account η)) (start finish : Nat) (stage : Stage) : Prop where
  root : accounts[0]? = some (.root start finish stage)
  rules : ∀ (strand place : Nat) told ending,
    accounts[strand]? = some (.rule place told ending) →
      place < finish ∧ (place < start → ending = .done) ∧ stage.Covers ending

/-- Each rule is processed by one strand only. -/
def Single (accounts : List (Account η)) : Prop :=
  ∀ (strand other place : Nat) told told' stage stage',
    accounts[strand]? = some (.rule place told stage) →
      accounts[other]? = some (.rule place told' stage') → strand = other

/-- The results and calls of a run are those of which the accounts tell. -/
structure Faithful (setting : Setting η) (accounts : List (Account η)) (scene : Scene η) : Prop where
  handlers : scene.engine.handlers = setting.engine.handlers
  calls : ∀ call ∈ scene.run.calls, call.stamp.run = setting.number
  leads : ∃ start finish stage, Leads accounts start finish stage
  single : Single accounts
  tells : ∀ (strand place : Nat) told stage, accounts[strand]? = some (.rule place told stage) →
    Tells setting place (scene.run.resultsAt ⟨setting.number, place⟩)
      (scene.run.callsAt ⟨setting.number, place⟩) stage told
  others : ∀ place,
    (∀ (strand : Nat) told stage, accounts[strand]? ≠ some (.rule place told stage)) →
      scene.run.resultsAt ⟨setting.number, place⟩ = [] ∧
        scene.run.callsAt ⟨setting.number, place⟩ = []

variable {setting : Setting η} {accounts : List (Account η)} {scene now : Scene η}
  {own place : Nat} {told : Option (Bool × List (η × Subject))} {stage : Stage}

theorem Tells.mild (hnow : Mild setting.becomes scene now) {stamp : Stamp}
    (h : Tells setting place (scene.run.resultsAt stamp) (scene.run.callsAt stamp) stage told) :
    Tells setting place (now.run.resultsAt stamp) (now.run.callsAt stamp) stage told := by
  cases told with
  | none => exact ⟨hnow.resultsAt_nil h.1, (hnow.callsAt stamp).trans h.2⟩
  | some told =>
      obtain ⟨rule, hrule, hrecorded, htimely⟩ := h
      exact ⟨rule, hrule, hnow.recorded hrecorded, htimely⟩

/-! ### What changes the accounts -/

theorem Leads.set {start finish : Nat} (h : Leads accounts start finish stage)
    (haccount : accounts[own]? = some (.rule place told .going))
    (told' : Option (Bool × List (η × Subject))) (stage' : Stage) :
    Leads (accounts.set own (.rule place told' stage')) start finish stage := by
  have hne : own ≠ 0 := by
    rintro rfl
    cases h.root.symm.trans haccount
  refine ⟨(List.getElem?_set_ne hne).trans h.root, fun strand other found ending hfound => ?_⟩
  rcases (Account.getElem?_set_rule haccount ..).1 hfound with ⟨_, rfl, _⟩ | ⟨_, hold⟩
  · -- The rule has been going on, so its group is the present one, and so is the run.
    obtain ⟨hfinish, hstart, hcovers⟩ := h.rules own other told .going haccount
    refine ⟨hfinish, fun hlt => (nomatch hstart hlt), ?_⟩
    cases stage with
    | going => trivial
    | done => cases hcovers
    | failed => exact absurd rfl hcovers
  · exact h.rules strand other found ending hold

theorem Single.set (h : Single accounts)
    (haccount : accounts[own]? = some (.rule place told stage))
    (told' : Option (Bool × List (η × Subject))) (stage' : Stage) :
    Single (accounts.set own (.rule place told' stage')) := by
  have hcases := Account.getElem?_set_rule haccount place told' stage'
  intro strand other shared found found' ending ending' hfirst hsecond
  rcases (hcases _ _ _ _).1 hfirst with ⟨rfl, rfl, _⟩ | ⟨hne, hold⟩
  · rcases (hcases _ _ _ _).1 hsecond with ⟨rfl, _⟩ | ⟨hne, hold⟩
    · rfl
    · exact absurd (h _ _ _ _ _ _ _ hold haccount) hne
  · rcases (hcases _ _ _ _).1 hsecond with ⟨rfl, rfl, _⟩ | ⟨_, hold'⟩
    · exact absurd (h _ _ _ _ _ _ _ hold haccount) hne
    · exact h _ _ _ _ _ _ _ hold hold'

namespace Faithful

theorem mild (h : Faithful setting accounts scene) (hnow : Mild setting.becomes scene now) :
    Faithful setting accounts now where
  handlers := hnow.handlers.trans h.handlers
  calls := by
    rw [hnow.calls]
    exact h.calls
  leads := h.leads
  single := h.single
  tells strand place told stage haccount := (h.tells strand place told stage haccount).mild hnow
  others place hnone :=
    ⟨hnow.resultsAt_nil (h.others place hnone).1, (hnow.callsAt _).trans (h.others place hnone).2⟩

/-- A rule comes further; the results and calls of the others stay as they are. -/
theorem set (h : Faithful setting accounts scene)
    (haccount : accounts[own]? = some (.rule place told .going))
    (hhandlers : now.engine.handlers = scene.engine.handlers)
    (hcalls : ∀ call ∈ now.run.calls, call ∈ scene.run.calls ∨ call.stamp.run = setting.number)
    {told' : Option (Bool × List (η × Subject))} {stage' : Stage}
    (htells : Tells setting place (now.run.resultsAt ⟨setting.number, place⟩)
      (now.run.callsAt ⟨setting.number, place⟩) stage' told')
    (hothers : ∀ stamp, stamp ≠ ⟨setting.number, place⟩ →
      now.run.resultsAt stamp = scene.run.resultsAt stamp ∧
        now.run.callsAt stamp = scene.run.callsAt stamp) :
    Faithful setting (accounts.set own (.rule place told' stage')) now := by
  have hcases := Account.getElem?_set_rule haccount place told' stage'
  have helsewhere : ∀ {other : Nat}, other ≠ place →
      now.run.resultsAt ⟨setting.number, other⟩ = scene.run.resultsAt ⟨setting.number, other⟩ ∧
        now.run.callsAt ⟨setting.number, other⟩ = scene.run.callsAt ⟨setting.number, other⟩ :=
    fun hne => hothers _ fun hsame => hne (congrArg Stamp.place hsame)
  obtain ⟨start, finish, stage, hleads⟩ := h.leads
  refine ⟨hhandlers.trans h.handlers, fun call hcall => (hcalls call hcall).elim (h.calls call) id,
    ⟨start, finish, stage, hleads.set haccount told' stage'⟩, h.single.set haccount told' stage',
    ?_, ?_⟩
  · intro strand other found ending hfound
    rcases (hcases strand other found ending).1 hfound with ⟨_, rfl, rfl, rfl⟩ | ⟨hne, hold⟩
    · exact htells
    · have hplace : other ≠ place := by
        rintro rfl
        exact hne (h.single _ _ _ _ _ _ _ hold haccount)
      rw [(helsewhere hplace).1, (helsewhere hplace).2]
      exact h.tells strand other found ending hold
  · intro other hnone
    have hplace : other ≠ place := by
      rintro rfl
      exact hnone own told' stage' ((hcases ..).2 (.inl ⟨rfl, rfl, rfl, rfl⟩))
    rw [(helsewhere hplace).1, (helsewhere hplace).2]
    refine h.others other fun strand found ending hfound => ?_
    have hne : strand ≠ own := by
      rintro rfl
      cases haccount.symm.trans hfound
      exact hplace rfl
    exact hnone strand found ending ((hcases ..).2 (.inr ⟨hne, hfound⟩))

/-- Nothing is told of other rules than before. -/
theorem congr (h : Faithful setting accounts scene) {later : List (Account η)}
    (hsame : ∀ (strand place : Nat) told stage,
      later[strand]? = some (.rule place told stage) ↔
        accounts[strand]? = some (.rule place told stage))
    {start finish : Nat} (hleads : Leads later start finish stage) :
    Faithful setting later scene := by
  refine ⟨h.handlers, h.calls, ⟨start, finish, stage, hleads⟩, ?_, ?_, ?_⟩
  · simpa only [Single, hsame] using h.single
  · simpa only [hsame] using h.tells
  · simpa only [ne_eq, hsame] using h.others

/-- A strand with nothing to tell is started. -/
theorem openFor (h : Faithful setting accounts scene) :
    Faithful setting (accounts ++ [.aside]) scene := by
  have hsame : ∀ (strand place : Nat) told stage,
      (accounts ++ [.aside])[strand]? = some (.rule place told stage) ↔
        accounts[strand]? = some (.rule place told stage) := by
    intro strand place told stage
    rw [List.getElem?_append]
    split
    · rfl
    · next hge =>
        rw [List.getElem?_eq_none (Nat.not_lt.1 hge)]
        refine iff_of_false (fun hfound => ?_) nofun
        cases List.mem_singleton.1 (List.mem_of_getElem? hfound)
  obtain ⟨start, finish, stage, hroot, hrules⟩ := h.leads
  have hlt := (List.getElem?_eq_some_iff.1 hroot).1
  refine h.congr hsame ⟨(List.getElem?_append_left hlt).trans hroot, ?_⟩
  simpa only [hsame] using hrules

end Faithful

/-- The accounts tell of the run.  Whoever has failed does not end well. -/
def charter (setting : Setting η) : Charter (Scene η) Ending (Account η) where
  holds ledger scene := Faithful setting ledger.accounts scene
  settles account ending :=
    match account with
    | .aside => True
    | .root _ _ stage | .rule _ _ stage =>
        stage = .done ∨ (stage = .failed ∧ ∃ e, ending = .error e)
  settles_mono := by
    intro account later ending h hle
    rcases hle with rfl | ⟨hopen, _⟩
    · exact h
    · -- An account that settles anything is closed, or it tells of nothing.
      cases account with
      | aside => cases hopen
      | root start finish stage =>
          have hgoing : stage = .going := by simpa [Account.isOpen] using hopen
          rcases h with hdone | ⟨hfailed, _⟩
          · cases hgoing.symm.trans hdone
          · cases hgoing.symm.trans hfailed
      | rule place told stage =>
          have hgoing : stage = .going := by simpa [Account.isOpen] using hopen
          rcases h with hdone | ⟨hfailed, _⟩
          · cases hgoing.symm.trans hdone
          · cases hgoing.symm.trans hfailed

instance (setting : Setting η) : (charter setting).Unranked := ⟨fun _ => rfl⟩

/-- What is asked of the handlers that are subscribed: between the calls they leave the record of
the run alone, and unless they may fail they do not. -/
structure Obliging (setting : Setting η) (handling : Handling η) : Prop where
  mild : ∀ event, ∀ call : Call η, call.handler ∈ setting.engine.handlersOf event →
    Within (Mild setting.becomes) (handling call)
  unfailing : ¬ setting.mayFail → ∀ event, ∀ call : Call η,
    call.handler ∈ setting.engine.handlersOf event → (handling call).Unfailing

variable {handling : Handling η} {ledger : Ledger (Account η)} {rule : Rule} {verdict : Bool}
  {called : List (η × Subject)}

theorem idle_aside (setting : Setting η) :
    Idle (charter setting) (Mild setting.becomes) .aside where
  settles _ := trivial
  openFor _ _ h := h.openFor
  begin _ _ _ h := h
  change _ _ _ hnow h := h.mild hnow

/-- The rule of a strand comes further, and the scene with it. -/
theorem at_enter (hat : At (charter setting) own (.rule place told .going) ledger scene)
    (now : Scene η) (hhandlers : now.engine.handlers = scene.engine.handlers)
    (hcalls : ∀ call ∈ now.run.calls, call ∈ scene.run.calls ∨ call.stamp.run = setting.number)
    {told' : Option (Bool × List (η × Subject))} {stage' : Stage}
    (htells : Tells setting place (now.run.resultsAt ⟨setting.number, place⟩)
      (now.run.callsAt ⟨setting.number, place⟩) stage' told')
    (hothers : ∀ stamp, stamp ≠ ⟨setting.number, place⟩ →
      now.run.resultsAt stamp = scene.run.resultsAt stamp ∧
        now.run.callsAt stamp = scene.run.callsAt stamp) :
    ledger.MayEnter own (.rule place told' stage') ∧
      At (charter setting) own (.rule place told' stage')
        (ledger.enter own (.rule place told' stage')) now := by
  have hmay : ledger.MayEnter own (.rule place told' stage') := ⟨_, hat.account, .inr ⟨rfl, rfl⟩⟩
  exact ⟨hmay, hmay.account, hat.holds.set hat.account hhandlers hcalls htells hothers⟩

/-- The strand of a rule comes to its end. -/
theorem mayEnd_rule (hat : At (charter setting) own (.rule place told .going) ledger scene)
    {result : Except Error Unit} (stage : Stage)
    (hstage : stage = .done ∨ (stage = .failed ∧ ∃ e, result = .error e))
    (htells : Tells setting place (scene.run.resultsAt ⟨setting.number, place⟩)
      (scene.run.callsAt ⟨setting.number, place⟩) stage told) :
    MayEnd (charter setting) own result ledger scene := by
  obtain ⟨hmay, hend⟩ := at_enter hat scene rfl (fun _ => .inl) htells fun _ _ => ⟨rfl, rfl⟩
  refine ⟨_, hmay, ?_, hend.holds⟩
  rcases hstage with hdone | ⟨hfailed, e, rfl⟩
  · exact .inl hdone
  · exact .inr ⟨hfailed, e, rfl⟩

/-! ### Calling handlers -/

/-- Handlers were called for a rule, all of these unless one of them has failed. -/
def AfterCalls (setting : Setting η) (own place : Nat) (verdict : Bool)
    (called : List (η × Subject)) :
    Except Error Unit → Ledger (Account η) → Scene η → Prop
  | .ok _ => At (charter setting) own (.rule place (some (verdict, called)) .going)
  | .error _ => fun ledger scene => setting.mayFail ∧
      ∃ sofar, At (charter setting) own (.rule place (some (verdict, sofar)) .going) ledger scene

/-- A handler is called. -/
theorem triple_handling (hobliging : Obliging setting handling) {event : Value} {call : Call η}
    (hcall : call.handler ∈ setting.engine.handlersOf event) :
    Triple (charter setting) own
      (At (charter setting) own (.rule place (some (verdict, called)) .going))
      (handling call) (AfterCalls setting own place verdict called) := by
  have hmild := (hobliging.mild event call hcall).triple (idle_aside setting) own
    (.rule place (some (verdict, called)) .going)
  by_cases hmay : setting.mayFail
  · refine hmild.imp (fun _ _ h => h) fun result _ _ hat => ?_
    cases result with
    | ok _ => exact hat
    | error e => exact ⟨hmay, _, hat⟩
  · refine (Triple.of_unfailing (hobliging.unfailing hmay event call hcall) hmild).imp
      (fun _ _ h => h) ?_
    rintro _ _ _ ⟨⟨_, rfl⟩, hat⟩
    exact hat

/-- A call is noted that is the next one due. -/
theorem at_withCall (hrule : setting.order[place]? = some rule)
    (hat : At (charter setting) own (.rule place (some (verdict, called)) .going) ledger scene)
    {handler : η} {subject : Subject}
    (hdue : called ++ [(handler, subject)] <+: setting.due rule verdict) :
    let call : Call η := ⟨handler, ⟨setting.number, place⟩, subject,
      subject.argument ((scene.run.event? ⟨setting.number, place⟩).getD []), rule.name, verdict⟩
    let account : Account η := .rule place (some (verdict, called ++ [(handler, subject)])) .going
    ledger.MayEnter own account ∧
      At (charter setting) own account (ledger.enter own account) (withCall scene call) := by
  intro call account
  obtain ⟨other, hother, hrecorded, htimely⟩ := hat.holds.tells own place _ _ hat.account
  obtain rfl := Option.some.inj (hother.symm.trans hrule)
  refine at_enter hat (withCall scene call) rfl ?_ ?_ ?_
  · intro noted hnoted
    refine (List.mem_append.1 hnoted).imp_right fun hnew => ?_
    rw [List.mem_singleton.1 hnew]
  · refine ⟨other, hother, ?_, hdue, nofun, nofun⟩
    rw [callsAt_withCall, if_pos rfl]
    exact hrecorded.call (hrecorded.answers_of_event handler subject)
  · intro stamp hstamp
    refine ⟨rfl, ?_⟩
    rw [callsAt_withCall, if_neg (Ne.symm hstamp), List.append_nil]

theorem triple_callEach (hobliging : Obliging setting handling) (own : Nat)
    (hrule : setting.order[place]? = some rule) {event : Value} {subject : Subject}
    {handlers : List η} (hhandlers : ∀ handler ∈ handlers, handler ∈ setting.engine.handlersOf event)
    (hdue : called ++ handlers.map (fun handler => (handler, subject)) <+:
      setting.due rule verdict) :
    Triple (charter setting) own
      (At (charter setting) own (.rule place (some (verdict, called)) .going))
      (callEach handling rule verdict ⟨setting.number, place⟩ subject handlers)
      (AfterCalls setting own place verdict
        (called ++ handlers.map fun handler => (handler, subject))) := by
  induction handlers generalizing called with
  | nil =>
      rw [List.map_nil, List.append_nil]
      exact .outcome fun _ _ hat => hat
  | cons handler rest ih =>
      rw [List.forall_mem_cons] at hhandlers
      rw [List.map_cons, List.append_cons] at hdue ⊢
      have hfirst : called ++ [(handler, subject)] <+: setting.due rule verdict :=
        (List.prefix_append _ _).trans hdue
      refine .get_bind fun seen => ?_
      dsimp only
      have hnoted : Triple (charter setting) own
          (fun ledger scene => scene = seen ∧
            At (charter setting) own (.rule place (some (verdict, called)) .going) ledger scene)
          (Act.onRun fun run => { run with calls := run.calls ++ [⟨handler,
            ⟨setting.number, place⟩, subject, subject.argument
              ((seen.run.event? ⟨setting.number, place⟩).getD []), rule.name, verdict⟩] })
          (AfterCalls setting own place verdict (called ++ [(handler, subject)])) := by
        apply Triple.entered (.rule place (some (verdict, called ++ [(handler, subject)])) .going)
        refine Triple.modify.imp ?_ fun _ _ _ h => h
        rintro ledger scene ⟨rfl, hat⟩
        exact at_withCall hrule hat hfirst
      refine hnoted.bind (fun _ => ?_) fun _ _ _ hat => hat
      exact (triple_handling hobliging hhandlers.1).bind (fun _ => ih hhandlers.2 hdue)
        fun _ _ _ hat => hat

theorem handlersOf_of_at {a : Account η} (hat : At (charter setting) own a ledger scene)
    (event : Value) : scene.engine.handlersOf event = setting.engine.handlersOf event := by
  rw [handlersOf, handlersOf, hat.holds.handlers]

theorem triple_emit (hobliging : Obliging setting handling) (own : Nat)
    (hrule : setting.order[place]? = some rule) (called : List (η × Subject)) (event : Value)
    (subject : Subject)
    (hdue : called ++ (setting.engine.handlersOf event).map (fun handler => (handler, subject)) <+:
      setting.due rule verdict) :
    Triple (charter setting) own
      (At (charter setting) own (.rule place (some (verdict, called)) .going))
      (emit handling rule verdict ⟨setting.number, place⟩ event subject)
      (AfterCalls setting own place verdict
        (called ++ (setting.engine.handlersOf event).map fun handler => (handler, subject))) := by
  intro next hnext ledger scene hat
  have hcalls := triple_callEach hobliging own hrule (fun _ h => h) hdue
  rw [← handlersOf_of_at hat] at hcalls hnext
  exact hcalls next hnext ledger scene hat

/-! ### Reporting and processing -/

/-- A rule is recorded. -/
theorem triple_record (own : Nat) (hrule : setting.order[place]? = some rule) {result : RuleResult}
    (hevent : result.event = rule.event.members) (outcome : Value) :
    Triple (charter setting) own (At (charter setting) own (.rule place none .going))
      (record ⟨setting.number, place⟩ result outcome)
      (AfterCalls setting own place result.result []) := by
  apply Triple.entered (.rule place (some (result.result, [])) .going)
  refine Triple.modify.imp (fun ledger scene hat => ?_) fun _ _ _ h => h
  obtain ⟨hresults, hcalls⟩ := hat.holds.tells own place _ _ hat.account
  refine at_enter hat (withResult scene _ result outcome) rfl (fun _ => .inl) ?_ ?_
  · refine ⟨rule, hrule, ?_, List.nil_prefix, nofun, nofun⟩
    rw [resultsAt_withResult, hresults, if_pos rfl]
    change Recorded _ _ _ _ _ (scene.run.callsAt _)
    rw [hcalls]
    exact .single _ _ hevent
  · intro stamp hstamp
    refine ⟨?_, rfl⟩
    rw [resultsAt_withResult, if_neg (Ne.symm hstamp), List.append_nil]

/-- A rule is reported: the handlers are called that its verdict gives rise to. -/
theorem triple_report (hobliging : Obliging setting handling) (own : Nat)
    (hrule : setting.order[place]? = some rule) {result : RuleResult}
    (hevent : result.event = rule.event.members) :
    Triple (charter setting) own (At (charter setting) own (.rule place none .going))
      (report handling rule ⟨setting.number, place⟩ result)
      (AfterCalls setting own place result.result (setting.due rule result.result)) := by
  unfold report
  split
  · next hverdict =>
      have hrecord := triple_record own hrule hevent Journal.success
      have hdue : setting.due rule true = _ := setting.engine.owed_append_stray rule
      rw [hverdict] at hrecord ⊢
      refine hrecord.bind (fun _ => ?_) fun _ _ _ hat => hat
      have hfirst : [] ++ (setting.engine.handlersOf Journal.success).map
          (fun handler => (handler, Subject.event)) <+: setting.due rule true := by
        rw [List.nil_append, hdue]
        exact List.prefix_append _ _
      refine (triple_emit hobliging own hrule [] _ .event hfirst).bind (fun _ => ?_)
        fun _ _ _ hat => hat
      rw [List.nil_append, hdue]
      exact triple_emit hobliging own hrule _ _ .payload (hdue ▸ List.prefix_rfl)
  · next hverdict =>
      have hrecord := triple_record own hrule hevent Journal.failure
      have hdue : setting.due rule false = _ := List.append_nil _
      rw [Bool.eq_false_of_not_eq_true hverdict] at hrecord ⊢
      refine hrecord.bind (fun _ => ?_) fun _ _ _ hat => hat
      rw [hdue]
      exact triple_emit hobliging own hrule [] _ .event (hdue ▸ List.prefix_rfl)

/-- Evaluating a rule yields its event, and nothing is recorded or called by then. -/
theorem triple_evaluateRule (setting : Setting η) (own : Nat) (rule : Rule) (a : Account η) :
    Triple (charter setting) own (At (charter setting) own a) (evaluateRule rule)
      fun result ledger scene => At (charter setting) own a ledger scene ∧
        ∀ found, result = .ok found → found.event = rule.event.members := by
  have hidle := idle_aside setting
  have hupdate : ∀ change : Session → Session, Within (Mild setting.becomes)
      (Session.update change : Act η Unit) := fun change =>
    .modify fun scene => mild_session setting.becomes scene _
  have hevaluate : Triple (charter setting) own (At (charter setting) own a)
      (rule.evaluate namedIn)
      fun result ledger scene => At (charter setting) own a ledger scene ∧
        ∀ found, result = .ok found → found.event = rule.event.members := by
    have hconditions := (allowsLookups_mild (η := η) setting.becomes).allowsEvaluation.within_evaluate
      namedIn rule.conditions
    refine (hconditions.triple hidle own a).bind (fun conditions => ?_)
      fun _ _ _ hat => ⟨hat, nofun⟩
    refine ((hupdate _).triple hidle own a).bind (fun _ => ?_) fun _ _ _ hat => ⟨hat, nofun⟩
    refine ((hupdate _).triple hidle own a).bind (fun _ => ?_) fun _ _ _ hat => ⟨hat, nofun⟩
    refine .outcome fun _ _ hat => ⟨hat, ?_⟩
    rintro found hfound
    cases hfound
    rfl
  refine hevaluate.attempt.bind (fun outcome => ?_) fun _ _ _ ⟨_, hwrong, _⟩ => nomatch hwrong
  cases outcome with
  | ok result =>
      refine .outcome ?_
      rintro ledger scene ⟨_, heq, hat, hevent⟩
      cases heq
      exact ⟨hat, hevent⟩
  | error e =>
      refine Triple.imp (((hupdate _).triple hidle own a).bind
        (fun _ => .outcome fun _ _ hat => ⟨hat, nofun⟩) fun _ _ _ hat => ⟨hat, nofun⟩) ?_
        fun _ _ _ h => h
      rintro ledger scene ⟨_, heq, hat, _⟩
      exact hat

theorem mayEnd_of_reported (hrule : setting.order[place]? = some rule) {result : Except Error Unit}
    (h : AfterCalls setting own place verdict (setting.due rule verdict) result ledger scene) :
    MayEnd (charter setting) own result ledger scene := by
  cases result with
  | ok _ =>
      refine mayEnd_rule h .done (.inl rfl) ?_
      obtain ⟨other, hother, hrecorded, htimely⟩ := h.holds.tells own place _ _ h.account
      obtain rfl := Option.some.inj (hother.symm.trans hrule)
      exact ⟨other, hother, hrecorded, htimely.first, fun _ => rfl, nofun⟩
  | error e =>
      obtain ⟨hmay, sofar, hat⟩ := h
      refine mayEnd_rule hat .failed (.inr ⟨rfl, e, rfl⟩) ?_
      obtain ⟨other, hother, hrecorded, htimely⟩ := hat.holds.tells own place _ _ hat.account
      exact ⟨other, hother, hrecorded, htimely.first, nofun, fun _ => hmay⟩

/-- A strand that processes a rule keeps to the charter. -/
theorem starts_process (hobliging : Obliging setting handling)
    (hrule : setting.order[place]? = some rule) (number : Nat) :
    (charter setting).Starts
      ((charter setting).Honours (process handling rule ⟨setting.number, place⟩).strand number)
      number (.rule place none .going) := by
  have hprocess : Triple (charter setting) number
      (At (charter setting) number (.rule place none .going))
      (process handling rule ⟨setting.number, place⟩) (MayEnd (charter setting) number) := by
    refine .get_bind fun seen => ?_
    split
    · refine Triple.imp ((triple_evaluateRule setting number rule _).bind (fun result => ?_) ?_)
        (fun _ _ h => h.2) fun _ _ _ h => h
      · rintro next hnext ledger scene ⟨hat, hevent⟩
        refine triple_report hobliging number hrule (hevent result rfl) next ?_ ledger scene hat
        exact fun _ _ _ h => hnext _ _ _ (mayEnd_of_reported hrule h)
      · rintro e ledger scene ⟨hat, _⟩
        exact mayEnd_rule hat .failed (.inr ⟨rfl, e, rfl⟩)
          (hat.holds.tells number place none .going hat.account)
    · refine .outcome fun ledger scene h => ?_
      exact mayEnd_rule h.2 .done (.inl rfl) (h.2.holds.tells number place none .going h.2.account)
  refine Triple.starts (hprocess.imp ?_ fun _ _ _ h => h)
  rintro ledger scene ⟨before, rfl, _, hat⟩
  exact ⟨hat.account, hat.holds⟩

end Rulebook.Engine.Reporting
