import Rulebook.Proofs.Engine.Books
import Rulebook.Proofs.Engine.Progress

/-!
Processing a rule.

A strand that processes a rule tells in its account how far it has come (`charter`), and it keeps to
that whatever else goes on (`starts_process`).  Of handlers it is asked that they leave the record of
the run alone, and that those which stop the engine do so in each call (`Polite`).
-/

namespace Rulebook.Engine

open Eval Strand

variable {η : Type}

/-- The accounts tell how far the run has come.  Whoever has failed does not end well. -/
def charter (plan : Plan η) : Charter (Scene η) Ending Account where
  holds ledger scene := ∃ start finish isOver phases, Books ledger start finish isOver phases ∧
    phases.length = finish ∧ Progress plan start isOver phases scene
  settles account ending :=
    match account with
    | .aside => True
    | .root _ _ isOver => isOver = true ∨ ∃ e, ending = .error e
    | .process _ phase => phase.IsThrough ∨
        (phase.isOpen = false ∧ ∃ e, ending = .error e)
  settles_mono := by
    intro account later ending h hle
    rcases hle with rfl | ⟨hopen, hplace⟩
    · exact h
    · cases account with
      | aside => cases hopen
      | process place phase =>
          rcases h with hthrough | ⟨hclosed, _⟩
          · cases hthrough.isOpen.symm.trans hopen
          · cases hclosed.symm.trans hopen
      | root start finish isOver =>
          have hover : isOver = false := by simpa [Account.isOpen] using hopen
          cases later with
          | aside => trivial
          | process place phase => cases hplace
          | root _ _ _ => exact .inr (h.resolve_left (by simp [hover]))

instance (plan : Plan η) : (charter plan).Unranked := ⟨fun _ => rfl⟩

/-- What is asked of handlers: apart from the events of the run they leave its record alone, and
those that stop the engine do so at some time during each call. -/
structure Polite (stops : η → Bool) (free : Prop) (handling : Handling η) : Prop where
  quiet : ∀ call, stops call.handler = false →
    Within (Discreet free call.stamp.run) (handling call)
  stopping : ∀ call, stops call.handler = true → ∃ before after : Act η Unit,
    handling call = (do before; Act.onEngine Engine.stop; after) ∧
      Within (Discreet free call.stamp.run) before ∧ Within (Discreet free call.stamp.run) after

/-- What a plan asks of handlers. -/
structure Courteous (plan : Plan η) (handling : Handling η) : Prop where
  quiet : ∀ call, call.stamp.run = plan.number → plan.stops call.handler = false →
    Within (Unobtrusive plan.free plan.counting plan.number) (handling call)
  stopping : ∀ call, call.stamp.run = plan.number → plan.stops call.handler = true →
    ∃ before after : Act η Unit,
      handling call = (do before; Act.onEngine Engine.stop; after) ∧
        Within (Unobtrusive plan.free plan.counting plan.number) before ∧
        Within (Unobtrusive plan.free plan.counting plan.number) after

theorem Polite.courteous {plan : Plan η} {handling : Handling η}
    (h : Polite plan.stops plan.free handling) : Courteous plan handling := by
  refine ⟨fun call hrun hquiet => ?_, fun call hrun hstops => ?_⟩
  · rw [← hrun]
    exact (h.quiet call hquiet).mono fun _ _ hnow => hnow.unobtrusive plan.counting
  · obtain ⟨before, after, heq, hbefore, hafter⟩ := h.stopping call hstops
    rw [← hrun]
    exact ⟨before, after, heq, hbefore.mono fun _ _ hnow => hnow.unobtrusive plan.counting,
      hafter.mono fun _ _ hnow => hnow.unobtrusive plan.counting⟩

variable {plan : Plan η} {handling : Handling η} {own place : Nat} {old phase : Phase}
  {ledger : Ledger Account} {scene now : Scene η}

theorem allowsLookups_unobtrusive (free counting : Prop) (number : Nat) :
    AllowsLookups (Unobtrusive (η := η) free counting number) :=
  fun _ _ hcounts => ⟨rfl, rfl, rfl, .inl rfl, fun _ => hcounts, .inl rfl⟩

theorem idle_aside (hearlier : plan.earlier.Before plan.number) :
    Idle (charter plan) (Unobtrusive plan.free plan.counting plan.number) .aside where
  settles _ := trivial
  openFor := by
    rintro ledger scene ⟨start, finish, isOver, phases, hbooks, hrest⟩
    exact ⟨start, finish, isOver, phases, hbooks.openFor, hrest⟩
  begin := by
    rintro ledger scene haside ⟨start, finish, isOver, phases, hbooks, hrest⟩
    exact ⟨start, finish, isOver, phases, hbooks.begin_other haside rfl, hrest⟩
  change := by
    rintro ledger scene now hnow ⟨start, finish, isOver, phases, hbooks, hlength, hprogress⟩
    exact ⟨start, finish, isOver, phases, hbooks, hlength, hprogress.unobtrusive hearlier hnow⟩

/-- The rule of a strand comes further, and the scene with it. -/
theorem at_enter (hat : At (charter plan) own (.process place old) ledger scene)
    (hopen : old.isOpen = true) (hold : old ≠ .waiting) (hphase : phase ≠ .waiting)
    (hnow : ∀ start isOver phases, phases[place]? = some old →
      Progress plan start isOver phases scene →
        Progress plan start isOver (phases.set place phase) now) :
    ledger.MayEnter own (.process place phase) ∧
      At (charter plan) own (.process place phase)
        (ledger.enter own (.process place phase)) now := by
  obtain ⟨haccount, start, finish, isOver, phases, hbooks, hlength, hprogress⟩ := hat
  have hmay : ledger.MayEnter own (.process place phase) :=
    ⟨_, haccount, Account.process_le hopen phase⟩
  exact ⟨hmay, hmay.account, start, finish, isOver, phases.set place phase,
    hbooks.enter haccount hold hphase, (List.length_set ..).trans hlength,
    hnow start isOver phases (hbooks.phase_of_account haccount) hprogress⟩

/-! ### Calling handlers -/

/-- Handlers were called; if one of them failed, it may have been one that stops the engine. -/
def Reported (plan : Plan η) (own place : Nat) :
    Except Error Unit → Ledger Account → Scene η → Prop
  | .ok _, ledger, scene => At (charter plan) own (.process place .recorded) ledger scene
  | .error _, ledger, scene => ∃ phase, (phase = .recorded ∨ phase = .stopping) ∧
      At (charter plan) own (.process place phase) ledger scene

/-- A handler that stops the engine is called. -/
theorem triple_stopping (hearlier : plan.earlier.Before plan.number) {before after : Act η Unit}
    (hbefore : Within (Unobtrusive plan.free plan.counting plan.number) before)
    (hafter : Within (Unobtrusive plan.free plan.counting plan.number) after) :
    Triple (charter plan) own (At (charter plan) own (.process place .stopping))
      (do before; Act.onEngine Engine.stop; after) (Reported plan own place) := by
  have hidle := idle_aside hearlier
  refine (hbefore.triple hidle own _).bind (fun _ => ?_) fun _ _ _ hat => ⟨_, .inr rfl, hat⟩
  have hstop : Triple (charter plan) own (At (charter plan) own (.process place .stopping))
      (Act.onEngine Engine.stop)
      fun _ => At (charter plan) own (.process place .recorded) := by
    apply Triple.entered (.process place .recorded)
    refine Triple.modify.imp (fun ledger scene hat => ?_) fun _ _ _ h => h
    exact at_enter hat rfl nofun nofun fun start isOver phases hold hprogress => hprogress.stop hold
  refine hstop.bind (fun _ => ?_) fun _ _ _ hat => ⟨_, .inl rfl, hat⟩
  refine (hafter.triple hidle own _).imp (fun _ _ hat => hat) fun result _ _ hat => ?_
  cases result with
  | ok _ => exact hat
  | error e => exact ⟨_, .inl rfl, hat⟩

theorem triple_callEach (hearlier : plan.earlier.Before plan.number)
    (hcourteous : Courteous plan handling) (rule : Rule) (result : Bool)
    (subject : Subject) (handlers : List η) :
    Triple (charter plan) own (At (charter plan) own (.process place .recorded))
      (callEach handling rule result ⟨plan.number, place⟩ subject handlers)
      (Reported plan own place) := by
  induction handlers with
  | nil => exact .outcome fun _ _ hat => hat
  | cons handler rest ih =>
      refine .get_bind fun seen => ?_
      dsimp only
      generalize hcall : Call.mk handler ⟨plan.number, place⟩ subject _ rule.name result = call
      obtain rfl : call.handler = handler := by rw [← hcall]
      have hrun : call.stamp.run = plan.number := by rw [← hcall]
      have hplace : call.stamp.place = place := by rw [← hcall]
      have hhandling : Triple (charter plan) own
          (At (charter plan) own (.process place .recorded))
          (do Act.onRun fun run => { run with calls := run.calls ++ [call] }; handling call)
          (Reported plan own place) := by
        cases hstops : plan.stops call.handler with
        | false =>
            have hmore : Triple (charter plan) own
                (At (charter plan) own (.process place .recorded))
                (Act.onRun fun run => { run with calls := run.calls ++ [call] })
                fun _ => At (charter plan) own (.process place .recorded) := by
              refine Triple.modify.imp (fun ledger scene hat => ?_) fun _ _ _ h => h
              obtain ⟨haccount, start, finish, isOver, phases, hbooks, hlength, hprogress⟩ := hat
              exact ⟨haccount, start, finish, isOver, phases, hbooks, hlength, hprogress.call hstops⟩
            refine hmore.bind (fun _ => ?_) fun _ _ _ hat => ⟨_, .inl rfl, hat⟩
            have hquiet := hcourteous.quiet call hrun hstops
            refine (hquiet.triple (idle_aside hearlier) own _).imp
              (fun _ _ hat => hat) fun result _ _ hat => ?_
            cases result with
            | ok _ => exact hat
            | error e => exact ⟨_, .inl rfl, hat⟩
        | true =>
            have hmore : Triple (charter plan) own
                (At (charter plan) own (.process place .recorded))
                (Act.onRun fun run => { run with calls := run.calls ++ [call] })
                fun _ => At (charter plan) own (.process place .stopping) := by
              apply Triple.entered (.process place .stopping)
              refine Triple.modify.imp (fun ledger scene hat => ?_) fun _ _ _ h => h
              exact at_enter hat rfl nofun nofun fun start isOver phases hold hprogress =>
                hprogress.call_stopping hold hplace hstops
            refine hmore.bind (fun _ => ?_) fun _ _ _ hat => ⟨_, .inr rfl, hat⟩
            obtain ⟨before, after, heq, hbefore, hafter⟩ := hcourteous.stopping call hrun hstops
            rw [heq]
            exact triple_stopping hearlier hbefore hafter
      have hrest := hhandling.bind (fun _ => ih) fun _ _ _ hat => hat
      rw [bind_assoc] at hrest
      exact hrest.imp (fun _ _ hat => hat.2) fun _ _ _ h => h

theorem triple_emit (hearlier : plan.earlier.Before plan.number)
    (hcourteous : Courteous plan handling) (rule : Rule) (result : Bool)
    (event : Value) (subject : Subject) :
    Triple (charter plan) own (At (charter plan) own (.process place .recorded))
      (emit handling rule result ⟨plan.number, place⟩ event subject) (Reported plan own place) :=
  .get_bind fun _ => (triple_callEach hearlier hcourteous rule result subject _).imp
    (fun _ _ hat => hat.2) fun _ _ _ h => h

/-! ### Reporting and processing -/

theorem triple_evaluateRule (hearlier : plan.earlier.Before plan.number) (rule : Rule)
    (a : Account) :
    Triple (charter plan) own (At (charter plan) own a) (evaluateRule rule)
      (Rule.Evaluated (charter plan) own a rule) := by
  have hidle := idle_aside hearlier
  have hallows := (allowsLookups_unobtrusive (η := η) plan.free plan.counting
    plan.number).allowsEvaluation
  refine (Rule.triple_evaluate hidle hallows namedIn rule).attempt.bind
    (fun outcome => ?_) fun _ _ _ ⟨_, hwrong, _⟩ => nomatch hwrong
  cases outcome with
  | ok result =>
      refine .outcome ?_
      rintro ledger scene ⟨_, heq, hevaluated⟩
      cases heq
      exact hevaluated
  | error e =>
      have hcount := (allowsLookups_unobtrusive (η := η) plan.free plan.counting plan.number).within_count
        (by decide : Counter.errors ≠ .rules) e.className
      refine Triple.imp ((hcount.triple hidle own a).bind (fun _ => .outcome fun _ _ hat => hat)
        fun _ _ _ hat => hat) ?_ fun _ _ _ h => h
      rintro ledger scene ⟨_, heq, hevaluated⟩
      cases heq
      exact hevaluated

/-- The result of a rule is recorded right after the rule was evaluated. -/
theorem triple_record {rule : Rule} (hrule : plan.order[place]? = some rule) (result : RuleResult) :
    Triple (charter plan) own
      (Rule.Evaluated (charter plan) own (.process place .working) rule (.ok result))
      (record ⟨plan.number, place⟩ result (Journal.outcomeOf result.result))
      fun _ => At (charter plan) own (.process place .recorded) := by
  apply Triple.entered (.process place .recorded)
  refine Triple.modify.imp ?_ fun _ _ _ h => h
  rintro ledger _ ⟨hresult, scene, hat, rfl⟩
  refine at_enter hat rfl nofun nofun fun start isOver phases hold hprogress => ?_
  exact hprogress.record hold rfl rfl rfl rfl fun entries hentries =>
    ⟨_, hentries.record hold rfl hrule hresult (hprogress.mayPrecede hold rfl)
      (Rule.ruleCounts_counting result.result scene) rfl⟩

theorem triple_report (hearlier : plan.earlier.Before plan.number)
    (hcourteous : Courteous plan handling) {rule : Rule}
    (hrule : plan.order[place]? = some rule) (result : RuleResult) :
    Triple (charter plan) own
      (Rule.Evaluated (charter plan) own (.process place .working) rule (.ok result))
      (report handling rule ⟨plan.number, place⟩ result) (Reported plan own place) := by
  have hrecord : Triple (charter plan) own _ _ _ := triple_record hrule result
  unfold report
  cases hverdict : result.result with
  | true =>
      rw [hverdict] at hrecord
      refine hrecord.bind (fun _ => ?_) fun _ _ _ hat => ⟨_, .inl rfl, hat⟩
      exact (triple_emit hearlier hcourteous rule true Journal.success .event).bind
        (fun _ => triple_emit hearlier hcourteous rule true _ .payload) fun _ _ _ h => h
  | false =>
      rw [hverdict] at hrecord
      exact hrecord.bind (fun _ => triple_emit hearlier hcourteous rule false Journal.failure .event)
        fun _ _ _ hat => ⟨_, .inl rfl, hat⟩

/-- The rule of a strand comes to its end. -/
theorem mayEnd_process {result : Except Error Unit}
    (hat : At (charter plan) own (.process place old) ledger scene) (hopen : old.isOpen = true)
    (hold : old.isEvaluated = true)
    (hphase : (old = .recorded ∧ phase = .reported) ∨
      ((∃ e, result = .error e) ∧ phase = .failed old.isRecorded)) :
    MayEnd (charter plan) own result ledger scene := by
  have hnew : phase ≠ .waiting := by rcases hphase with ⟨_, rfl⟩ | ⟨_, rfl⟩ <;> nofun
  obtain ⟨hmay, hend⟩ := at_enter hat hopen (by rintro rfl; cases hold) hnew
    fun start isOver phases hplace hprogress => hprogress.close hplace
      (hphase.imp_right fun hfailed => ⟨hopen, hold, hfailed.2⟩)
  refine ⟨_, hmay, ?_, hend.holds⟩
  rcases hphase with ⟨_, rfl⟩ | ⟨⟨e, rfl⟩, rfl⟩
  · exact .inl (.inr rfl)
  · exact .inr ⟨rfl, e, rfl⟩

theorem mayEnd_of_reported {result : Except Error Unit}
    (h : Reported plan own place result ledger scene) :
    MayEnd (charter plan) own result ledger scene := by
  cases result with
  | ok _ => exact mayEnd_process h rfl rfl (.inl ⟨rfl, rfl⟩)
  | error e =>
      obtain ⟨phase, hphase, hat⟩ := h
      rcases hphase with rfl | rfl <;> exact mayEnd_process hat rfl rfl (.inr ⟨⟨e, rfl⟩, rfl⟩)

/-- A rule begins when its strand has its first turn. -/
theorem at_begin (h : Begins (charter plan) own (.process place .waiting) ledger scene)
    (hphase : (phase = .skipped ∧ scene.engine.status ≠ .running) ∨
      (phase = .working ∧ scene.engine.status = .running)) :
    ledger.MayEnter own (.process place phase) ∧
      At (charter plan) own (.process place phase)
        (ledger.enter own (.process place phase)) scene := by
  obtain ⟨before, rfl, hbegun, haccount, start, finish, isOver, phases, hbooks, hlength,
    hprogress⟩ := h
  have hmay : before.begin.MayEnter own (.process place phase) :=
    ⟨_, haccount, Account.process_le rfl phase⟩
  have hnew : phase ≠ .waiting := by rcases hphase with ⟨rfl, _⟩ | ⟨rfl, _⟩ <;> nofun
  have hfirst : ∀ other, other < place → phases[other]? ≠ some .waiting := by
    intro other hlt hwaiting
    obtain ⟨earlier, hearlier, hother⟩ := hbooks.exists_strand_lt haccount hlt hwaiting
    exact (hbooks.begun earlier other .waiting hother).1 (hbegun ▸ hearlier) rfl
  exact ⟨hmay, hmay.account, start, finish, isOver, phases.set place phase,
    hbooks.begin hbegun haccount hnew, (List.length_set ..).trans hlength,
    hprogress.begin (hbooks.phase_of_account haccount) hfirst hphase⟩

/-- A strand that processes a rule keeps to the charter. -/
theorem starts_process (hearlier : plan.earlier.Before plan.number)
    (hcourteous : Courteous plan handling) {rule : Rule} (hrule : plan.order[place]? = some rule)
    (number : Nat) :
    (charter plan).Starts
      ((charter plan).Honours (process handling rule ⟨plan.number, place⟩).strand number) number
      (.process place .waiting) := by
  refine Triple.starts (.get_bind fun seen => ?_)
  split
  · next hrunning =>
      have hworking : Triple (charter plan) number
          (At (charter plan) number (.process place .working))
          (do report handling rule ⟨plan.number, place⟩ (← evaluateRule rule))
          (MayEnd (charter plan) number) := by
        refine ((triple_evaluateRule hearlier rule _).bind
          (fun result => (triple_report hearlier hcourteous hrule result).imp (fun _ _ h => h)
            fun _ _ _ h => mayEnd_of_reported h) ?_)
        intro e ledger scene hat
        exact mayEnd_process hat rfl rfl (.inr ⟨⟨e, rfl⟩, rfl⟩)
      refine hworking.enter (.process place .working) ?_
      rintro ledger scene ⟨rfl, hbegins⟩
      exact at_begin hbegins (.inr ⟨rfl, hrunning⟩)
  · next hstopped =>
      refine .outcome ?_
      rintro ledger scene ⟨rfl, hbegins⟩
      obtain ⟨hmay, hat⟩ := at_begin hbegins (.inl ⟨rfl, hstopped⟩)
      exact ⟨_, hmay, .inl (.inl rfl), hat.holds⟩

end Rulebook.Engine
