import Mathlib.Logic.Relation
import Rulebook.Proofs.Engine.Chronicle
import Rulebook.Proofs.Engine.Progress

/-!
Which handlers answer for a rule.

A rule that was recorded has its result and its calls under one stamp.  Its outcome decides which
handlers are called, and with what (`owed`); but outcomes and types of events share one table of
handlers, so the handlers of an outcome are called for an event of that name as well (`stray`).
What happens for one rule leaves the results and the calls of every other rule alone.
-/

namespace Rulebook

open Stamped

variable {η : Type}

/-- The results that were recorded under a stamp. -/
def Run.resultsAt (run : Run η) (stamp : Stamp) : List (Stamped RuleResult) :=
  run.journal.results.filter fun entry => entry.stamp = stamp

/-- The calls for the rule of a stamp. -/
def Run.callsAt (run : Run η) (stamp : Stamp) : List (Call η) :=
  run.calls.filter fun call => call.stamp = stamp

theorem Run.event?_eq (run : Run η) (stamp : Stamp) :
    run.event? stamp = (run.resultsAt stamp).head?.map fun entry => entry.item.event := by
  rw [Run.event?, Run.resultsAt, List.head?_filter]

theorem Run.resultsAt_changeEvent (run : Run η) (stamp other : Stamp)
    (change : Members → Members) :
    (run.changeEvent stamp change).resultsAt other =
      (run.resultsAt other).map (changeResult stamp change) := by
  change (run.journal.results.map (changeResult stamp change)).filter _ = _
  rw [List.filter_map, Run.resultsAt]
  simp [Function.comp_def]

namespace Engine

/-! ### Who is to be called -/

/-- Is a type of events named like an outcome? -/
def namesOutcome (type : String) : Bool := type == "success" || type == "failure"

/-- The calls that a rule gives rise to: the handlers of its outcome are called with the event, and,
if it holds, after them those of its type of events with the payload. -/
def owed (engine : Engine η) (rule : Rule) : Bool → List (η × Subject)
  | true => (engine.handlersOf Journal.success).map (fun handler => (handler, .event)) ++
      if namesOutcome rule.event.type then []
      else (engine.handlersOf (.str rule.event.type)).map fun handler => (handler, .payload)
  | false => (engine.handlersOf Journal.failure).map fun handler => (handler, .event)

/-- The calls besides those when a rule holds whose type of events is named like an outcome. -/
def stray (engine : Engine η) (rule : Rule) : Bool → List (η × Subject)
  | true =>
      if namesOutcome rule.event.type then
        (engine.handlersOf (.str rule.event.type)).map fun handler => (handler, .payload)
      else []
  | false => []

theorem owed_append_stray (engine : Engine η) (rule : Rule) :
    engine.owed rule true ++ engine.stray rule true =
      (engine.handlersOf Journal.success).map (fun handler => (handler, .event)) ++
        (engine.handlersOf (.str rule.event.type)).map fun handler => (handler, .payload) := by
  by_cases h : namesOutcome rule.event.type = true
  · simp [owed, stray, h]
  · simp [owed, stray, h]

/-! ### What a rule leaves behind -/

/-- A call is for this rule and its verdict; what the handler is called with is made of the rule's
event as it is by then. -/
structure Answers (becomes : Members → Members → Prop) (rule : Rule) (verdict : Bool)
    (call : Call η) : Prop where
  argument : ∃ event, Relation.ReflTransGen becomes rule.event.members event ∧
    call.argument = call.subject.argument event
  name : call.rule = rule.name
  result : call.result = verdict

/-- A rule was recorded with a verdict, and these handlers were called for it since then. -/
structure Recorded (becomes : Members → Members → Prop) (rule : Rule) (verdict : Bool)
    (called : List (η × Subject)) (results : List (Stamped RuleResult)) (calls : List (Call η)) :
    Prop where
  verdicts : results.map (fun entry => entry.item.result) = [verdict]
  events : ∀ entry ∈ results, Relation.ReflTransGen becomes rule.event.members entry.item.event
  order : calls.map (fun call => (call.handler, call.subject)) = called
  answers : ∀ call ∈ calls, Answers becomes rule verdict call

namespace Recorded

variable {becomes : Members → Members → Prop} {rule : Rule} {verdict : Bool}
  {called : List (η × Subject)} {results : List (Stamped RuleResult)} {calls : List (Call η)}

theorem exists_result (h : Recorded becomes rule verdict called results calls) :
    ∃ entry, entry ∈ results := by
  refine List.exists_mem_of_ne_nil results ?_
  rintro rfl
  cases h.verdicts

/-- A rule is recorded; no handler has been called for it by then. -/
theorem single (becomes : Members → Members → Prop) {result : RuleResult} (stamp : Stamp)
    (hresult : result.event = rule.event.members) :
    Recorded becomes rule result.result ([] : List (η × Subject)) [⟨stamp, result⟩] [] where
  verdicts := rfl
  events entry hentry := by
    rw [List.mem_singleton.1 hentry, hresult]
  order := rfl
  answers := nofun

/-- An event is changed. -/
theorem changeEvent (h : Recorded becomes rule verdict called results calls) (stamp : Stamp)
    {change : Members → Members} (hchange : ∀ event, becomes event (change event)) :
    Recorded becomes rule verdict called (results.map (changeResult stamp change)) calls where
  verdicts := by
    rw [List.map_map, ← h.verdicts]
    exact List.map_congr_left fun entry _ => result_changeResult stamp change entry
  events entry hentry := by
    obtain ⟨old, hold, rfl⟩ := List.mem_map.1 hentry
    have hevent := h.events old hold
    unfold changeResult
    split
    · exact hevent.tail (hchange old.item.event)
    · exact hevent
  order := h.order
  answers := h.answers

/-- One more handler is called. -/
theorem call (h : Recorded becomes rule verdict called results calls) {call : Call η}
    (hanswers : Answers becomes rule verdict call) :
    Recorded becomes rule verdict (called ++ [(call.handler, call.subject)]) results
      (calls ++ [call]) where
  verdicts := h.verdicts
  events := h.events
  order := by
    rw [List.map_append, h.order]
    rfl
  answers := List.forall_mem_append.2 ⟨h.answers, List.forall_mem_singleton.2 hanswers⟩

/-- A handler is called with the event as it is. -/
theorem answers_of_event {run : Run η} {stamp : Stamp}
    (h : Recorded becomes rule verdict called (run.resultsAt stamp) calls) (handler : η)
    (subject : Subject) :
    Answers becomes rule verdict ⟨handler, stamp, subject,
      subject.argument ((run.event? stamp).getD []), rule.name, verdict⟩ := by
  refine ⟨⟨(run.event? stamp).getD [], ?_, rfl⟩, rfl, rfl⟩
  rw [Run.event?_eq]
  obtain ⟨entry, hentry⟩ := h.exists_result
  cases hresults : run.resultsAt stamp with
  | nil =>
      rw [hresults] at hentry
      cases hentry
  | cons first rest => exact h.events first (hresults ▸ List.mem_cons_self)

end Recorded

/-! ### Changes between the calls -/

/-- A change that leaves alone which results are recorded and which handlers were called, and who
is subscribed.  Events may be changed, if they become what is allowed. -/
structure Mild (becomes : Members → Members → Prop) (scene now : Scene η) : Prop where
  handlers : now.engine.handlers = scene.engine.handlers
  calls : now.run.calls = scene.run.calls
  journal : now.run.journal = scene.run.journal ∨ ∃ stamp change,
    (∀ event, becomes event (change event)) ∧
      now.run.journal = (scene.run.changeEvent stamp change).journal

variable {becomes : Members → Members → Prop} {scene now : Scene η}

theorem mild_session (becomes : Members → Members → Prop) (scene : Scene η) (session : Session) :
    Mild becomes scene (HasSession.withSession session scene) :=
  ⟨rfl, rfl, .inl rfl⟩

theorem allowsLookups_mild (becomes : Members → Members → Prop) :
    AllowsLookups (Mild (η := η) becomes) :=
  fun scene session _ => mild_session becomes scene session

theorem Mild.callsAt (h : Mild becomes scene now) (stamp : Stamp) :
    now.run.callsAt stamp = scene.run.callsAt stamp := by
  rw [Run.callsAt, Run.callsAt, h.calls]

theorem Mild.resultsAt_nil (h : Mild becomes scene now) {stamp : Stamp}
    (hnone : scene.run.resultsAt stamp = []) : now.run.resultsAt stamp = [] := by
  rcases h.journal with hjournal | ⟨other, change, _, hjournal⟩
  · rw [Run.resultsAt, hjournal]
    exact hnone
  · have hchanged := scene.run.resultsAt_changeEvent other stamp change
    rw [hnone, List.map_nil] at hchanged
    rw [Run.resultsAt, hjournal]
    exact hchanged

theorem Mild.recorded (h : Mild becomes scene now) {rule : Rule} {verdict : Bool}
    {called : List (η × Subject)} {stamp : Stamp}
    (hrecorded : Recorded becomes rule verdict called (scene.run.resultsAt stamp)
      (scene.run.callsAt stamp)) :
    Recorded becomes rule verdict called (now.run.resultsAt stamp) (now.run.callsAt stamp) := by
  rw [h.callsAt]
  rcases h.journal with hjournal | ⟨other, change, hchange, hjournal⟩
  · rw [Run.resultsAt, hjournal]
    exact hrecorded
  · rw [Run.resultsAt, hjournal]
    have hchanged := hrecorded.changeEvent other hchange
    rwa [← Run.resultsAt_changeEvent] at hchanged

/-! ### Calls and results under other stamps -/

theorem callsAt_withCall (scene : Scene η) (call : Call η) (stamp : Stamp) :
    (withCall scene call).run.callsAt stamp =
      scene.run.callsAt stamp ++ if call.stamp = stamp then [call] else [] := by
  change (scene.run.calls ++ [call]).filter _ = _
  rw [List.filter_append, List.filter_singleton, Run.callsAt]
  simp

/-- A scene in which one more rule was recorded. -/
def withResult (scene : Scene η) (stamp : Stamp) (result : RuleResult) (outcome : Value) :
    Scene η :=
  { scene with run := { scene.run with
    journal := (scene.run.journal.addResult ⟨stamp, result⟩).addEvent outcome
      ⟨stamp, result.event⟩ } }

theorem resultsAt_withResult (scene : Scene η) (stamp other : Stamp) (result : RuleResult)
    (outcome : Value) :
    (withResult scene stamp result outcome).run.resultsAt other =
      scene.run.resultsAt other ++ if stamp = other then [⟨stamp, result⟩] else [] := by
  change (scene.run.journal.results ++ [(⟨stamp, result⟩ : Stamped RuleResult)]).filter _ = _
  rw [List.filter_append, List.filter_singleton, Run.resultsAt]
  simp

end Engine

end Rulebook
