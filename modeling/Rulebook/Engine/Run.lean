import Rulebook.Engine.Basic
import Rulebook.Rule.Evaluate

/-!
Running the rules of an engine.

The groups are those of the moment the run starts, and run one after the other.  The rules of a
group are processed side by side, each in a strand of its own, and every one of them is let finish,
even when another one fails; then the first failure in the order of the rules ends the run.  Nothing
starts after the engine was stopped.

To process a rule is to evaluate and to report it.  To report a rule is to record its result and its
event, and then to call the handlers: those of `success` and those of the event's type if the rule
holds, those of `failure` if it does not.
-/

namespace Rulebook

/-- The run in which something happened, and the place of the rule in the order of that run. -/
structure Stamp where
  run : Nat
  place : Nat
  deriving DecidableEq, Repr

/-- Something with its stamp. -/
structure Stamped (α : Type) where
  stamp : Stamp
  item : α

/-- What runs record: events and the results of rules. -/
abbrev RunJournal := Journal (Stamped Members) (Stamped RuleResult)

/-- What a handler is called with first: the event, or only its payload. -/
inductive Subject where
  | event
  | payload
  deriving DecidableEq, Repr

/-- The argument that a subject makes of an event; an event without payload has null for one. -/
def Subject.argument (subject : Subject) (event : Members) : Value :=
  match subject with
  | .event => .object event
  | .payload => (Table.find? event "params").getD .null

/-- A call of a handler. -/
structure Call (η : Type) where
  handler : η
  stamp : Stamp
  subject : Subject
  argument : Value
  rule : Option String
  result : Bool

/-- A run in progress: its number, its almanac, what was recorded, and which handlers were
called. -/
structure Run (η : Type) where
  number : Nat
  almanac : Almanac
  journal : RunJournal
  calls : List (Call η)

/-- An engine with one of its runs. -/
structure Scene (η : Type) where
  engine : Engine η
  run : Run η

instance {η : Type} : HasSession (Scene η) where
  session scene := {
    almanac := scene.run.almanac
    registry := scene.engine.registry
    tally := scene.engine.tally
    notes := scene.engine.notes }
  withSession session scene := {
    engine := { scene.engine with
      registry := session.registry
      tally := session.tally
      notes := session.notes }
    run := { scene.run with almanac := session.almanac } }
  session_withSession _ _ := rfl
  withSession_session _ := rfl

/-- A step of a run. -/
abbrev Act (η : Type) := Eval (Scene η)

/-- What a handler does when it is called. -/
abbrev Handling (η : Type) := Call η → Act η Unit

namespace Run

variable {η : Type}

/-- Change the event of a stamp wherever it was recorded. -/
def changeEvent (run : Run η) (stamp : Stamp) (change : Members → Members) : Run η :=
  let changed (entry : Stamped Members) : Stamped Members :=
    if entry.stamp = stamp then { entry with item := change entry.item } else entry
  let changedIn (entry : Stamped RuleResult) : Stamped RuleResult :=
    if entry.stamp = stamp then
      { entry with item := { entry.item with event := change entry.item.event } }
    else entry
  { run with journal := {
      events := run.journal.events.map fun (outcome, events) => (outcome, events.map changed)
      results := run.journal.results.map changedIn } }

/-- The event of a stamp as it is now. -/
def event? (run : Run η) (stamp : Stamp) : Option Members :=
  (run.journal.results.find? fun entry => entry.stamp = stamp).map fun entry => entry.item.event

end Run

namespace Act

variable {η α : Type}

/-- Change the engine. -/
def onEngine (change : Engine η → Engine η) : Act η Unit :=
  modify fun scene => { scene with engine := change scene.engine }

/-- Change the engine by something that may fail and yields something. -/
def withEngine (change : Engine η → Except Error α × Engine η) : Act η α := do
  let (result, engine) := change (← get).engine
  onEngine fun _ => engine
  Eval.outcome result

/-- Change the run. -/
def onRun (change : Run η → Run η) : Act η Unit :=
  modify fun scene => { scene with run := change scene.run }

/-- Change the almanac of the run, which may be refused. -/
def onAlmanac (change : Almanac → Except Error Almanac) : Act η Unit := do
  let almanac ← Eval.outcome (change (← get).run.almanac)
  onRun fun run => { run with almanac }

end Act

namespace Engine

variable {η : Type}

/-- Call handlers one after the other, up to the first that fails. -/
def callEach (handling : Handling η) (rule : Rule) (result : Bool) (stamp : Stamp)
    (subject : Subject) : List η → Act η Unit
  | [] => pure ()
  | handler :: rest => do
      let event := ((← get).run.event? stamp).getD []
      let call : Call η := {
        handler, stamp, subject, result
        argument := subject.argument event
        rule := rule.name }
      Act.onRun fun run => { run with calls := run.calls ++ [call] }
      handling call
      callEach handling rule result stamp subject rest

/-- Call the handlers that an event has when it is emitted. -/
def emit (handling : Handling η) (rule : Rule) (result : Bool) (stamp : Stamp) (event : Value)
    (subject : Subject) : Act η Unit := do
  callEach handling rule result stamp subject ((← get).engine.handlersOf event)

/-- Record the result of a rule and its event. -/
def record (stamp : Stamp) (result : RuleResult) (outcome : Value) : Act η Unit :=
  Act.onRun fun run =>
    { run with
      journal := (run.journal.addResult ⟨stamp, result⟩).addEvent outcome ⟨stamp, result.event⟩ }

/-- Report a rule. -/
def report (handling : Handling η) (rule : Rule) (stamp : Stamp) (result : RuleResult) :
    Act η Unit := do
  if result.result then
    record stamp result Journal.success
    emit handling rule true stamp Journal.success .event
    emit handling rule true stamp (.str rule.event.type) .payload
  else
    record stamp result Journal.failure
    emit handling rule false stamp Journal.failure .event

/-- The conditions that rules can refer to by now. -/
def namedIn (scene : Scene η) : Table Value Condition := scene.engine.conditions

/-- Evaluate a rule; a failure is counted under its class. -/
def evaluateRule (rule : Rule) : Act η RuleResult := do
  match ← Eval.attempt (rule.evaluate namedIn) with
  | .ok result => return result
  | .error e =>
      Session.count .errors e.className
      throw e

/-- Evaluate a rule and report it, unless the engine was stopped before. -/
def process (handling : Handling η) (rule : Rule) (stamp : Stamp) : Act η Unit := do
  if (← get).engine.status = .running then
    let result ← evaluateRule rule
    report handling rule stamp result

/-- Run a group of rules side by side; it fails with the first failing rule. -/
def runGroup (handling : Handling η) (group : List (Rule × Stamp)) : Act η Unit := do
  let outcomes ← Eval.each (group.map fun (rule, stamp) => process handling rule stamp)
  let _ ← Eval.outcome (Schedule.allOk outcomes)

/-- Run groups one after the other, as long as the engine is not stopped. -/
def runGroups (handling : Handling η) : List (List (Rule × Stamp)) → Act η Unit
  | [] => pure ()
  | group :: rest => do
      if (← get).engine.status = .running then
        runGroup handling group
        runGroups handling rest

/-- The rules of a run in their groups, each with its place in the order of the run. -/
def stamped (number : Nat) (place : Nat) : List (List Rule) → List (List (Rule × Stamp))
  | [] => []
  | group :: rest =>
      (group.zipIdx place).map (fun (rule, place) => (rule, ⟨number, place⟩)) ::
        stamped number (place + group.length) rest

/-- The almanac of a run: a new one with the facts of the engine, or one that was used before, to
which those facts are added that it does not define. -/
def almanacFor (engine : Engine η) : Option Almanac → Almanac
  | none => { Almanac.empty with
      facts := engine.facts
      allowUndefinedFacts := engine.config.flag "allow_undefined_facts"
      allowUndefinedConditions := engine.config.flag "allow_undefined_conditions" }
  | some almanac => almanac.addMissing engine.facts

/-- How a run ended: what it recorded, the failure that ended it, and whether its rules had been
started by then. -/
structure RunEnd (η : Type) where
  run : Run η
  failure : Option Error
  started : Bool

/-- Run the rules against entries given for the occasion. -/
def run (handling : Handling η) (engine : Engine η) (entries : List RuntimeEntry)
    (reused : Option (Almanac × RunJournal)) : RunEnd η × Engine η :=
  let number := engine.runs
  let engine := { engine with runs := number + 1 }
  let (almanac, refused) := (engine.almanacFor (reused.map (·.1))).addEntries entries
  let journal := (reused.map (·.2)).getD Journal.empty
  let run : Run η := { number, almanac, journal, calls := [] }
  match refused with
  | some e => (⟨run, some e, false⟩, engine)
  | none =>
      let (groups, engine) := engine.prioritize
      let scene : Scene η := { engine := { engine with status := .running }, run }
      let (result, scene) := Eval.run scene (runGroups handling (stamped number 0 groups))
      let engine := scene.engine.stop
      match result with
      | .ok _ => (⟨scene.run, none, true⟩, engine)
      | .error e => (⟨scene.run, some e, true⟩, engine)

end Engine

end Rulebook
