import Rulebook.Engine.Run

/-!
A catalogue of handlers.  A handler has a tag, by which its calls are told apart, and does one thing
when it is called.
-/

namespace Rulebook.Catalogue

/-- What a handler does. -/
inductive Deed where
  | nothing
  | stop
  | addRuntimeFact (id value : Value)
  /-- Define a fact for the rest of the run. -/
  | addFact (fact : Except Error Fact)
  | fail (message : String)
  | addRule (definition : Value)
  | updateRule (definition : Value)
  | removeRule (name : Value)
  | setCondition (name definition : Value)
  /-- Leave a mark in what the handler was called with. -/
  | mark

/-- A handler; one that yields lets others go first before it does anything. -/
structure Handler where
  tag : Value
  deed : Deed
  yields : Bool

/-- The mark of a handler in an object. -/
def marked (members : Members) : Members := Table.insert members "touched" (.bool true)

/-- The payload of an event with a mark. -/
def markedPayload (event : Members) : Members :=
  match Table.find? event "params" with
  | some (.object params) => Table.insert event "params" (.object (marked params))
  | _ => event

/-- Leave a mark in what a handler was called with; null takes none. -/
def leaveMark (call : Call Handler) : Act Handler Unit :=
  match call.argument, call.subject with
  | .null, _ => throw .type
  | _, .event => Act.onRun fun run => run.changeEvent call.stamp marked
  | _, .payload => Act.onRun fun run => run.changeEvent call.stamp markedPayload

/-- Do a deed. -/
def Deed.perform (call : Call Handler) : Deed → Act Handler Unit
  | .nothing => pure ()
  | .stop => Act.onEngine Engine.stop
  | .addRuntimeFact id value => Act.onAlmanac fun almanac => almanac.addRuntimeFact id value
  | .addFact fact => Act.onAlmanac fun almanac => fact.bind almanac.addFact
  | .fail message => throw (.raised message)
  | .addRule definition => do
      let _ ← Act.withEngine fun engine => engine.addRuleOf definition
  | .updateRule definition => do
      let _ ← Act.withEngine fun engine => engine.updateRuleOf definition
  | .removeRule name => Act.onEngine fun engine => (engine.removeRule name).2
  | .setCondition name definition => do
      let _ ← Act.withEngine fun engine => engine.setCondition name definition
  | .mark => leaveMark call

/-- Do what a handler does. -/
def handle : Handling Handler := fun call => do
  if call.handler.yields then Eval.pause
  call.handler.deed.perform call

end Rulebook.Catalogue
