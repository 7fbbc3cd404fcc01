import Rulebook.Config
import Rulebook.Journal
import Rulebook.Operator.Registry
import Rulebook.Rule.Basic
import Rulebook.Tally

/-!
An engine owns facts, operators, named conditions and rules, and the handlers of events.  Rules with
a lower priority number run first; rules of one priority form a group.  What a handler is, is left
open here.
-/

namespace Rulebook

/-- The life of an engine. -/
inductive Status where
  | ready
  | running
  | finished
  deriving DecidableEq, Repr

/-- The word for a status. -/
def Status.word : Status → String
  | .ready => "ready"
  | .running => "running"
  | .finished => "finished"

/-- An engine.  The rules in groups are kept until the rules change. -/
structure Engine (η : Type) where
  config : Config
  registry : Registry
  facts : Table Value Fact
  conditions : Table Value Condition
  rules : List Rule
  grouping : Option (List (List Rule))
  handlers : Table Value (List η)
  status : Status
  tally : Option Tally
  notes : List (String × Value)
  runs : Nat

namespace Engine

variable {η : Type}

/-- An engine without rules. -/
def create (config : Config) : Engine η where
  config := config
  registry := Registry.withDefaults
  facts := []
  conditions := []
  rules := []
  grouping := none
  handlers := []
  status := .ready
  tally := if config.flag "enable_metrics" then some Tally.empty else none
  notes := []
  runs := 0

/-- An engine without rules.  One that counts does so under its name, which must not be null. -/
def create? (config : Config) : Except Error (Engine η) :=
  match Table.find? config "engine_name" with
  | some .null =>
      if config.flag "enable_metrics" then .error (.misuse .value) else .ok (create config)
  | _ => .ok (create config)

/-! ### Rules -/

/-- Put a list of rules in place of the present one. -/
def withRules (engine : Engine η) (rules : List Rule) : Engine η :=
  { engine with rules, grouping := none }

/-- Add a rule after the others. -/
def addRule (engine : Engine η) (rule : Rule) : Engine η :=
  engine.withRules (engine.rules ++ [rule])

/-- Build a rule; its operators are looked up among those of the engine. -/
def buildRule (engine : Engine η) (definition : Value) : Except Error Rule × Engine η :=
  let (rule, registry) := Rule.construct (some engine.registry) definition
  (rule, { engine with registry := registry.getD engine.registry })

/-- Build a rule and add it. -/
def addRuleOf (engine : Engine η) (definition : Value) : Except Error Rule × Engine η :=
  match definition with
  | .null => (.error (.ruleDefinition .noRule), engine)
  | definition =>
      match engine.buildRule definition with
      | (.error e, engine) => (.error e, engine)
      | (.ok rule, engine) => (.ok rule, engine.addRule rule)

/-- Replace the first rule with the name of the given one; there is none for a rule without a
name. -/
def replaceFirst (rule : Rule) : List Rule → Option (List Rule)
  | [] => none
  | existing :: rest =>
      if existing.name.isSome && existing.name == rule.name then some (rule :: rest)
      else (replaceFirst rule rest).map (existing :: ·)

/-- Replace the rule that has the name of the given one; tells whether there was one. -/
def updateRule (engine : Engine η) (rule : Rule) : Bool × Engine η :=
  match replaceFirst rule engine.rules with
  | some rules => (true, engine.withRules rules)
  | none => (false, engine)

/-- Build a rule and replace the one with its name. -/
def updateRuleOf (engine : Engine η) (definition : Value) : Except Error Bool × Engine η :=
  match engine.buildRule definition with
  | (.error e, engine) => (.error e, engine)
  | (.ok rule, engine) =>
      let (updated, engine) := engine.updateRule rule
      (.ok updated, engine)

/-- Is this the name of the rule?  A rule without a name has null for one. -/
def isNamed (name : Value) (rule : Rule) : Bool := name == Value.ofText? rule.name

/-- Remove the rules with a name; tells whether there were any. -/
def removeRule (engine : Engine η) (name : Value) : Bool × Engine η :=
  let remaining := engine.rules.filter fun rule => !isNamed name rule
  if remaining.length = engine.rules.length then (false, engine)
  else (true, engine.withRules remaining)

/-- Remove the rule at a place; tells whether there was one. -/
def removeRuleAt (engine : Engine η) (place : Nat) : Bool × Engine η :=
  if place < engine.rules.length then (true, engine.withRules (engine.rules.eraseIdx place))
  else (false, engine)

/-- Remove the rules at some places, which is where one object stands that was added as a rule; tells
whether there were any. -/
def removeRulesAt (engine : Engine η) (places : List Nat) : Bool × Engine η :=
  let remaining := (engine.rules.zipIdx.filter fun entry => !places.contains entry.2).map Prod.fst
  if remaining.length = engine.rules.length then (false, engine)
  else (true, engine.withRules remaining)

/-- Rules in groups of one priority, the lowest number first; in a group they keep their order. -/
def groupsOf (rules : List Rule) : List (List Rule) :=
  batchesBy (fun rule => rule.priority.level) rules

/-- The rules of the engine in groups. -/
def prioritize (engine : Engine η) : List (List Rule) × Engine η :=
  match engine.grouping with
  | some groups => (groups, engine)
  | none =>
      let groups := groupsOf engine.rules
      (groups, { engine with grouping := some groups })

/-! ### Named conditions -/

/-- Define a condition that rules can refer to. -/
def setCondition (engine : Engine η) (name definition : Value) :
    Except Error Condition × Engine η :=
  if !name.truthy then (.error (.build .noConditionName none), engine)
  else
    match definition with
    | .null => (.error (.build (.noDefinition name.display) none), engine)
    | definition =>
        let (built, registry) := Condition.construct (some engine.registry) definition
        let engine := { engine with registry := registry.getD engine.registry }
        match built with
        | .error e => (.error e, engine)
        | .ok condition =>
            if name.hashable then
              (.ok condition,
                { engine with conditions := engine.conditions.insert name condition })
            else (.error .type, engine)

/-- Let rules refer to a condition that was built before. -/
def setConditionTo (engine : Engine η) (name : Value) (condition : Condition) :
    Except Error (Engine η) :=
  if !name.truthy then .error (.build .noConditionName none)
  else if name.hashable then
    .ok { engine with conditions := engine.conditions.insert name condition }
  else .error .type

/-- Remove the condition of a name; tells whether there was one. -/
def removeCondition (engine : Engine η) (name : Value) : Except Error (Bool × Engine η) :=
  if name.hashable then
    .ok (engine.conditions.has name,
      { engine with conditions := engine.conditions.erase name })
  else .error .type

/-! ### Facts -/

/-- Register a fact for later runs. -/
def addFact (engine : Engine η) (fact : Fact) : Except Error (Engine η) :=
  if fact.id.hashable then .ok { engine with facts := engine.facts.insert fact.id fact }
  else .error .type

/-- Remove a fact; tells whether there was one. -/
def removeFact (engine : Engine η) (id : Value) : Except Error (Bool × Engine η) :=
  if id.hashable then
    .ok (engine.facts.has id, { engine with facts := engine.facts.erase id })
  else .error .type

/-- The fact of an id. -/
def fact? (engine : Engine η) (id : Value) : Except Error (Option Fact) :=
  if id.hashable then .ok (engine.facts.find? id) else .error .type

/-! ### Operators and handlers -/

/-- Change the operators. -/
def withRegistry (engine : Engine η) (registry : Registry) : Engine η := { engine with registry }

/-- The handlers of an event, in the order in which they were subscribed. -/
def handlersOf (engine : Engine η) (event : Value) : List η :=
  (engine.handlers.find? event).getD []

/-- Subscribe a handler to `success`, to `failure`, or to a type of event. -/
def subscribe (engine : Engine η) (event : Value) (handler : η) : Except Error (Engine η) :=
  if event.hashable then
    .ok { engine with
      handlers := engine.handlers.insert event (engine.handlersOf event ++ [handler]) }
  else .error .type

/-- Let no further group of rules start. -/
def stop (engine : Engine η) : Engine η := { engine with status := .finished }

end Engine

end Rulebook
