import Rulebook.Condition.Build
import Rulebook.Condition.Result
import Rulebook.Json.Writer

/-!
A rule is a condition with the event that is emitted when the condition holds.  Rules have
priorities, and may have names.
-/

namespace Rulebook

/-- The event of a rule: its type, which is not empty, and its payload. -/
structure RuleEvent where
  type : String
  params : Option Members

/-- The members of an event. -/
def RuleEvent.members (event : RuleEvent) : Members :=
  ("type", .str event.type) ::
  match event.params with
  | some params => [("params", .object params)]
  | none => []

/-- A rule definition whose fields were read, the condition aside. -/
structure RuleDefinition where
  name : Option String
  priority : Priority
  conditions : Members
  event : RuleEvent

/-- A rule. -/
structure Rule where
  name : Option String
  priority : Priority
  event : RuleEvent
  conditions : Condition

/-- The outcome of a rule.  The event is the rule's own, unless a handler changed it. -/
structure RuleResult where
  name : Option String
  priority : Priority
  event : Members
  conditions : ConditionResult
  result : Bool

namespace RuleDefinition

open Validation

/-- The conditions of a rule are an object with exactly one of the members that make a kind. -/
def readConditions (value : Value) : Except FieldCause Members := do
  let members ← object value
  if (Condition.presentKeys Condition.kindKeys members).length = 1 then .ok members
  else .error .rootShape

/-- A text that is not empty. -/
def readType (value : Value) : Except FieldCause String := do
  let type ← text value
  if type.isEmpty then .error .emptyText else .ok type

/-- Null or an object. -/
def readParams : Value → Except FieldCause (Option Members)
  | .null => .ok none
  | value => (object value).map some

/-- Put the faults of a record inside the field that holds it. -/
def inside {α : Type} (name : String) (read : Reading α) : Reading α :=
  read.mapError fun faults => faults.map fun fault => { fault with field := name :: fault.field }

/-- Read the event of a rule. -/
def readEvent (members : Members) : Reading RuleEvent :=
  match Table.find? members "event" with
  | none => .error [⟨["event"], .missing⟩]
  | some (.object event) =>
      inside "event"
        (both RuleEvent.mk (field event "type" readType none)
          (field event "params" readParams (some none)))
  | some _ => .error [⟨["event"], .notEvent⟩]

/-- Read the fields of a rule; every field that is at fault is told. -/
def read (members : Members) : Reading RuleDefinition :=
  both (fun (name, priority) (conditions, event) => ⟨name, priority, conditions, event⟩)
    (both Prod.mk (field members "name" optionalText (some none))
      (field members "priority" Validation.priority (some Priority.first)))
    (both Prod.mk (field members "conditions" readConditions none) (readEvent members))

/-- Read the fields of a rule that stands on its own. -/
def ofValue (value : Value) : Except Error RuleDefinition :=
  match value with
  | .object members => (read members).mapError Error.invalid
  | _ => .error .type

end RuleDefinition

namespace Rule

/-- The members of an object that is to be a rule, given as data or as JSON text. -/
def membersOf (definition : Value) : Except Error Members :=
  match definition with
  | .object members => .ok members
  | .str text =>
      match Json.read? text with
      | none => .error (.ruleDefinition .notJson)
      | some (.object members) => .ok members
      | some _ => .error (.ruleDefinition .notObject)
  | _ => .error (.ruleDefinition .notObject)

/-- Build the rule of a definition whose fields were read. -/
def ofFields (definition : RuleDefinition) : Build Rule := do
  let conditions ← Condition.build (.object definition.conditions) "$"
  return {
    name := definition.name
    priority := definition.priority
    event := definition.event
    conditions }

/-- Build a rule. -/
def build (definition : Value) : Build Rule := do
  match membersOf definition with
  | .error e => throw e
  | .ok members =>
      match RuleDefinition.read members with
      | .error faults => throw (.ruleDefinition (.badFields faults))
      | .ok definition => ofFields definition

/-- Build a rule; the operators are checked against the registry, if there is one. -/
def construct (registry : Option Registry) (definition : Value) :
    Except Error Rule × Option Registry :=
  (build definition).run registry

/-- The name of a rule as a member, if it has one. -/
def nameMembers (name : Option String) : Members :=
  match name with
  | some name => [("name", .str name)]
  | none => []

/-- The definition of a rule, from which an equal one can be built. -/
def toDefinition (rule : Rule) : Value :=
  .object ([
    ("conditions", rule.conditions.toDefinition),
    ("priority", rule.priority.toValue),
    ("event", .object rule.event.members)] ++ nameMembers rule.name)

/-- The literal form of a rule. -/
def literal (rule : Rule) : String :=
  s!"Rule(name={(Value.ofText? rule.name).literal}, priority={rule.priority.level})"

end Rule

/-- The outcome of a rule as data. -/
def RuleResult.toValue (result : RuleResult) : Value :=
  .object ([
    ("conditions", result.conditions.toValue),
    ("event", .object result.event),
    ("priority", result.priority.toValue),
    ("result", .bool result.result)] ++ Rule.nameMembers result.name)

end Rulebook
