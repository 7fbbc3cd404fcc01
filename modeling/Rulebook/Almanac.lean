import Rulebook.Fact.Basic
import Rulebook.Fact.Cache
import Rulebook.Path.Parser
import Rulebook.Path.Select

/-!
An almanac holds what is known while conditions are evaluated: fact definitions, values given for
the occasion, and the values computed so far.  A given value comes before any definition of its id.
-/

namespace Rulebook

/-- How a path is applied to a value (first). -/
abbrev PathResolver := Value → Value → Except Error Value

/-- The standard resolver reads the path and selects what it leads to. -/
def PathResolver.standard : PathResolver := fun value path =>
  match path with
  | .str text =>
      match Path.parse text with
      | .ok path => .ok (Path.select path value)
      | .error .malformed => .error .badPath
      | .error .oversized => .error (.misuse .value)
  | _ => .error .type

/-- What is known while conditions are evaluated. -/
structure Almanac where
  facts : Table Value Fact
  runtime : Table Value Value
  cache : Cache
  allowUndefinedFacts : Bool
  allowUndefinedConditions : Bool
  resolver : PathResolver

/-- What a fact id stands for: a value, a computation, or nothing. -/
inductive Almanac.Entry where
  | value (value : Value)
  | computed (fact : Fact) (program : Value → Program)
  | undefined

/-- An entry given for the occasion: a value, or a fact that stands under its own id. -/
inductive RuntimeEntry where
  | value (id : Value) (value : Value)
  | fact (fact : Fact)

namespace Almanac

/-- An almanac without facts. -/
def empty : Almanac where
  facts := []
  runtime := []
  cache := Cache.empty
  allowUndefinedFacts := false
  allowUndefinedConditions := false
  resolver := PathResolver.standard

/-- What an id stands for.  An id that cannot be a key cannot be looked up. -/
def lookup (almanac : Almanac) (id : Value) : Except Error Entry :=
  if !id.hashable then .error .type
  else
    match almanac.runtime.find? id with
    | some value => .ok (.value value)
    | none =>
        match almanac.facts.find? id with
        | none => .ok .undefined
        | some fact =>
            match fact.source with
            | .constant value => .ok (.value value)
            | .computed program => .ok (.computed fact program)

/-- Put a fact definition in place of one with the same id. -/
def addFact (almanac : Almanac) (fact : Fact) : Except Error Almanac :=
  if fact.id.hashable then .ok { almanac with facts := almanac.facts.insert fact.id fact }
  else .error .type

/-- Give a value for the occasion. -/
def addRuntimeFact (almanac : Almanac) (id value : Value) : Except Error Almanac :=
  if !id.truthy then .error (.factDefinition .noId)
  else if !id.hashable then .error .type
  else .ok { almanac with runtime := almanac.runtime.insert id value }

/-- Add an entry given for the occasion. -/
def addEntry (almanac : Almanac) : RuntimeEntry → Except Error Almanac
  | .value id value => almanac.addRuntimeFact id value
  | .fact fact => almanac.addFact fact

/-- Add entries given for the occasion, up to the first that is refused. -/
def addEntries (almanac : Almanac) : List RuntimeEntry → Almanac × Option Error
  | [] => (almanac, none)
  | entry :: rest =>
      match almanac.addEntry entry with
      | .ok almanac => almanac.addEntries rest
      | .error e => (almanac, some e)

/-- Add the facts of a table that have no definition yet. -/
def addMissing (almanac : Almanac) (facts : Table Value Fact) : Almanac :=
  { almanac with
    facts := facts.values.foldl (fun known fact => known.insertNew fact.id fact) almanac.facts }

/-- The priority of a fact's definition. -/
def factPriority? (almanac : Almanac) (id : Value) : Option Priority :=
  (almanac.facts.find? id).map fun fact => fact.options.priority

/-- Apply a path to the value of a fact.  A path that counts as false is none, and only objects and
lists are looked into. -/
def applyPath (almanac : Almanac) (value path : Value) : Except Error Value :=
  if path.truthy then
    match value with
    | .object _ | .list _ => almanac.resolver value path
    | _ => .ok value
  else .ok value

end Almanac

end Rulebook
