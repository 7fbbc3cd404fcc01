import Rulebook.Almanac

/-!
Conditions are trees.  `all`, `any` and `not` combine conditions, `never` is false, a reference
stands for a condition that is named elsewhere, and a comparison compares the value of a fact with
a value or with the value of another fact.

A combinator always has a priority; a reference and a comparison may have none, and a comparison
then has that of its fact.
-/

namespace Rulebook

/-- The kinds of conditions. -/
inductive Kind where
  | all
  | any
  | not
  | never
  | reference
  | comparison
  deriving DecidableEq, Repr

/-- The name of a kind. -/
def Kind.name : Kind → String
  | .all => "all"
  | .any => "any"
  | .not => "not"
  | .never => "never"
  | .reference => "reference"
  | .comparison => "comparison"

/-- What a comparison compares: a fact, with parameters and a path, by an operator with a value. -/
structure Leaf where
  fact : String
  operator : String
  value : Value
  params : Option Members
  path : Option String

/-- The request for the fact of a comparison. -/
def Leaf.request (leaf : Leaf) : FactRequest where
  fact := .str leaf.fact
  params := match leaf.params with
    | some members => .object members
    | none => .null
  path := Value.ofText? leaf.path

/-- A condition. -/
inductive Condition where
  | all (children : List Condition) (name : Option String) (priority : Priority)
  | any (children : List Condition) (name : Option String) (priority : Priority)
  | not (child : Condition) (name : Option String) (priority : Priority)
  | never (name : Option String)
  | reference (target : String) (name : Option String) (priority : Option Priority)
  | comparison (leaf : Leaf) (name : Option String) (priority : Option Priority)

namespace Condition

/-- The kind of a condition. -/
def kind : Condition → Kind
  | .all _ _ _ => .all
  | .any _ _ _ => .any
  | .not _ _ _ => .not
  | .never _ => .never
  | .reference _ _ _ => .reference
  | .comparison _ _ _ => .comparison

/-- The name of a condition. -/
def name : Condition → Option String
  | .all _ name _ => name
  | .any _ name _ => name
  | .not _ name _ => name
  | .never name => name
  | .reference _ name _ => name
  | .comparison _ name _ => name

/-- The priority that a condition has of its own. -/
def ownPriority : Condition → Option Priority
  | .all _ _ priority => some priority
  | .any _ _ priority => some priority
  | .not _ _ priority => some priority
  | .never _ => some Priority.first
  | .reference _ _ priority => priority
  | .comparison _ _ priority => priority

/-- The priority of a condition: its own, or that of the fact it compares. -/
def priority? (almanac : Almanac) : Condition → Option Priority
  | .comparison leaf _ none => almanac.factPriority? (.str leaf.fact)
  | condition => condition.ownPriority

/-- The priority by which a condition is scheduled among its siblings. -/
def effectivePriority (almanac : Almanac) (condition : Condition) : Nat :=
  match condition.priority? almanac with
  | some priority => priority.level
  | none => Priority.first.level

/-- The members with which every definition starts. -/
def headMembers (priority : Option Priority) (name : Option String) : Members :=
  (match priority with
    | some priority => [("priority", priority.toValue)]
    | none => []) ++
  match name with
    | some name => [("name", .str name)]
    | none => []

/-- The members of a comparison's definition. -/
def leafMembers (leaf : Leaf) : Members :=
  [("fact", .str leaf.fact), ("operator", .str leaf.operator), ("value", leaf.value)] ++
  (match leaf.params with
    | some members => [("params", .object members)]
    | none => []) ++
  match leaf.path with
    | some path => [("path", .str path)]
    | none => []

mutual

/-- The definition of a condition, from which an equal one can be built. -/
def toDefinition : Condition → Value
  | .all children name priority =>
      .object (headMembers (some priority) name ++ [("all", .list (toDefinitions children))])
  | .any children name priority =>
      .object (headMembers (some priority) name ++ [("any", .list (toDefinitions children))])
  | .not child name priority =>
      .object (headMembers (some priority) name ++ [("not", child.toDefinition)])
  | .never name =>
      .object (headMembers (some Priority.first) name ++ [("operator", .str "never")])
  | .reference target name priority =>
      .object (headMembers priority name ++ [("condition", .str target)])
  | .comparison leaf name priority =>
      .object (headMembers priority name ++ leafMembers leaf)

/-- The definitions of several conditions. -/
def toDefinitions : List Condition → List Value
  | [] => []
  | condition :: rest => condition.toDefinition :: toDefinitions rest

end

/-- The word with which the literal form of a condition starts. -/
def literalName : Condition → String
  | .all _ _ _ => "AllCondition"
  | .any _ _ _ => "AnyCondition"
  | .not _ _ _ => "NotCondition"
  | .never _ => "NeverCondition"
  | .reference _ _ _ => "ConditionReference"
  | .comparison _ _ _ => "ComparisonCondition"

/-- The literal form of a condition. -/
def literal (condition : Condition) : String :=
  s!"{condition.literalName}({condition.toDefinition.literal})"

end Condition

end Rulebook
