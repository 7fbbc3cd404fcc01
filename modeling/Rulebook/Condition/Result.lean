import Rulebook.Condition.Basic

/-!
Results are trees of the shape of the condition that was evaluated.  They tell for each part of it
what came out, what was compared, and what was skipped because the outcome was decided before.
-/

namespace Rulebook

/-- What every result tells: the verdict, which is missing from skipped conditions only, the
priority and the name, and the name under which the condition was referred to. -/
structure ResultHead where
  verdict : Option Bool
  priority : Option Priority
  name : Option String
  reference : Option String
  deriving DecidableEq, Repr

/-- The two values that were compared. -/
structure Sides where
  fact : Value
  value : Value

/-- The result of a condition.  A result of kind `reference` is that of a reference that was not
followed. -/
inductive ConditionResult where
  | all (head : ResultHead) (children : List ConditionResult)
  | any (head : ResultHead) (children : List ConditionResult)
  | not (head : ResultHead) (child : ConditionResult)
  | never (head : ResultHead)
  | reference (head : ResultHead)
  | comparison (head : ResultHead) (leaf : Leaf) (sides : Option Sides)

namespace ConditionResult

/-- What every result tells. -/
def head : ConditionResult → ResultHead
  | .all head _ => head
  | .any head _ => head
  | .not head _ => head
  | .never head => head
  | .reference head => head
  | .comparison head _ _ => head

/-- The kind of the condition. -/
def kind : ConditionResult → Kind
  | .all _ _ => .all
  | .any _ _ => .any
  | .not _ _ => .not
  | .never _ => .never
  | .reference _ => .reference
  | .comparison _ _ _ => .comparison

/-- Was the condition evaluated to true? -/
def holds (result : ConditionResult) : Bool := result.head.verdict == some true

/-- Was the condition skipped? -/
def isSkipped (result : ConditionResult) : Bool := result.head.verdict.isNone

/-- Replace what every result tells. -/
def withHead (head : ResultHead) : ConditionResult → ConditionResult
  | .all _ children => .all head children
  | .any _ children => .any head children
  | .not _ child => .not head child
  | .never _ => .never head
  | .reference _ => .reference head
  | .comparison _ leaf sides => .comparison head leaf sides

/-- The name that a reference gives to the result of its target: its own, unless that is missing or
empty. -/
def referredName (own target : Option String) : Option String :=
  match own with
  | some name => if name.isEmpty then target else some name
  | none => target

/-- The result of a reference: that of its target, under the name of the reference. -/
def referred (target : String) (name : Option String) (result : ConditionResult) :
    ConditionResult :=
  result.withHead { result.head with
    reference := some target
    name := referredName name result.head.name }

/-- The members at the end of a result. -/
def tailMembers (head : ResultHead) : Members :=
  (match head.reference with
    | some target => [("condition", .str target)]
    | none => []) ++
  match head.verdict with
    | some verdict => [("result", .bool verdict)]
    | none => [("skipped", .bool true)]

/-- The members of a comparison's result. -/
def comparisonMembers (leaf : Leaf) (sides : Option Sides) : Members :=
  [("fact", .str leaf.fact), ("operator", .str leaf.operator), ("value", leaf.value)] ++
  (match leaf.params with
    | some (member :: members) => [("params", .object (member :: members))]
    | _ => []) ++
  (match leaf.path with
    | some path => if path.isEmpty then [] else [("path", .str path)]
    | none => []) ++
  match sides with
    | some sides => [("factResult", sides.fact), ("valueResult", sides.value)]
    | none => []

/-- A result from its head and the members of its kind. -/
def assemble (head : ResultHead) (members : Members) : Value :=
  .object (Condition.headMembers head.priority head.name ++ members ++ tailMembers head)

mutual

/-- A result as data. -/
def toValue : ConditionResult → Value
  | .all head children =>
      assemble head [("all", .list (toValues children)), ("operator", .str "all")]
  | .any head children =>
      assemble head [("any", .list (toValues children)), ("operator", .str "any")]
  | .not head child => assemble head [("not", child.toValue), ("operator", .str "not")]
  | .never head => assemble head [("operator", .str "never")]
  | .reference head => assemble head []
  | .comparison head leaf sides => assemble head (comparisonMembers leaf sides)

/-- Several results as data. -/
def toValues : List ConditionResult → List Value
  | [] => []
  | result :: rest => result.toValue :: toValues rest

end

end ConditionResult

namespace Condition

mutual

/-- The result of a condition that is not evaluated. -/
def skip : Condition → ConditionResult
  | .all children name priority => .all ⟨none, some priority, name, none⟩ (skips children)
  | .any children name priority => .any ⟨none, some priority, name, none⟩ (skips children)
  | .not child name priority => .not ⟨none, some priority, name, none⟩ child.skip
  | .never name => .never ⟨none, some Priority.first, name, none⟩
  | .reference target name priority => .reference ⟨none, priority, name, some target⟩
  | .comparison leaf name priority => .comparison ⟨none, priority, name, none⟩ leaf none

/-- The results of conditions that are not evaluated. -/
def skips : List Condition → List ConditionResult
  | [] => []
  | condition :: rest => condition.skip :: skips rest

end

end Condition

end Rulebook
