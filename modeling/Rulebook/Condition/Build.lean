import Rulebook.Condition.Basic
import Rulebook.Operator.Registry
import Rulebook.Json.Reader

/-!
Building conditions from definitions.  A definition is an object; which of its members are present
tells its kind.  Every fault is reported with the place where it was found: `$` is the whole
definition, and `.all[0]`, `.any[0]`, `.not` and `.value` lead into it.

When a registry is given, the operators of comparisons are looked up in it while building, so that
an unknown name is found before anything is evaluated.  The registry remembers what it put together,
also when the definition is refused in the end.
-/

namespace Rulebook

/-- A step of building, with the registry that operators are checked against. -/
abbrev Build := ExceptT Error (StateM (Option Registry))

namespace Build

/-- Refuse a definition. -/
def refuse {α : Type} (cause : BuildCause) (place : String) : Build α :=
  throw (.build cause (some place))

/-- Refuse a definition unless something holds. -/
def require (holds : Bool) (cause : BuildCause) (place : String) : Build Unit :=
  if holds then pure () else refuse cause place

/-- Is the operator known?  Without a registry every operator is taken to be. -/
def isKnown (operator : String) : Build Bool := do
  match ← get with
  | none => return true
  | some registry =>
      let (found, registry) := registry.has operator
      set (some registry)
      return found

end Build

namespace Condition

open Build

/-- The members of which a definition may have one at most; each makes a kind of its own. -/
def kindKeys : List String := ["all", "any", "not", "condition"]

/-- The members that a comparison needs. -/
def comparisonKeys : List String := ["fact", "operator", "value"]

/-- The names among `keys` under which there are members. -/
def presentKeys (keys : List String) (members : Members) : List String :=
  keys.filter fun key => Table.has members key

/-- The name that a definition gives. -/
def readName (members : Members) (place : String) : Build (Option String) :=
  match Table.find? members "name" with
  | none => pure none
  | some .null => pure none
  | some (.str name) => pure (some name)
  | some _ => refuse .nameNotText place

/-- The priority that a definition gives. -/
def readPriority (members : Members) (place : String) : Build (Option Priority) :=
  match Table.find? members "priority" with
  | none => pure none
  | some value =>
      match Priority.ofValue value with
      | .ok priority => pure priority
      | .error cause => refuse (.priority cause) place

/-- The path that a definition gives; it must be one that can be read. -/
def readPath (path : Option Value) (place : String) : Build (Option String) :=
  match path with
  | none => pure none
  | some .null => pure none
  | some (.str text) =>
      match Path.parse text with
      | .ok _ => pure (some text)
      | .error .malformed => refuse (.badPath text) place
      | .error .oversized => throw (.misuse .value)
  | some _ => refuse .pathNotText place

/-- A text that is not empty. -/
def readText (value : Value) (cause : BuildCause) (place : String) : Build String :=
  match value with
  | .str text => if text.isEmpty then refuse cause place else pure text
  | _ => refuse cause place

/-- The parameters that a definition gives. -/
def readParams (members : Members) (place : String) : Build (Option Members) :=
  match Table.find? members "params" with
  | none => pure none
  | some .null => pure none
  | some (.object params) => pure (some params)
  | some _ => refuse .paramsNotObject place

/-- The value that a comparison compares with; a reference to a fact must name one, and its path
must be one that can be read. -/
def checkValue (value : Value) (place : String) : Build Unit :=
  match FactRequest.ofValue? value with
  | none => pure ()
  | some request => do
      require request.fact.truthy .emptyFactReference place
      let _ ← readPath (some request.path) (place ++ ".value")

/-- What a comparison compares. -/
def readLeaf (members : Members) (place : String) : Build Leaf := do
  match Table.find? members "fact", Table.find? members "operator", Table.find? members "value" with
  | some fact, some operator, some value =>
      let fact ← readText fact .emptyFact place
      let operator ← readText operator .emptyOperator place
      require (← isKnown operator) (.unknownOperator operator) place
      let params ← readParams members place
      let path ← readPath (Table.find? members "path") place
      checkValue value place
      return { fact, operator, value, params, path }
  | _, _, _ =>
      let missing := comparisonKeys.filter fun key => !Table.has members key
      refuse (.incomplete missing) place

/-- Is it the definition of a condition that is never true? -/
def isNever (members : Members) : Bool :=
  !Table.has members "fact" &&
    match Table.find? members "operator" with
    | some (.str operator) => operator == "never"
    | _ => false

/-- The shape of a definition: which of the members that make a kind of their own it has. -/
inductive Shape where
  | all (children : Value)
  | any (children : Value)
  | not (child : Value)
  | reference (target : Value)
  | leaf
  | mixed (keys : List String)

/-- The shape of a definition with these members. -/
def Shape.of (members : Members) : Shape :=
  match Table.find? members "all", Table.find? members "any", Table.find? members "not",
    Table.find? members "condition" with
  | none, none, none, none => .leaf
  | some children, none, none, none => .all children
  | none, some children, none, none => .any children
  | none, none, some child, none => .not child
  | none, none, none, some target => .reference target
  | _, _, _, _ => .mixed (presentKeys kindKeys members)

theorem sizeOf_find?_lt {members : List (String × Value)} {key : String} {value : Value}
    (h : Table.find? (κ := String) members key = some value) :
    sizeOf value < 1 + sizeOf members := by
  induction members with
  | nil => simp [Table.find?] at h
  | cons member rest ih =>
      obtain ⟨name, value'⟩ := member
      simp only [Table.find?] at h
      split at h
      · simp only [Option.some.injEq] at h
        subst h
        simp
        omega
      · have := ih h
        simp
        omega

theorem sizeOf_all_lt {members : Members} {children : Value}
    (h : Shape.of members = .all children) : sizeOf children < 1 + sizeOf members := by
  unfold Shape.of at h
  split at h <;> cases h
  exact sizeOf_find?_lt (by assumption)

theorem sizeOf_any_lt {members : Members} {children : Value}
    (h : Shape.of members = .any children) : sizeOf children < 1 + sizeOf members := by
  unfold Shape.of at h
  split at h <;> cases h
  exact sizeOf_find?_lt (by assumption)

theorem sizeOf_not_lt {members : Members} {child : Value}
    (h : Shape.of members = .not child) : sizeOf child < 1 + sizeOf members := by
  unfold Shape.of at h
  split at h <;> cases h
  exact sizeOf_find?_lt (by assumption)

theorem sizeOf_array?_lt {value : Value} {items : List Value} (h : value.array? = some items) :
    sizeOf items < sizeOf value := by
  cases value <;> simp_all [Value.array?]

mutual

/-- Build the condition of a definition that was found at `place`. -/
def build (definition : Value) (place : String) : Build Condition :=
  match definition with
  | .object members => do
      let name ← readName members place
      let priority ← readPriority members place
      let own := priority.getD Priority.first
      match _hShape : Shape.of members with
      | .all children =>
          match _hItems : children.array? with
          | some items => return .all (← buildEach items (place ++ ".all") 0) name own
          | none => refuse (.notList "all") place
      | .any children =>
          match _hItems : children.array? with
          | some items => return .any (← buildEach items (place ++ ".any") 0) name own
          | none => refuse (.notList "any") place
      | .not child => do
          require (!child.isArray) .listUnderNot place
          return .not (← build child (place ++ ".not")) name own
      | .reference target =>
          return .reference (← readText target .emptyReference place) name priority
      | .leaf =>
          if isNever members then return .never name
          else return .comparison (← readLeaf members place) name priority
      | .mixed keys => refuse (.severalKinds keys) place
  | other => refuse (.notObject other.typeName) place
termination_by sizeOf definition
decreasing_by
  · have := sizeOf_all_lt _hShape
    have := sizeOf_array?_lt _hItems
    simp
    omega
  · have := sizeOf_any_lt _hShape
    have := sizeOf_array?_lt _hItems
    simp
    omega
  · have := sizeOf_not_lt _hShape
    simp
    omega

/-- Build the conditions of a list, each at its place. -/
def buildEach (definitions : List Value) (place : String) (index : Nat) :
    Build (List Condition) :=
  match definitions with
  | [] => pure []
  | definition :: rest => do
      let condition ← build definition (place ++ "[" ++ toString index ++ "]")
      return condition :: (← buildEach rest place (index + 1))
termination_by sizeOf definitions

end

/-- A definition given as data, or as the JSON text of it. -/
def ofDefinition (definition : Value) : Build Condition :=
  match definition with
  | .str text =>
      match Json.read? text with
      | some definition => build definition "$"
      | none => throw (.build .notJson none)
  | definition => build definition "$"

/-- Build a condition; the operators are checked against the registry, if there is one. -/
def construct (registry : Option Registry) (definition : Value) :
    Except Error Condition × Option Registry :=
  (ofDefinition definition).run registry

end Condition

end Rulebook
