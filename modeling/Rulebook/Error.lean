import Rulebook.Value.Literal

/-!
What can go wrong, by cause.  The text, the code and the details of an error are computed from its
cause in one place, `Error.report`.
-/

namespace Rulebook

/-- Why a field of a record was refused. -/
inductive FieldCause where
  | belowOne
  | unreadableInt
  | fractionalInt
  | oversizedInt
  | notFinite
  | notInt
  | unreadableBool
  | notBool
  | notText
  | emptyText
  | notObject
  | notEvent
  | missing
  | rootShape
  deriving DecidableEq, Repr

/-- The kind of a field fault. -/
def FieldCause.kind : FieldCause → String
  | .belowOne => "greater_than_equal"
  | .unreadableInt => "int_parsing"
  | .fractionalInt => "int_from_float"
  | .oversizedInt => "int_parsing_size"
  | .notFinite => "finite_number"
  | .notInt => "int_type"
  | .unreadableBool => "bool_parsing"
  | .notBool => "bool_type"
  | .notText => "string_type"
  | .emptyText => "string_too_short"
  | .notObject => "dict_type"
  | .notEvent => "model_type"
  | .missing => "missing"
  | .rootShape => "value_error"

/-- The message of a field fault. -/
def FieldCause.message : FieldCause → String
  | .belowOne => "Input should be greater than or equal to 1"
  | .unreadableInt => "Input should be a valid integer, unable to parse string as an integer"
  | .fractionalInt => "Input should be a valid integer, got a number with a fractional part"
  | .oversizedInt => "Unable to parse input string as an integer, exceeded maximum size"
  | .notFinite => "Input should be a finite number"
  | .notInt => "Input should be a valid integer"
  | .unreadableBool => "Input should be a valid boolean, unable to interpret input"
  | .notBool => "Input should be a valid boolean"
  | .notText => "Input should be a valid string"
  | .emptyText => "String should have at least 1 character"
  | .notObject => "Input should be a valid dictionary"
  | .notEvent => "Input should be a valid dictionary or instance of RuleEvent"
  | .missing => "Field required"
  | .rootShape =>
      "Value error, conditions root must have exactly one of \"all\", \"any\", \"not\" or " ++
        "\"condition\""

/-- A fault in one field, which is named by the names on the way to it. -/
structure FieldFault where
  field : List String
  cause : FieldCause
  deriving DecidableEq, Repr

/-- A field fault as data. -/
def FieldFault.toValue (fault : FieldFault) : Value :=
  .object [
    ("type", .str fault.cause.kind),
    ("loc", .list (fault.field.map .str)),
    ("msg", .str fault.cause.message)]

/-- Operators and the decorators that wrap them are defined alike. -/
inductive Role where
  | operator
  | decorator
  deriving DecidableEq, Repr

/-- The word for a role. -/
def Role.word : Role → String
  | .operator => "operator"
  | .decorator => "decorator"

/-- Why an operator or decorator was refused. -/
inductive OperatorCause where
  | noName (role : Role)
  | noCallback (role : Role) (name : String)
  deriving DecidableEq, Repr

/-- Why a fact was refused. -/
inductive FactCause where
  | noId
  | badOptions (id : Value) (faults : List FieldFault)

/-- Why a priority was refused. -/
inductive PriorityCause where
  | notInteger (shown : String)
  | belowOne (n : Int)
  deriving DecidableEq, Repr

/-- Why a condition definition was refused. -/
inductive BuildCause where
  | notJson
  | notObject (typeName : String)
  | nameNotText
  | priority (cause : PriorityCause)
  | severalKinds (keys : List String)
  | notList (key : String)
  | listUnderNot
  | emptyReference
  | incomplete (missing : List String)
  | emptyFact
  | emptyOperator
  | unknownOperator (name : String)
  | paramsNotObject
  | pathNotText
  | badPath (path : String)
  | emptyFactReference
  | noConditionName
  | noDefinition (name : String)
  deriving DecidableEq, Repr

/-- A fault in a condition definition with the place where it was found. -/
structure BuildFault where
  cause : BuildCause
  place : Option String
  deriving DecidableEq, Repr

/-- Why a rule was refused. -/
inductive RuleCause where
  | notJson
  | notObject
  | badFields (faults : List FieldFault)
  | noRule
  deriving DecidableEq, Repr

/-- A fault in the use of a value, by kind. -/
inductive Misuse where
  | type
  | key
  | index
  | attribute
  | value
  | overflow
  deriving DecidableEq, Repr

/-- Everything that can go wrong. -/
inductive Error where
  | operatorDefinition (cause : OperatorCause)
  | factDefinition (cause : FactCause)
  | conditionBuild (fault : BuildFault)
  | ruleDefinition (cause : RuleCause)
  | invalid (faults : List FieldFault)
  | unknownOperator (name : String)
  | unknownDecorator (name : String) (decorator : Value)
  | undefinedFact (id : Value)
  | missingConditionMap (name : String)
  | undefinedCondition (name : String)
  /-- A computation, an operator or a handler failed with a message of its own. -/
  | raised (message : String)
  | badPath
  | misuse (kind : Misuse)
  /-- A computation waits for its own outcome. -/
  | stalled
  /-- References or computations nest deeper than the evaluation was allowed to follow. -/
  | exhausted

namespace Error

/-- The error of a misused value of the wrong type. -/
def type : Error := .misuse .type

/-- A condition fault at a place. -/
def build (cause : BuildCause) (place : Option String) : Error := .conditionBuild ⟨cause, place⟩

/-- The name of an error's class. -/
def className : Error → String
  | .operatorDefinition _ => "OperatorDefinitionError"
  | .factDefinition _ => "FactDefinitionError"
  | .conditionBuild _ => "ConditionBuildError"
  | .ruleDefinition _ => "RuleDefinitionError"
  | .invalid _ => "ValidationError"
  | .unknownOperator _ => "UnknownOperatorError"
  | .unknownDecorator _ _ => "UnknownDecoratorError"
  | .undefinedFact _ => "UndefinedFactError"
  | .missingConditionMap _ => "MissingConditionMapError"
  | .undefinedCondition _ => "UndefinedConditionError"
  | .raised _ => "RuntimeError"
  | .badPath => "JSONPathError"
  | .misuse .type => "TypeError"
  | .misuse .key => "KeyError"
  | .misuse .index => "IndexError"
  | .misuse .attribute => "AttributeError"
  | .misuse .value => "ValueError"
  | .misuse .overflow => "OverflowError"
  | .stalled => "TimeoutError"
  | .exhausted => "RecursionError"

end Error

/-- The message of a refused operator or decorator. -/
def OperatorCause.message : OperatorCause → String
  | .noName role => s!"Missing {role.word} name"
  | .noCallback role _ => s!"Missing {role.word} callback"

/-- The details of a refused operator or decorator. -/
def OperatorCause.details : OperatorCause → Members
  | .noName _ => []
  | .noCallback role name => [(role.word, .str name)]

/-- The message of a refused fact. -/
def FactCause.message : FactCause → String
  | .noId => "Missing fact id"
  | .badOptions id _ => "Invalid options for fact " ++ id.display

/-- The details of a refused fact. -/
def FactCause.details : FactCause → Members
  | .noId => []
  | .badOptions id faults => [("fact", id), ("errors", .list (faults.map FieldFault.toValue))]

/-- The message of a refused priority. -/
def PriorityCause.message : PriorityCause → String
  | .notInteger shown => "Priority must be an integer, got " ++ shown
  | .belowOne n => s!"Priority must be greater than zero, got {n}"

/-- The message of a refused condition. -/
def BuildFault.message (fault : BuildFault) : String :=
  let place := fault.place.getD ""
  match fault.cause with
  | .notJson => "Condition is not valid JSON"
  | .notObject typeName => s!"Condition at {place} must be an object, got {typeName}"
  | .nameNotText => s!"Condition name at {place} must be a string"
  | .priority cause => cause.message
  | .severalKinds keys => s!"Condition at {place} has more than one of " ++ ", ".intercalate keys
  | .notList key => "\"" ++ key ++ "\" at " ++ place ++ " must be a list"
  | .listUnderNot => "\"not\" at " ++ place ++ " must be a single condition, not a list"
  | .emptyReference => s!"Condition reference at {place} must be a non-empty string"
  | .incomplete missing =>
      s!"Condition at {place} must have all, any, not, condition or fact/operator/value; missing "
        ++ ", ".intercalate missing
  | .emptyFact => s!"Fact at {place} must be a non-empty string"
  | .emptyOperator => s!"Operator at {place} must be a non-empty string"
  | .unknownOperator name => s!"Unknown operator {name} at {place}"
  | .paramsNotObject => s!"Params at {place} must be an object"
  | .pathNotText => s!"Path at {place} must be a string"
  | .badPath path => "Invalid path " ++ Text.quoted path ++ s!" at {place}"
  | .emptyFactReference => s!"Fact reference in value at {place} is empty"
  | .noConditionName => "set_condition() requires a name"
  | .noDefinition name => s!"set_condition() requires conditions for {name}"

/-- The details of a refused condition: the place and what was wrong there. -/
def BuildFault.details (fault : BuildFault) : Members :=
  let place : Members := match fault.place with
    | some place => [("where", .str place)]
    | none => []
  place ++ match fault.cause with
    | .severalKinds keys => [("keys", .list (keys.map .str))]
    | .incomplete missing => [("missing", .list (missing.map .str))]
    | .unknownOperator name => [("operator", .str name)]
    | .badPath path => [("path", .str path)]
    | _ => []

/-- The message of a refused rule. -/
def RuleCause.message : RuleCause → String
  | .notJson => "Rule is not valid JSON"
  | .notObject => "Rule definition must be an object"
  | .badFields _ => "Invalid rule definition"
  | .noRule => "add_rule() requires a rule"

/-- The details of a refused rule. -/
def RuleCause.details : RuleCause → Members
  | .badFields faults => [("errors", .list (faults.map FieldFault.toValue))]
  | _ => []

/-- What is told about an error of the rule language: its code, its message and its details. -/
structure Report where
  code : String
  message : String
  details : Members

/-- The report of an error that is one of the rule language. -/
def Error.report? : Error → Option Report
  | .operatorDefinition cause => some ⟨"INVALID_OPERATOR", cause.message, cause.details⟩
  | .factDefinition cause => some ⟨"INVALID_FACT", cause.message, cause.details⟩
  | .conditionBuild fault => some ⟨"INVALID_CONDITION", fault.message, fault.details⟩
  | .ruleDefinition cause => some ⟨"INVALID_RULE", cause.message, cause.details⟩
  | .unknownOperator name =>
      some ⟨"UNKNOWN_OPERATOR", "Unknown operator: " ++ name, [("operator", .str name)]⟩
  | .unknownDecorator name decorator =>
      some ⟨"UNKNOWN_DECORATOR",
        "Unknown operator decorator: " ++ decorator.display ++ s!" (in {name})",
        [("operator", .str name), ("decorator", decorator)]⟩
  | .undefinedFact id =>
      some ⟨"UNDEFINED_FACT", "Undefined fact: " ++ id.display, [("fact", id)]⟩
  | .missingConditionMap name =>
      some ⟨"MISSING_CONDITION_MAP", "Condition map required to evaluate reference: " ++ name,
        [("condition", .str name)]⟩
  | .undefinedCondition name =>
      some ⟨"UNDEFINED_CONDITION", s!"No condition {name} exists", [("condition", .str name)]⟩
  | _ => none

end Rulebook
