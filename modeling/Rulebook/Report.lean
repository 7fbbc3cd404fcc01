import Rulebook.Validation

/-!
Errors that are made by hand: an error of a class can be made from arguments of one's own, and is
then reported with the code, the message and the details that its class makes of them.
-/

namespace Rulebook

/-- The classes of errors that have a report. -/
inductive ErrorClass where
  | base
  | operatorDefinition
  | factDefinition
  | conditionBuild
  | ruleDefinition
  | unknownOperator
  | unknownDecorator
  | undefinedFact
  | missingConditionMap
  | undefinedCondition
  deriving DecidableEq, Repr

/-- The class of a name. -/
def ErrorClass.ofName? : String → Option ErrorClass
  | "RulesEngineException" => some .base
  | "OperatorDefinitionError" => some .operatorDefinition
  | "FactDefinitionError" => some .factDefinition
  | "ConditionBuildError" => some .conditionBuild
  | "RuleDefinitionError" => some .ruleDefinition
  | "UnknownOperatorError" => some .unknownOperator
  | "UnknownDecoratorError" => some .unknownDecorator
  | "UndefinedFactError" => some .undefinedFact
  | "MissingConditionMapError" => some .missingConditionMap
  | "UndefinedConditionError" => some .undefinedCondition
  | _ => none

/-- An error made by hand: what it tells, and what can be asked of it by name. -/
structure ManualError where
  code : Value
  message : Value
  details : Value
  attributes : Members
  isUnknownOperator : Bool

namespace ManualError

/-- A refused definition: a message and details, each with a default. -/
def definition (code message : String) (arguments : List Value) : Except Error ManualError :=
  let make (message details : Value) : ManualError :=
    ⟨.str code, message, if details.truthy then details else .empty, [], false⟩
  match arguments with
  | [] => .ok (make (.str message) .empty)
  | [message] => .ok (make message .empty)
  | [message, details] => .ok (make message details)
  | _ => .error .type

/-- An error about one thing that was not found. -/
def missing (code start finish : String) (detail asked : String) (arguments : List Value) :
    Except Error ManualError :=
  match arguments with
  | [name] => .ok {
      code := .str code
      message := .str (start ++ name.display ++ finish)
      details := .object [(detail, name)]
      attributes := [(asked, name)]
      isUnknownOperator := false }
  | _ => .error .type

/-- An unknown operator; a message that counts as false is none. -/
def unknown (name code message : Value) : ManualError where
  code := code
  message := if message.truthy then message else .str ("Unknown operator: " ++ name.display)
  details := .object [("operator", name)]
  attributes := [("operator", name)]
  isUnknownOperator := true

/-- An unknown decorator. -/
def decorator (name decorator : Value) : ManualError where
  code := .str "UNKNOWN_DECORATOR"
  message :=
    .str s!"Unknown operator decorator: {Value.display decorator} (in {Value.display name})"
  details := .object [("operator", name), ("decorator", decorator)]
  attributes := [("operator", name), ("decorator", decorator)]
  isUnknownOperator := true

/-- Make an error of a class from arguments. -/
def make (errorClass : ErrorClass) (arguments : List Value) : Except Error ManualError :=
  match errorClass with
  | .base =>
      match arguments with
      | [code, message] => .ok ⟨code, message, .empty, [], false⟩
      | [code, message, details] =>
          .ok ⟨code, message, if details.truthy then details else .empty, [], false⟩
      | _ => .error .type
  | .operatorDefinition =>
      definition "INVALID_OPERATOR" "Invalid operator definition" arguments
  | .factDefinition => definition "INVALID_FACT" "Invalid fact definition" arguments
  | .conditionBuild => definition "INVALID_CONDITION" "Invalid condition definition" arguments
  | .ruleDefinition => definition "INVALID_RULE" "Invalid rule definition" arguments
  | .unknownOperator =>
      match arguments with
      | [name] => .ok (unknown name (.str "UNKNOWN_OPERATOR") .null)
      | [name, code] => .ok (unknown name code .null)
      | [name, code, message] => .ok (unknown name code message)
      | _ => .error .type
  | .unknownDecorator =>
      match arguments with
      | [name, wrapper] => .ok (decorator name wrapper)
      | _ => .error .type
  | .undefinedFact =>
      missing "UNDEFINED_FACT" "Undefined fact: " "" "fact" "fact_id" arguments
  | .missingConditionMap =>
      missing "MISSING_CONDITION_MAP" "Condition map required to evaluate reference: " ""
        "condition" "condition" arguments
  | .undefinedCondition =>
      missing "UNDEFINED_CONDITION" "No condition " " exists" "condition" "condition" arguments

/-- The report of an error; it must have texts for code and message, and an object for details. -/
def report (manual : ManualError) : Except Error Report :=
  let fields : Members :=
    [("code", manual.code), ("message", manual.message), ("details", manual.details)]
  let read := Validation.both (fun code (message, details) => Report.mk code message details)
    (Validation.field fields "code" Validation.text none)
    (Validation.both Prod.mk (Validation.field fields "message" Validation.text none)
      (Validation.field fields "details" Validation.object none))
  read.mapError .invalid

/-- The text of an error is its message. -/
def text (manual : ManualError) : String := manual.message.display

end ManualError

end Rulebook
