import Rulebook.Error

/-!
Ready-made definitions of conditions and rules, with blanks to fill in.
-/

namespace Rulebook.Template

/-- A comparison definition. -/
def comparison (fact operator : String) (value : Int) : Value :=
  .object [("fact", .str fact), ("operator", .str operator), ("value", .int value)]

/-- The blanks of a comparison, in the order in which they are filled. -/
def comparisonBlanks : List String := ["fact", "value", "operator"]

/-- A comparison definition from arguments in order and arguments by name.  No blank is filled
twice, and the fact has to be.  Other names become members of their own. -/
def condition (arguments : List Value) (named : Members) : Except Error Value :=
  let inOrder := comparisonBlanks.zip arguments
  let filled := inOrder ++ named
  if arguments.length > comparisonBlanks.length then .error .type
  else if inOrder.any fun blank => Table.has named blank.1 then .error .type
  else
    match Table.find? filled "fact" with
    | none => .error .type
    | some fact =>
        let blanks : Members := [
          ("fact", fact),
          ("operator", (Table.find? filled "operator").getD (.str "equal")),
          ("value", (Table.find? filled "value").getD .null)]
        .ok (.object (blanks ++ named.filter fun member => !comparisonBlanks.contains member.1))

/-- The conditions of the ready-made rule. -/
def pointCap : Value :=
  .object [("all", .list [
    comparison "age" "lessThan" 45,
    comparison "pointBalance" "greaterThanInclusive" 1000])]

/-- The event of the ready-made rule. -/
def pointCapReached : Value :=
  .object [
    ("type", .str "pointCapReached"),
    ("params", .object [("currency", .str "points"), ("pointCap", .int 1000)])]

/-- What is given unless it counts as false. -/
def given (value : Option Value) (default : Value) : Value :=
  match value with
  | some value => if value.truthy then value else default
  | none => default

/-- The blanks of a rule. -/
def ruleBlanks : List String := ["name", "priority", "conditions", "event"]

/-- A rule definition from arguments by name; a rule without a name is called `unnamed`. -/
def rule (unnamed : String) (named : Members) : Except Error Value :=
  if named.any fun member => !ruleBlanks.contains member.1 then .error .type
  else
    .ok (.object [
      ("name", given (Table.find? named "name") (.str unnamed)),
      ("priority", (Table.find? named "priority").getD (.int 1)),
      ("conditions", given (Table.find? named "conditions") pointCap),
      ("event", given (Table.find? named "event") pointCapReached)])

/-- Five fouls end a game of 40 minutes, six one of 48. -/
def foulOut : Value :=
  .object [("any", .list [
    .object [("all", .list [
      comparison "duration" "equal" 40,
      comparison "fouls" "greaterThanInclusive" 5])],
    .object [("all", .list [
      comparison "duration" "equal" 48,
      .object [("not", comparison "fouls" "lessThan" 6)]])]])]

end Rulebook.Template
