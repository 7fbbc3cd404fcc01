import Rulebook.Condition.Evaluate

/-!
Evaluating rules.
-/

namespace Rulebook.Rule

variable {σ : Type} [HasSession σ]

/-- The word under which the outcome of a rule is counted. -/
def outcomeLabel (result : Bool) : String := if result then "success" else "failure"

/-- Evaluate a rule.  Evaluations that fail are not counted. -/
def evaluate (named : σ → Table Value Condition) (rule : Rule) : Eval σ RuleResult := do
  let conditions ← rule.conditions.evaluate named
  let result := conditions.holds
  Session.count .rules (outcomeLabel result)
  Session.update fun session => { session with tally := session.tally.map Tally.time }
  return {
    name := rule.name
    priority := rule.priority
    event := rule.event.members
    conditions
    result }

end Rulebook.Rule
