import Rulebook.Proofs.Condition.Plain

/-!
What evaluation fails for.

An evaluation fails for a name that stands for nothing, or as a comparison does that it meets
(`Blames.cause`).  It may also fail because references are followed so deep only; but where
conditions lead each other in no circle, some depth is enough (`exists_fathomed`).
-/

namespace Rulebook.Condition

variable {reading : Reading} {condition next : Condition} {e : Error}

/-- What evaluating a condition may fail for: a name that stands for nothing where it has to stand
for something, or a comparison that is met. -/
inductive Cause (reading : Reading) (condition : Condition) (e : Error) : Prop where
  | missing {target : String} (strict : reading.lenient = false)
      (missing : e = .missingConditionMap target ∨ e = .undefinedCondition target)
  | comparison {leaf : Leaf} {name : Option String} {priority : Option Priority}
      (meets : Meets reading.named condition (.comparison leaf name priority))
      (failed : reading.compares leaf (.error e))

theorem Cause.of_leads (hleads : Leads reading.named condition next) (h : Cause reading next e) :
    Cause reading condition e := by
  cases h with
  | missing hstrict hmissing => exact .missing hstrict hmissing
  | comparison hmeets hfailed => exact .comparison (.head hleads hmeets) hfailed

/-- An evaluation fails for a cause, or references go too deep. -/
theorem Blames.cause {depth : Nat} (h : Blames reading depth condition e) :
    e = .exhausted ∨ Cause reading condition e := by
  induction h with
  | all name priority hmem _ ih => exact ih.imp_right (.of_leads (.all name priority hmem))
  | any name priority hmem _ ih => exact ih.imp_right (.of_leads (.any name priority hmem))
  | not name priority _ ih => exact ih.imp_right (.of_leads (.not _ name priority))
  | missing _ target _ _ hstrict _ => exact .inr (.missing hstrict (.inl rfl))
  | undefined _ _ _ hstrict _ => exact .inr (.missing hstrict (.inr rfl))
  | exhausted => exact .inl rfl
  | reference name priority hfound _ ih =>
      exact ih.imp_right (.of_leads (.reference name priority hfound))
  | comparison _ _ _ hfailed => exact .inr (.comparison .refl hfailed)

/-- At this depth and further, an evaluation fails for a cause only. -/
def Fathomed (reading : Reading) (condition : Condition) (depth : Nat) : Prop :=
  ∀ deeper, depth ≤ deeper → ∀ e, Blames reading deeper condition e → Cause reading condition e

/-- One reference further than all that a condition leads to is enough for itself. -/
theorem Fathomed.of_leads {depth : Nat}
    (h : ∀ next, Leads reading.named condition next → Fathomed reading next depth) :
    Fathomed reading condition (depth + 1) := by
  intro deeper hle e hblames
  have hnext : ∀ {next : Condition} {further : Nat}, Leads reading.named condition next →
      depth ≤ further → Blames reading further next e → Cause reading condition e :=
    fun hleads hfurther hblames => (h _ hleads _ hfurther e hblames).of_leads hleads
  cases hblames with
  | all name priority hmem hchild => exact hnext (.all name priority hmem) (by omega) hchild
  | any name priority hmem hchild => exact hnext (.any name priority hmem) (by omega) hchild
  | not name priority hchild => exact hnext (.not _ name priority) (by omega) hchild
  | missing _ target _ _ hstrict _ => exact .missing hstrict (.inl rfl)
  | undefined _ _ _ hstrict _ => exact .missing hstrict (.inr rfl)
  | exhausted => omega
  | reference name priority hfound htarget =>
      exact hnext (.reference name priority hfound) (by omega) htarget
  | comparison _ _ _ hfailed => exact .comparison .refl hfailed

end Rulebook.Condition
