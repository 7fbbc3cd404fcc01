import Rulebook.Condition.Evaluate
import Rulebook.Proofs.Tally
import Rulebook.Proofs.Within

/-!
What looking up facts changes.

Looking up facts changes the session only, and of what is counted there only what is counted of facts
(`AllowsFacts.within_factValue`); so does comparing them (`AllowsFacts.within_compare`).  That holds of
every program, in whichever order things happen, and however deep requests go.
-/

namespace Rulebook

open Session Eval

/-- Is this counted when facts are looked up? -/
def Counter.ofFacts : Counter → Bool
  | .cacheHits | .cacheMisses | .computations => true
  | _ => false

variable {σ : Type} [HasSession σ]

/-- Every change of the session is allowed that leaves what is counted, and so is counting facts. -/
structure AllowsFacts (changes : σ → σ → Prop) : Prop where
  session : ∀ world session, session.tally = (HasSession.session world).tally →
    changes world (HasSession.withSession session world)
  counting : ∀ counter : Counter, counter.ofFacts = true → ∀ world label,
    changes world (HasSession.withSession { HasSession.session world with
      tally := (HasSession.session world).tally.map fun tally => tally.count counter label } world)

variable {changes : σ → σ → Prop}

theorem Session.within_current_bind {α : Type} {rest : Session → Eval σ α}
    (hrest : ∀ session, Within changes (rest session)) : Within changes (current >>= rest) :=
  Within.get_bind fun world => hrest (HasSession.session world)

namespace AllowsFacts

theorem within_update (h : AllowsFacts changes) {change : Session → Session}
    (hchange : ∀ session, (change session).tally = session.tally) : Within changes (update change) :=
  .modify fun world => h.session world _ (hchange _)

theorem within_count (h : AllowsFacts changes) {counter : Counter} (hcounter : counter.ofFacts = true)
    (label : String) : Within changes (count counter label) :=
  .modify fun world => h.counting counter hcounter world label

theorem within_note (h : AllowsFacts changes) (label : String) (params : Value) :
    Within changes (note label params : Eval σ Nat) :=
  .bind (h.within_update fun _ => rfl) fun _ => within_current_bind fun _ => .outcome _

theorem within_operator (h : AllowsFacts changes) (name : String) :
    Within changes (Session.operator name : Eval σ Operator) :=
  within_current_bind fun _ => .bind (h.within_update fun _ => rfl) fun _ => .outcome _

theorem within_run (h : AllowsFacts changes) {ask : FactRequest → Eval σ Value}
    (hask : ∀ request, Within changes (ask request)) (program : Program) :
    Within changes (program.run ask) := by
  induction program with
  | done value => exact .outcome _
  | fail e => exact .outcome _
  | ask request next ih => exact .bind (hask request).attempt ih
  | note label params next ih => exact .bind (h.within_note label params) ih
  | pause next ih => exact .bind .pause fun _ => ih

theorem within_completing (h : AllowsFacts changes) (job : Nat) {computation : Eval σ Value}
    (hcomputation : Within changes computation) :
    Within changes (Fact.completing job computation) :=
  .bind hcomputation.attempt fun _ => .bind (h.within_update fun _ => rfl) fun _ => .outcome _

theorem within_remember (h : AllowsFacts changes) (fact : Fact) (signature : String)
    {computation : Eval σ Value} (hcomputation : Within changes computation) :
    Within changes (fact.remember signature computation) := by
  apply within_current_bind
  intro session
  dsimp only
  split
  · next job _ =>
      refine .bind (h.within_count rfl fact.label) fun _ => ?_
      unfold Job.join
      split
      · exact .outcome _
      · exact .join _
  · refine .bind (h.within_count rfl fact.label) fun _ => ?_
    refine .bind (.spawn (h.within_completing _ hcomputation) fun _ world => ?_) fun strand => ?_
    · exact h.session world _ rfl
    · exact .bind (h.within_update fun _ => rfl) fun _ => .join strand

theorem within_answer (h : AllowsFacts changes) {ask : FactRequest → Eval σ Value}
    (hask : ∀ request, Within changes (ask request)) (request : FactRequest) :
    Within changes (request.answer ask) := by
  apply within_current_bind
  intro session
  dsimp only
  split
  · exact .outcome _
  · split
    · exact .outcome _
    · exact .outcome _
  · exact .outcome _
  · next fact program _ =>
      have hcompute : Within changes
          (fact.compute ask program (Fact.normalParams request.params)) :=
        .bind (h.within_count rfl fact.label) fun _ => h.within_run hask _
      split
      · exact .bind hcompute fun value => .outcome _
      · exact .bind (h.within_remember fact _ hcompute) fun value => .outcome _

theorem within_factValue (h : AllowsFacts changes) (depth : Nat) (request : FactRequest) :
    Within changes (factValue depth request : Eval σ Value) := by
  induction depth generalizing request with
  | zero => exact .outcome _
  | succ depth ih => exact h.within_answer ih request

theorem within_valueOf (h : AllowsFacts changes) (depth : Nat) (value : Value) :
    Within changes (valueOf depth value : Eval σ Value) := by
  unfold valueOf
  split
  · exact h.within_factValue depth _
  · exact .outcome _

theorem within_compare (h : AllowsFacts changes) (depth : Nat) (leaf : Leaf) :
    Within changes (leaf.compare depth : Eval σ (Bool × Sides)) := by
  refine .bind (h.within_operator leaf.operator) fun operator => ?_
  refine .bind (.both (h.within_valueOf depth leaf.value)
    (h.within_factValue depth leaf.request)) fun found => ?_
  exact .bind (.outcome (operator.evaluate found.2 found.1)) fun verdict => .outcome _

end AllowsFacts

end Rulebook
