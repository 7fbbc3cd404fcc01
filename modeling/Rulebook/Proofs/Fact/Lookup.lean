import Rulebook.Condition.Evaluate
import Rulebook.Proofs.Session

/-!
What looking up facts keeps.

An invariant that is kept at the cache is kept by looking up facts and by comparing them
(`Tolerant.preserves_compare`).  That holds of every program, of computations that wait for each
other for ever, and in whichever order things happen.  In particular, nothing changes but the cache,
the operators that were put together, the counters and the notes (`LookupFree.tolerant`).
-/

namespace Rulebook

open Session Eval Strand

variable {σ : Type} {inv : Invariant σ Ending}

namespace Eval

variable {α β : Type}

/-- A step keeps the invariant, whatever comes out of it. -/
def Preserves (inv : Invariant σ Ending) (step : Eval σ α) : Prop :=
  Ensures inv ⊤ step fun _ => True

namespace Preserves

variable {step : Eval σ α}

theorem of_ensures {post : Except Error α → Prop} (h : Ensures inv ⊤ step post) :
    Preserves inv step :=
  h.imp fun _ _ => trivial

theorem outcome (result : Except Error α) : Preserves inv (Eval.outcome result) :=
  Ensures.outcome trivial

theorem bind {rest : α → Eval σ β} (h : Preserves inv step) (hrest : ∀ a, Preserves inv (rest a)) :
    Preserves inv (step >>= rest) :=
  Ensures.bind h (fun a _ => hrest a) fun _ _ => trivial

theorem attempt (h : Preserves inv step) : Preserves inv step.attempt :=
  of_ensures (Ensures.attempt h)

theorem get_bind {rest : σ → Eval σ α} (hrest : ∀ world, Preserves inv (rest world)) :
    Preserves inv (MonadState.get >>= rest) :=
  Ensures.get_bind (fun _ => True) (fun _ _ _ => trivial) fun world _ => hrest world

theorem both [Parceled α] [Parceled β] {other : Eval σ β} (h : Preserves inv step)
    (hother : Preserves inv other) : Preserves inv (Eval.both step other) :=
  of_ensures ((Ensures.both h hother).raise le_top)

end Preserves

end Eval

theorem preserves_join (job : Job) : Preserves inv (job.join : Eval σ Value) := by
  unfold Job.join
  split
  · exact .outcome _
  · exact Ensures.join _

variable [HasSession σ]

/-- The invariant is kept by what facts are looked up for, given that it is kept by what is done at
the cache. -/
structure Tolerant (inv : Invariant σ Ending) : Prop where
  aside : ∀ pledges world registry notes, inv pledges world →
    inv pledges (HasSession.withSession { HasSession.session world with registry, notes } world)
  tallyFree : TallyFree inv
  remember : ∀ (fact : Fact) (signature : String) (computation : Eval σ Value),
    Preserves inv computation → Preserves inv (fact.remember signature computation)

theorem preserves_current_bind {α : Type} {rest : Session → Eval σ α}
    (hrest : ∀ session, Preserves inv (rest session)) : Preserves inv (current >>= rest) :=
  ensures_current_bind (fun _ => True) (fun _ _ _ => trivial) fun session _ => hrest session

namespace Tolerant

theorem preserves_note (h : Tolerant inv) (label : String) (params : Value) :
    Preserves inv (note label params : Eval σ Nat) := by
  refine Preserves.bind (.of_ensures (ensures_update fun pledges world hinv =>
    h.aside pledges world _ _ hinv)) fun _ => ?_
  exact preserves_current_bind fun session => .outcome _

theorem preserves_operator (h : Tolerant inv) (name : String) :
    Preserves inv (Session.operator name : Eval σ Operator) := by
  apply preserves_current_bind
  intro session
  refine Preserves.bind (.of_ensures (ensures_update fun pledges world hinv =>
    h.aside pledges world _ _ hinv)) fun _ => ?_
  exact .outcome _

/-- A computation, given how its requests are answered. -/
theorem preserves_run (h : Tolerant inv) {ask : FactRequest → Eval σ Value}
    (hask : ∀ request, Preserves inv (ask request)) (program : Program) :
    Preserves inv (program.run ask) := by
  induction program with
  | done value => exact .outcome _
  | fail e => exact .outcome _
  | ask request next ih => exact (hask request).attempt.bind ih
  | note label params next ih => exact (h.preserves_note label params).bind ih
  | pause next ih => exact Preserves.bind (.of_ensures Ensures.pause) fun _ => ih

theorem preserves_answer (h : Tolerant inv) {ask : FactRequest → Eval σ Value}
    (hask : ∀ request, Preserves inv (ask request)) (request : FactRequest) :
    Preserves inv (request.answer ask) := by
  apply preserves_current_bind
  intro session
  dsimp only
  split
  · exact .outcome _
  · split
    · exact .outcome _
    · exact .outcome _
  · exact .outcome _
  · next fact program _ =>
      have hcompute : Preserves inv
          (fact.compute ask program (Fact.normalParams request.params)) :=
        (Preserves.of_ensures (ensures_count h.tallyFree rfl fact.label)).bind fun _ =>
          h.preserves_run hask _
      split
      · exact hcompute.bind fun value => .outcome _
      · exact (h.remember fact _ _ hcompute).bind fun value => .outcome _

theorem preserves_factValue (h : Tolerant inv) (depth : Nat) (request : FactRequest) :
    Preserves inv (factValue depth request : Eval σ Value) := by
  induction depth generalizing request with
  | zero => exact .outcome _
  | succ depth ih => exact h.preserves_answer ih request

theorem preserves_valueOf (h : Tolerant inv) (depth : Nat) (value : Value) :
    Preserves inv (valueOf depth value : Eval σ Value) := by
  unfold valueOf
  split
  · exact h.preserves_factValue depth _
  · exact .outcome _

/-- Comparing keeps whatever is kept at the cache. -/
theorem preserves_compare (h : Tolerant inv) (depth : Nat) (leaf : Leaf) :
    Preserves inv (leaf.compare depth : Eval σ (Bool × Sides)) := by
  apply (h.preserves_operator leaf.operator).bind
  intro operator
  refine Preserves.bind ((h.preserves_valueOf depth leaf.value).both
    (h.preserves_factValue depth leaf.request)) fun found => ?_
  exact (Preserves.outcome (operator.evaluate found.2 found.1)).bind fun verdict => .outcome _

end Tolerant

/-! ### What looking up does not touch -/

/-- What changes when facts are looked up is of no concern to the invariant. -/
def LookupFree (inv : Invariant σ Ending) : Prop :=
  ∀ pledges world cache registry tally notes, inv pledges world →
    inv pledges (HasSession.withSession
      ⟨{ (HasSession.session world).almanac with cache }, registry, tally, notes⟩ world)

namespace LookupFree

theorem preserves_update_cache (h : LookupFree inv) (change : Cache → Cache) :
    Preserves inv (update (onCache change) : Eval σ Unit) :=
  .of_ensures (ensures_update fun pledges world hinv => h pledges world _ _ _ _ hinv)

theorem preserves_count (h : LookupFree inv) (counter : Counter) (label : String) :
    Preserves inv (count counter label : Eval σ Unit) :=
  .of_ensures (ensures_update fun pledges world hinv => h pledges world _ _ _ _ hinv)

theorem preserves_completing (h : LookupFree inv) (job : Nat) {computation : Eval σ Value}
    (hcomputation : Preserves inv computation) :
    Preserves inv (Fact.completing job computation) :=
  hcomputation.attempt.bind fun result =>
    (h.preserves_update_cache fun cache => cache.complete job result).bind fun _ => .outcome result

theorem preserves_remember (h : LookupFree inv) (fact : Fact) (signature : String)
    {computation : Eval σ Value} (hcomputation : Preserves inv computation) :
    Preserves inv (fact.remember signature computation) := by
  apply preserves_current_bind
  intro session
  dsimp only
  split
  · next job _ => exact (h.preserves_count .cacheHits fact.label).bind fun _ => preserves_join job
  · apply (h.preserves_count .cacheMisses fact.label).bind
    intro _
    have hevict : ∀ (_ : Ending) pledges world, inv pledges world →
        inv pledges (Fact.evicting session.almanac.cache.nextJob world) :=
      fun _ pledges world hinv => h pledges world _ _ _ _ hinv
    refine Preserves.bind (.of_ensures
      ((h.preserves_completing _ hcomputation).spawn hevict)) fun strand => ?_
    exact (h.preserves_update_cache fun cache => cache.start signature strand).bind fun _ =>
      Ensures.join strand

theorem tolerant (h : LookupFree inv) : Tolerant inv where
  aside pledges world _ _ hinv := h pledges world _ _ _ _ hinv
  tallyFree pledges world _ _ _ hinv := h pledges world _ _ _ _ hinv
  remember fact signature _ hcomputation := h.preserves_remember fact signature hcomputation

end LookupFree

end Rulebook
