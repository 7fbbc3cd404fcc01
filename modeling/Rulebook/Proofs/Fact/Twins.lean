import Rulebook.Condition.Evaluate
import Rulebook.Proofs.Fact.Reckoning
import Rulebook.Proofs.Twins

/-!
What looking facts up does not depend on.

A relation of worlds is `Congruent` if the small steps of looking facts up are the same in related
worlds.  Then looking facts up is (`Congruent.twins_factValue`), and so is comparing them.

A relation is `Insulated` if what may be different in related worlds is no more than what looking facts
up has no use for: how often something was counted, what was noted, and which operators were put
together already.  Such a relation is congruent (`Insulated.congruent`).
-/

namespace Rulebook

open Session Eval

/-- A computation that does not depend on how many calls were noted before. -/
inductive Program.Pure : Program → Prop where
  | done (value : Value) : Pure (.done value)
  | fail (e : Error) : Pure (.fail e)
  | ask {request : FactRequest} {next : Except Error Value → Program}
      (goesOn : ∀ answer, Pure (next answer)) : Pure (.ask request next)
  | note {label : String} {params : Value} {next : Nat → Program}
      (same : ∀ n m, next n = next m) (goesOn : ∀ n, Pure (next n)) :
      Pure (.note label params next)
  | pause {next : Program} (goesOn : Pure next) : Pure (.pause next)

/-- A fact that is given, or whose computations do not depend on how many calls were noted. -/
def Fact.Pure (fact : Fact) : Prop :=
  ∀ program, fact.source = .computed program → ∀ params, (program params).Pure

/-- A value, or a fact that is pure. -/
def RuntimeEntry.Pure : RuntimeEntry → Prop
  | .value _ _ => True
  | .fact given => given.Pure

namespace Almanac

/-- Every fact of the almanac is pure. -/
def Pure (almanac : Almanac) : Prop := ∀ fact ∈ almanac.facts.values, fact.Pure

theorem Pure.addRuntimeFact {almanac later : Almanac} (h : almanac.Pure) {id value : Value}
    (hadded : almanac.addRuntimeFact id value = .ok later) : later.Pure := by
  rw [Almanac.addRuntimeFact] at hadded
  split at hadded
  · cases hadded
  · split at hadded
    · cases hadded
    · obtain rfl := Except.ok.inj hadded
      exact h

theorem Pure.addFact {almanac later : Almanac} (h : almanac.Pure) {fact : Fact} (hfact : fact.Pure)
    (hadded : almanac.addFact fact = .ok later) : later.Pure := by
  rw [Almanac.addFact] at hadded
  split at hadded
  · obtain rfl := Except.ok.inj hadded
    intro other hother
    rcases Table.mem_values_insert hother with rfl | hold
    · exact hfact
    · exact h other hold
  · cases hadded

theorem Pure.addEntry {almanac later : Almanac} (h : almanac.Pure) {entry : RuntimeEntry}
    (hentry : entry.Pure) (hadded : almanac.addEntry entry = .ok later) : later.Pure := by
  cases entry with
  | value id value => exact h.addRuntimeFact hadded
  | fact fact => exact h.addFact hentry hadded

theorem Pure.addEntries {almanac : Almanac} (h : almanac.Pure) {entries : List RuntimeEntry}
    (hentries : ∀ entry ∈ entries, entry.Pure) : (almanac.addEntries entries).1.Pure := by
  induction entries generalizing almanac with
  | nil => exact h
  | cons entry rest ih =>
      rw [List.forall_mem_cons] at hentries
      rw [Almanac.addEntries]
      split
      · next later hadded => exact ih (h.addEntry hentries.1 hadded) hentries.2
      · exact h

theorem Pure.addMissing {almanac : Almanac} (h : almanac.Pure) {facts : Table Value Fact}
    (hfacts : ∀ fact ∈ facts.values, fact.Pure) : (almanac.addMissing facts).Pure := by
  have hfold : ∀ known : Table Value Fact, (∀ fact ∈ known.values, fact.Pure) →
      ∀ fact ∈ (facts.values.foldl (fun known fact => known.insertNew fact.id fact) known).values,
        fact.Pure := by
    generalize facts.values = missing at hfacts
    induction missing with
    | nil => exact fun _ hknown => hknown
    | cons fact rest ih =>
        rw [List.forall_mem_cons] at hfacts
        refine fun known hknown => ih hfacts.2 _ fun other hother => ?_
        rcases Table.mem_values_insertNew hother with rfl | hold
        · exact hfacts.1
        · exact hknown other hold
  exact hfold almanac.facts h

end Almanac

variable {σ α : Type}

theorem twins_join {R : σ → σ → Prop} (job : Job) :
    Twins R (job.join : Eval σ Value) job.join := by
  unfold Job.join
  split
  · exact .outcome _
  · exact .join _

variable [HasSession σ]

/-- The small steps of looking facts up are the same in related worlds. -/
structure Congruent (R : σ → σ → Prop) : Prop where
  almanac : ∀ world world', R world world' →
    (HasSession.session world).almanac = (HasSession.session world').almanac
  count : ∀ (counter : Counter) (label : String),
    Twins R (count counter label : Eval σ Unit) (count counter label)
  operator : ∀ name : String,
    Twins R (Session.operator name : Eval σ Operator) (Session.operator name)
  program : ∀ world world', R world world' →
    ∀ fact ∈ (HasSession.session world).almanac.facts.values, ∀ program : Value → Program,
      fact.source = .computed program → ∀ (params : Value) (ask : FactRequest → Eval σ Value),
        (∀ request, Twins R (ask request) (ask request)) →
          Twins R ((program params).run ask) ((program params).run ask)
  cached : ∀ world world' change, R world world' →
    R (HasSession.withSession ((HasSession.session world).onCache change) world)
      (HasSession.withSession ((HasSession.session world').onCache change) world')
  timed : ∀ world world', R world world' →
    R (HasSession.withSession { HasSession.session world with
        tally := (HasSession.session world).tally.map Tally.time } world)
      (HasSession.withSession { HasSession.session world' with
        tally := (HasSession.session world').tally.map Tally.time } world')

/-- Sessions of related worlds have one almanac, the facts of which are pure, and registries of a
family in which names are answered in one way; and whatever else is in them may be anything. -/
structure Insulated (R : σ → σ → Prop) (family : Registry → Prop) : Prop where
  almanac : ∀ world world', R world world' →
    (HasSession.session world).almanac = (HasSession.session world').almanac
  pure : ∀ world world', R world world' → (HasSession.session world).almanac.Pure
  registry : ∀ world world', R world world' →
    family (HasSession.session world).registry ∧ family (HasSession.session world').registry
  get : ∀ registry, family registry → ∀ name, family (registry.get name).2
  answer : ∀ registry registry', family registry → family registry' →
    ∀ name, (registry.get name).1 = (registry'.get name).1
  consulted : ∀ world world' registry registry', R world world' → family registry →
    family registry' → R (HasSession.withSession { HasSession.session world with registry } world)
      (HasSession.withSession { HasSession.session world' with registry := registry' } world')
  aside : ∀ world world' tally tally' notes notes', R world world' →
    R (HasSession.withSession { HasSession.session world with tally, notes } world)
      (HasSession.withSession
        { HasSession.session world' with tally := tally', notes := notes' } world')
  cached : ∀ world world' change, R world world' →
    R (HasSession.withSession ((HasSession.session world).onCache change) world)
      (HasSession.withSession ((HasSession.session world').onCache change) world')

namespace Session

variable {R : σ → σ → Prop}

/-- Steps that look at the session first. -/
theorem twins_current_bind {rest rest' : Session → Eval σ α}
    (hrest : ∀ world world', R world world' →
      Twins R (rest (HasSession.session world)) (rest' (HasSession.session world'))) :
    Twins R (current >>= rest) (current >>= rest') :=
  fun _ _ hnext => .read fun world world' hworld => hrest world world' hworld _ _ hnext

end Session

namespace Insulated

variable {R : σ → σ → Prop} {family : Registry → Prop}

/-- What goes on after a note does not depend on how many there are. -/
theorem twins_note_bind (h : Insulated R family) (label : String) (params : Value)
    {rest rest' : Nat → Eval σ α} (hrest : ∀ n m, Twins R (rest n) (rest' m)) :
    Twins R (note label params >>= rest) (note label params >>= rest') :=
  fun next next' hnext => .read fun world world' hworld =>
    .write (h.aside world world' _ _ _ _ hworld) (.read fun _ _ _ => hrest _ _ next next' hnext)

theorem twins_operator (h : Insulated R family) (name : String) :
    Twins R (Session.operator name : Eval σ Operator) (Session.operator name) := by
  apply twins_current_bind
  intro world world' hworld
  obtain ⟨hregistry, hregistry'⟩ := h.registry world world' hworld
  have hanswer := h.answer _ _ hregistry hregistry' name
  refine Twins.bind (.modify fun seen seen' hseen => h.consulted seen seen' _ _ hseen
    (h.get _ hregistry name) (h.get _ hregistry' name)) fun _ => ?_
  change Twins R (Eval.outcome ((HasSession.session world).registry.get name).1)
    (Eval.outcome ((HasSession.session world').registry.get name).1)
  rw [hanswer]
  exact .outcome _

/-- A computation, given that its requests are the same. -/
theorem twins_run (h : Insulated R family) {ask : FactRequest → Eval σ Value}
    (hask : ∀ request, Twins R (ask request) (ask request)) {program : Program}
    (hpure : program.Pure) : Twins R (program.run ask) (program.run ask) := by
  induction hpure with
  | done value => exact .outcome _
  | fail e => exact .outcome _
  | ask _ ih => exact (hask _).attempt.bind ih
  | @note label params next hsame _ ih =>
      refine h.twins_note_bind label params fun n m => ?_
      rw [hsame n m]
      exact ih m
  | pause _ ih => exact Twins.pause.bind fun _ => ih

theorem congruent (h : Insulated R family) : Congruent R where
  almanac := h.almanac
  count _ _ := .modify fun world world' hworld => h.aside world world' _ _ _ _ hworld
  operator := h.twins_operator
  program world world' hworld fact hfact program hsource params _ hask :=
    h.twins_run hask (h.pure world world' hworld fact hfact program hsource params)
  cached := h.cached
  timed world world' hworld := h.aside world world' _ _ _ _ hworld

end Insulated

namespace Congruent

variable {R : σ → σ → Prop}

theorem twins_update_cache (h : Congruent R) (change : Cache → Cache) :
    Twins R (update (onCache change) : Eval σ Unit) (update (onCache change)) :=
  .modify fun world world' hworld => h.cached world world' change hworld

theorem twins_completing (h : Congruent R) (job : Nat) {computation : Eval σ Value}
    (hcomputation : Twins R computation computation) :
    Twins R (Fact.completing job computation) (Fact.completing job computation) :=
  hcomputation.attempt.bind fun _ => (h.twins_update_cache _).bind fun _ => .outcome _

theorem twins_remember (h : Congruent R) (fact : Fact) (signature : String)
    {computation : Eval σ Value} (hcomputation : Twins R computation computation) :
    Twins R (fact.remember signature computation) (fact.remember signature computation) := by
  apply twins_current_bind
  intro world world' hworld
  rw [h.almanac world world' hworld]
  dsimp only
  split
  · next job _ => exact (h.count .cacheHits fact.label).bind fun _ => twins_join job
  · refine (h.count .cacheMisses fact.label).bind fun _ => ?_
    refine Twins.bind (.spawn (h.twins_completing _ hcomputation) fun _ seen seen' hseen =>
      h.cached seen seen' _ hseen) fun strand => ?_
    exact (h.twins_update_cache _).bind fun _ => .join strand

theorem twins_answer (h : Congruent R) {ask : FactRequest → Eval σ Value}
    (hask : ∀ request, Twins R (ask request) (ask request)) (request : FactRequest) :
    Twins R (request.answer ask) (request.answer ask) := by
  apply twins_current_bind
  intro world world' hworld
  rw [h.almanac world world' hworld]
  dsimp only
  split
  · exact .outcome _
  · split
    · exact .outcome _
    · exact .outcome _
  · exact .outcome _
  · next fact program hlookup =>
      have hrun : Twins R ((program (Fact.normalParams request.params)).run ask)
          ((program (Fact.normalParams request.params)).run ask) := by
        obtain ⟨_, _, hfound, hsource⟩ := Reckoning.computes_iff.1 hlookup
        rw [← h.almanac world world' hworld] at hfound
        exact h.program world world' hworld fact (Table.mem_values_of_find? hfound) program hsource
          _ ask hask
      have hcompute : Twins R (fact.compute ask program (Fact.normalParams request.params))
          (fact.compute ask program (Fact.normalParams request.params)) :=
        (h.count .computations fact.label).bind fun _ => hrun
      split
      · exact hcompute.bind fun _ => .outcome _
      · exact (h.twins_remember fact _ hcompute).bind fun _ => .outcome _

theorem twins_factValue (h : Congruent R) (depth : Nat) (request : FactRequest) :
    Twins R (factValue depth request : Eval σ Value) (factValue depth request) := by
  induction depth generalizing request with
  | zero => exact .outcome _
  | succ depth ih => exact h.twins_answer ih request

theorem twins_valueOf (h : Congruent R) (depth : Nat) (value : Value) :
    Twins R (valueOf depth value : Eval σ Value) (valueOf depth value) := by
  unfold valueOf
  split
  · exact h.twins_factValue depth _
  · exact .outcome _

/-- Comparing is the same in related worlds. -/
theorem twins_compare (h : Congruent R) (depth : Nat) (leaf : Leaf) :
    Twins R (leaf.compare depth : Eval σ (Bool × Sides)) (leaf.compare depth) := by
  refine (h.operator leaf.operator).bind fun operator => ?_
  refine Twins.bind ((h.twins_valueOf depth leaf.value).both
    (h.twins_factValue depth leaf.request)) fun found => ?_
  exact (Twins.outcome (operator.evaluate found.2 found.1)).bind fun verdict => .outcome _

end Congruent

end Rulebook
