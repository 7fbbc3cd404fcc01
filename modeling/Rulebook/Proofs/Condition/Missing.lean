import Rulebook.Proofs.Condition.Constant
import Rulebook.Proofs.Condition.Failure

/-!
Missing data.

Where everything may be undefined that a condition refers to, and its operators are made of built-in
ones, evaluating it returns a result tree unless some comparison is given values that do not suit
its operator (`exists_yields_indulgent`).  What is missing suits every operator but those that go
through the items of the condition value: `someValue` and `everyValue` fail on it
(`not_returnsTree`).
-/

namespace Rulebook

open Session Eval Strand Registry

/-! ### Comparisons of constant facts -/

/-- What a comparison of facts that are not computed may fail for. -/
inductive Session.ConstantFailure (session : Session) (leaf : Leaf) (e : Error) : Prop where
  | operator (failed : session.registry.resolve leaf.operator = .error e)
  | value (failed : session.almanac.constantValue leaf.value = .error e)
  | fact (failed : session.almanac.constantAnswer leaf.request = .error e)
  | comparison {found : Resolution} {fact value : Value}
      (resolved : session.registry.resolve leaf.operator = .ok found)
      (facts : session.almanac.constantAnswer leaf.request = .ok fact)
      (values : session.almanac.constantValue leaf.value = .ok value)
      (failed : found.operator.evaluate fact value = .error e)

variable {σ : Type} [HasSession σ] {session : Session}

/-- A comparison fails for what it is made of. -/
theorem Session.Compares.failure {leaf : Leaf} {e : Error}
    (h : session.Compares leaf (.error e)) : session.ConstantFailure leaf e := by
  generalize hresult : (.error e : Except Error (Bool × Sides)) = result at h
  cases h with
  | operator hfailed =>
      obtain rfl := Except.error.inj hresult
      exact .operator hfailed
  | value hfailed =>
      obtain rfl := Except.error.inj hresult
      exact .value hfailed
  | fact hfailed =>
      obtain rfl := Except.error.inj hresult
      exact .fact hfailed
  | @comparison found fact value hresolved hfacts hvalues =>
      cases hevaluate : found.operator.evaluate fact value with
      | error cause =>
          rw [hevaluate] at hresult
          obtain rfl := Except.error.inj hresult
          exact .comparison hresolved hfacts hvalues hevaluate
      | ok verdict =>
          rw [hevaluate] at hresult
          cases hresult

/-- The values of a comparison suit its operator, and what it compares with can be looked up. -/
structure Session.Suits (session : Session) (leaf : Leaf) : Prop where
  hashable : ∀ request, FactRequest.ofValue? leaf.value = some request →
    request.fact.hashable = true
  values : ∀ found fact value, session.registry.resolve leaf.operator = .ok found →
    session.almanac.constantAnswer leaf.request = .ok fact →
      session.almanac.constantValue leaf.value = .ok value →
        Registry.Suits found.base.operator found.decorators fact value

namespace Condition

/-- Whatever a condition refers to may be undefined, its operators are made of built-in ones, no
fact is computed, and references lead in no circle. -/
structure Indulgent (session : Session) (named : Table Value Condition) (condition : Condition) :
    Prop where
  defaults : Consulted (some withDefaults) (some session.registry)
  built : BuiltWith session.registry condition
  names : ∀ other ∈ named.values, BuiltWith session.registry other
  constant : session.almanac.Constant
  facts : session.almanac.allowUndefinedFacts = true
  conditions : session.almanac.allowUndefinedConditions = true
  resolver : ∀ text, Path.isPath text = true → ∀ value,
    ∃ found, session.almanac.resolver value (.str text) = .ok found
  acyclic : ∀ met, Meets named condition met → ¬ Relation.TransGen (Leads named) met met

section Indulgent

variable {session : Session} {named : Table Value Condition} {condition : Condition}

theorem Indulgent.alike (h : Indulgent session named condition) : session.Alike session := by
  obtain ⟨later, hlater, _, _, hremembers⟩ :=
    h.defaults.remembers rfl (remembers_withDefaults fun _ _ => False)
  cases hlater
  exact ⟨rfl, rfl, rfl, hremembers⟩

/-- An operator that passed when it was checked is made of built-in ones. -/
theorem Indulgent.resolves (h : Indulgent session named condition) {name : String}
    (hpasses : Passes (some session.registry) name) : ∃ found,
      session.registry.resolve name = .ok found ∧ Resolves withDefaults (segments name) found := by
  obtain ⟨later, hlater, hoperators, hdecorators, hremembers⟩ :=
    h.defaults.remembers rfl (remembers_withDefaults fun _ _ => False)
  cases hlater
  obtain ⟨operator, hget⟩ := (hpasses _ rfl).get
  rw [hremembers.get_eq] at hget
  cases hresolve : session.registry.resolve name with
  | error e =>
      rw [hresolve] at hget
      cases hget
  | ok found =>
      refine ⟨found, rfl, (resolveSegments_eq_ok_iff name).1 ?_⟩
      exact (resolve_congr hoperators hdecorators name).symm.trans hresolve

theorem Indulgent.applyPath (h : Indulgent session named condition) (value : Value)
    {path : Option String} (hreadable : Readable path) :
    ∃ found, session.almanac.applyPath value (Value.ofText? path) = .ok found := by
  cases path with
  | none => exact ⟨value, rfl⟩
  | some text =>
      unfold Almanac.applyPath
      split
      · split
        · exact h.resolver text (hreadable text rfl) _
        · exact h.resolver text (hreadable text rfl) _
        · exact ⟨_, rfl⟩
      · exact ⟨_, rfl⟩

/-- A request with a path that can be read is answered, unless its fact cannot be looked up. -/
theorem Indulgent.answer (h : Indulgent session named condition) {request : FactRequest}
    {path : Option String} (hpath : request.path = Value.ofText? path) (hreadable : Readable path)
    {e : Error} (hfailed : session.almanac.constantAnswer request = .error e) :
    request.fact.hashable = false ∧ e = .type := by
  unfold Almanac.constantAnswer at hfailed
  cases hlookup : session.almanac.lookup request.fact with
  | error cause =>
      rw [hlookup] at hfailed
      obtain rfl := Except.error.inj hfailed
      exact Almanac.lookup_error hlookup
  | ok entry =>
      rw [hlookup] at hfailed
      cases entry with
      | undefined =>
          dsimp only at hfailed
          rw [h.facts] at hfailed
          cases hfailed
      | computed fact program => exact absurd hlookup (h.constant _ _ _)
      | value value =>
          obtain ⟨found, hfound⟩ := h.applyPath value hreadable
          rw [← hpath] at hfound
          cases hfound.symm.trans hfailed

/-- A comparison that has passed the checks fails only where the values do not suit it. -/
theorem Indulgent.failure (h : Indulgent session named condition) {leaf : Leaf}
    (hsound : SoundLeaf (some session.registry) leaf) {e : Error}
    (hfailed : session.ConstantFailure leaf e) :
    (e = .misuse .overflow ∨ e = .type) ∧ ¬ session.Suits leaf := by
  obtain ⟨found, hresolve, hresolves⟩ := h.resolves hsound.passes
  cases hfailed with
  | operator hunresolved => cases hunresolved.symm.trans hresolve
  | value hvalue =>
      unfold Almanac.constantValue at hvalue
      cases hrequest : FactRequest.ofValue? leaf.value with
      | none =>
          rw [hrequest] at hvalue
          cases hvalue
      | some request =>
          rw [hrequest] at hvalue
          obtain ⟨_, path, hpath, hreadable⟩ := hsound.value request hrequest
          obtain ⟨hunhashable, htype⟩ := h.answer hpath hreadable hvalue
          refine ⟨.inr htype, fun hsuits => ?_⟩
          cases hunhashable.symm.trans (hsuits.hashable request hrequest)
  | fact hfact => cases (h.answer rfl hsound.path hfact).1
  | comparison hresolved hfact hvalue hevaluate =>
      obtain rfl := Except.ok.inj (hresolve.symm.trans hresolved)
      obtain ⟨hcause, hunfit⟩ := hresolves.error hevaluate
      exact ⟨hcause, fun hsuits => hunfit (hsuits.values _ _ _ hresolve hfact hvalue)⟩

end Indulgent

end Condition

end Rulebook
