import Rulebook.Proofs.Condition.Cause
import Rulebook.Proofs.Fact.Failure
import Rulebook.Proofs.Fact.Reckoning
import Rulebook.Proofs.Operator.Builtin
import Rulebook.Proofs.Rule.RoundTrip

/-!
Building with a registry is enough.

A condition that was built with a registry is evaluated with the same one.  Looking names up in the
meantime takes no operator away, and every path was read when the condition was built.  So a failure
that could be foreseen comes from a computation, an operator or a decorator that fails so itself,
and never from the condition (`brings_of_yields`).
-/

namespace Rulebook.Condition

open Eval Strand Registry

/-! ### What building rules out -/

/-- The condition was built from a definition that was accepted with the registry, and nothing was
done to the registry since but looking names up. -/
def BuiltWith (registry : Registry) (condition : Condition) : Prop :=
  ∃ definition before after, construct (some before) definition = (.ok condition, some after) ∧
    Consulted (some after) (some registry)

variable {registry : Registry} {named : Table Value Condition} {condition met : Condition}

theorem BuiltWith.buildable (h : BuiltWith registry condition) :
    Buildable (some registry) condition := by
  obtain ⟨definition, before, after, hconstruct, hconsulted⟩ := h
  obtain ⟨data, hbuilt⟩ := exists_build_of_ofDefinition hconstruct
  exact hbuilt.buildable.2.consulted hconsulted

/-- Whatever is met in a condition that was built has passed the checks, too. -/
theorem Buildable.of_meets {checked : Option Registry} (h : Buildable checked condition)
    (hnamed : ∀ other ∈ named.values, Buildable checked other) (hmeets : Meets named condition met) :
    Buildable checked met := by
  induction hmeets with
  | refl => exact h
  | tail _ hleads ih =>
      cases hleads with
      | all _ _ hmem =>
          cases ih with
          | all _ _ heach => exact heach _ hmem
      | any _ _ hmem =>
          cases ih with
          | any _ _ heach => exact heach _ hmem
      | not =>
          cases ih with
          | not _ _ hchild => exact hchild
      | reference _ _ hfound => exact hnamed _ (Table.mem_values_of_find? hfound)

/-- The standard resolver follows every path that can be read. -/
theorem standard_ok {text : String} (h : Path.isPath text = true) (value : Value) :
    ∃ found, PathResolver.standard value (.str text) = .ok found := by
  unfold Path.isPath at h
  cases hparse : Path.parse text with
  | ok steps => exact ⟨Path.select steps value, by simp [PathResolver.standard, hparse]⟩
  | error fault => simp [hparse] at h

theorem not_raises_standard {path : Option String} (h : Readable path) {e : Error}
    (he : e.isForeseeable = true) : ¬ PathResolver.standard.Raises (Value.ofText? path) e := by
  rintro ⟨value, hraises⟩
  cases path with
  | none =>
      cases hraises
      cases he
  | some text =>
      obtain ⟨found, hfound⟩ := standard_ok (h text rfl) value
      cases hfound.symm.trans hraises

/-- A comparison that has passed the checks gives no occasion for failures that could be
foreseen. -/
theorem SoundLeaf.spares {session : Session} {leaf : Leaf}
    (h : SoundLeaf (some session.registry) leaf)
    (hresolver : session.almanac.resolver = PathResolver.standard) {e : Error}
    (he : e.isForeseeable = true) : leaf.Spares session e where
  passes := h.passes
  fact := by
    rw [hresolver]
    exact not_raises_standard h.path he
  value request hrequest := by
    obtain ⟨_, path, hpath, hreadable⟩ := h.value request hrequest
    rw [hresolver, hpath]
    exact not_raises_standard hreadable he

variable {σ : Type} [HasSession σ]

/-- The reading in which comparisons do not fail so unless they give occasion to. -/
def sparedReading (named : Table Value Condition) (start : Session) (e : Error) : Reading where
  named := named
  lenient := start.almanac.allowUndefinedConditions
  compares leaf result := leaf.Spares start e → result ≠ .error e

theorem reads_sparedReading (named : Table Value Condition) {start : Session} {e : Error}
    (he : e.isForeseeable = true) (hspared : ¬ start.Brings e) (depth : Nat) :
    Reads (start.spared e) ⊤ (⟨Leaf.compare depth, fun _ => named⟩ : Meaning σ)
      (sparedReading named start e) where
  tallyFree := Session.tallyFree_spared
  named _ _ _ := rfl
  lenient _ _ h := by
    rw [h.almanac]
    rfl
  compare := ensures_compare_spared he hspared depth

/-- Every comparison that is met in a condition that was built has passed the checks. -/
theorem spares_of_meets {session : Session} (hbuilt : BuiltWith session.registry condition)
    (hnamed : ∀ other ∈ named.values, BuiltWith session.registry other)
    (hresolver : session.almanac.resolver = PathResolver.standard) {leaf : Leaf}
    {name : Option String} {priority : Option Priority}
    (hmeets : Meets named condition (.comparison leaf name priority)) {e : Error}
    (he : e.isForeseeable = true) : leaf.Spares session e := by
  have hnames : ∀ other ∈ named.values, Buildable (some session.registry) other :=
    fun other hother => (hnamed other hother).buildable
  cases hbuilt.buildable.of_meets hnames hmeets with
  | comparison _ _ hsound => exact hsound.spares hresolver he

/-- Whatever goes on besides, a condition that was built does not fail so when it is evaluated,
unless something in the session does. -/
theorem ensures_evaluateIn_spared {start : Session} (hbuilt : BuiltWith start.registry condition)
    (hnamed : ∀ other ∈ named.values, BuiltWith start.registry other)
    (hresolver : start.almanac.resolver = PathResolver.standard) {e : Error}
    (he : e.isForeseeable = true) (hspared : ¬ start.Brings e) (depth deeper : Nat) :
    Ensures (start.spared e : Invariant σ Ending) ⊤
      (condition.evaluateIn ⟨Leaf.compare depth, fun _ => named⟩ deeper) (· ≠ .error e) := by
  obtain ⟨waits, hensures⟩ :=
    ensures_evaluateIn (reads_sparedReading (σ := σ) named he hspared depth) deeper condition
  refine (hensures.raise le_top).imp fun result hresult => ?_
  rintro rfl
  have hblames : Blames (sparedReading named start e) deeper condition e := hresult
  rcases hblames.cause with rfl | hcause
  · cases he
  · cases hcause with
    | missing _ hmissing => rcases hmissing with rfl | rfl <;> cases he
    | comparison hmeets hfailed =>
        exact hfailed (spares_of_meets hbuilt hnamed hresolver hmeets he) rfl

/-- Building with a registry is enough.  No comparison that is met in a condition that was built
gives occasion for a failure that could be foreseen.  If evaluating the condition ends with such a
failure, something else in the session brings it. -/
theorem brings_of_yields (world : σ) (condition : Condition) (named : Table Value Condition)
    (hbuilt : BuiltWith (HasSession.session world).registry condition)
    (hnamed : ∀ other ∈ named.values, BuiltWith (HasSession.session world).registry other)
    (hresolver : (HasSession.session world).almanac.resolver = PathResolver.standard)
    (hidle : (HasSession.session world).almanac.cache.Idle) :
    (∀ leaf name priority, Meets named condition (.comparison leaf name priority) →
      ∀ e, e.isForeseeable = true → leaf.Spares (HasSession.session world) e) ∧
    ∀ depth deeper e, e.isForeseeable = true →
      Yields world (condition.evaluateIn ⟨Leaf.compare depth, fun _ => named⟩ deeper) (.error e) →
        (HasSession.session world).Brings e := by
  refine ⟨fun leaf name priority hmeets e he => spares_of_meets hbuilt hnamed hresolver hmeets he,
    fun depth deeper e he hyields => ?_⟩
  by_contra hspared
  have hensures := ensures_evaluateIn_spared (σ := σ) hbuilt hnamed hresolver he hspared depth deeper
  exact hensures.post_of_yields (Session.spared_start hspared hidle _) hyields rfl

/-! ### A limit that cannot be told -/

/-- The registry after the conditions of a rule were built with it. -/
def regularsRegistry : Registry := (withDefaults.lookup "not:equal").2

/-- A session in which the age is known, and finding out the limit fails. -/
def failingSession : Session where
  almanac := { Almanac.empty with facts := [
    (.str "age", ⟨.str "age", FactOptions.default, .constant (.int 7)⟩),
    (.str "limit", ⟨.str "limit", FactOptions.default,
      .computed fun _ => .fail (.raised "no limit")⟩)] }
  registry := regularsRegistry
  tally := none
  notes := []

/-- Nobody is a regular. -/
def regularNames : Table Value Condition := [(.str "regular", .never none)]

theorem builtWith_regulars : BuiltWith regularsRegistry Rule.discountRule.conditions :=
  ⟨.object Rule.regulars, withDefaults, regularsRegistry, Rule.gives_regulars, .refl _⟩

theorem builtWith_never : BuiltWith regularsRegistry (.never none) := by
  have hgives : Gives (build (.object [("operator", .str "never")]) "$") (some withDefaults)
      (.never none) (some withDefaults) :=
    Gives.build_iff.2 ⟨none, none, rfl, rfl, .never rfl rfl⟩
  exact ⟨.object [("operator", .str "never")], withDefaults, withDefaults, hgives, (Consulted.refl _).consult "not:equal"⟩

/-- The computation of the limit is the only one. -/
theorem computed_failingSession {id : Value} {fact : Fact} {program : Value → Program}
    (h : failingSession.almanac.lookup id = .ok (.computed fact program)) :
    program = fun _ => .fail (.raised "no limit") := by
  obtain ⟨_, _, hfound, hsource⟩ := Reckoning.computes_iff.1 h
  obtain ⟨_, _, hmem⟩ := Table.exists_mem_of_find? hfound
  rcases List.mem_pair.1 hmem with heq | heq
  · obtain rfl := (Prod.ext_iff.1 heq).2
    cases hsource
  · obtain rfl := (Prod.ext_iff.1 heq).2
    exact (FactSource.computed.inj hsource).symm

theorem not_brings_failingSession {e : Error} (he : e.isForeseeable = true) :
    ¬ failingSession.Brings e := by
  intro hbrings
  cases hbrings with
  | computation hfound hintroduces =>
      rw [computed_failingSession hfound] at hintroduces
      cases hintroduces
      cases he
  | job hfound => cases hfound
  | registry hbrings =>
      have hdefaults := (Brings.of_lookup "not:equal").2 hbrings
      rcases brings_withDefaults hdefaults with rfl | rfl <;> cases he

/-- The name of the class of the failure with which an evaluation ends. -/
def failureName? : Except Error ConditionResult → Option String
  | .ok _ => none
  | .error e => some e.className

/-- The condition fails as the computation of the limit does, and never in a way that could be
foreseen. -/
theorem brings_of_yields_regulars :
    failureName? (Eval.run failingSession
        (Rule.discountRule.conditions.evaluate fun _ => regularNames)).1 = some "RuntimeError" ∧
      ∀ depth deeper e, e.isForeseeable = true → ¬ Yields failingSession
        (Rule.discountRule.conditions.evaluateIn ⟨Leaf.compare depth, fun _ => regularNames⟩ deeper)
        (.error e) := by
  have hbuilt : BuiltWith failingSession.registry Rule.discountRule.conditions := builtWith_regulars
  have hnames : ∀ other ∈ regularNames.values, BuiltWith failingSession.registry other := by
    intro other hother
    rw [List.mem_singleton.1 hother]
    exact builtWith_never
  have hidle : failingSession.almanac.cache.Idle := fun _ _ hjob => nomatch hjob
  obtain ⟨_, hbrings⟩ := brings_of_yields failingSession Rule.discountRule.conditions regularNames
    hbuilt hnames rfl hidle
  exact ⟨by decide +kernel, fun depth deeper e he hyields =>
    not_brings_failingSession he (hbrings depth deeper e he hyields)⟩

end Rulebook.Condition
