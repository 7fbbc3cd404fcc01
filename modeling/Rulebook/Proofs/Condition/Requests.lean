import Rulebook.Proofs.Condition.Constant
import Rulebook.Proofs.Condition.Depth
import Rulebook.Proofs.Condition.Failure

/-!
What conditions ask for.

A comparison asks for its fact, and for another one if its value is a reference to a fact.  Building
checks what is asked for its fact through and through; of a reference it checks that the id does not
count as false and that the path can be read, and nothing else (`asksOnly_of_accepted`).  So a
reference may ask under any such id with parameters of any kind (`exists_accepted_asks`), as it
should not (`not_asksWellFormed`).
-/

namespace Rulebook

open Session Eval Strand Registry

variable {σ : Type} [HasSession σ]

/-! ### Requests -/

namespace FactRequest

/-- The request has no path, or one that can be read. -/
def HasPath (request : FactRequest) : Prop :=
  ∃ path, request.path = Value.ofText? path ∧ Condition.Readable path

/-- A request as it should be: its id is a text that is not empty, its parameters are an object if
there are any, and its path can be read if there is one. -/
structure WellFormed (request : FactRequest) : Prop where
  fact : ∃ id, request.fact = .str id ∧ id ≠ ""
  params : request.params = .null ∨ ∃ members, request.params = .object members
  path : request.HasPath

/-- A request that passes as the value of a comparison: its id does not count as false. -/
structure Tolerated (request : FactRequest) : Prop where
  fact : request.fact.truthy = true
  path : request.HasPath

/-- The id is a text, and the parameters are an object if there are any. -/
structure Typed (request : FactRequest) : Prop where
  fact : ∃ id, request.fact = .str id
  params : request.params = .null ∨ ∃ members, request.params = .object members

/-- What is tolerated lacks nothing but types. -/
theorem wellFormed_iff {request : FactRequest} :
    request.WellFormed ↔ request.Tolerated ∧ request.Typed := by
  constructor
  · intro h
    obtain ⟨id, hid, hne⟩ := h.fact
    exact ⟨⟨by simp [hid, Value.truthy, hne], h.path⟩, ⟨id, hid⟩, h.params⟩
  · rintro ⟨htolerated, htyped⟩
    obtain ⟨id, hid⟩ := htyped.fact
    refine ⟨⟨id, hid, ?_⟩, htyped.params, htolerated.path⟩
    rintro rfl
    have htruthy := htolerated.fact
    rw [hid] at htruthy
    cases htruthy

end FactRequest

/-- Compare; `askFact` answers the request for the fact, and `askValue` the one that the value
is. -/
def Leaf.compareBy (askFact askValue : FactRequest → Eval σ Value) (leaf : Leaf) :
    Eval σ (Bool × Sides) := do
  let operator ← Session.operator leaf.operator
  let valueStep := match FactRequest.ofValue? leaf.value with
    | some request => askValue request
    | none => pure leaf.value
  let (value, fact) ← Eval.both valueStep (askFact leaf.request)
  let verdict ← Eval.outcome (operator.evaluate fact value)
  return (verdict, ⟨fact, value⟩)

theorem Leaf.compareBy_factValue (depth : Nat) :
    Leaf.compareBy (factValue depth) (factValue depth) = (Leaf.compare depth : Leaf → Eval σ _) :=
  rfl

namespace Condition

variable {named : Table Value Condition} {condition : Condition} {leaf : Leaf}

/-- Whatever the condition asks for a fact is of the one kind, and whatever it asks for a value is of
the other: how other requests are answered makes no difference. -/
def AsksOnly (facts values : FactRequest → Prop) (named : Table Value Condition)
    (condition : Condition) : Prop :=
  ∀ (σ : Type) [HasSession σ] (limit : Nat) (askFact askValue : FactRequest → Eval σ Value),
    (∀ request, facts request → askFact request = factValue limit request) →
      (∀ request, values request → askValue request = factValue limit request) →
        ∀ depth, condition.evaluateIn ⟨Leaf.compareBy askFact askValue, fun _ => named⟩ depth =
          condition.evaluateIn ⟨Leaf.compare limit, fun _ => named⟩ depth

/-- A condition asks for nothing but what the comparisons ask for that are met. -/
theorem asksOnly_of_meets {facts values : FactRequest → Prop}
    (h : ∀ leaf name priority, Meets named condition (.comparison leaf name priority) →
      facts leaf.request ∧
        ∀ request, FactRequest.ofValue? leaf.value = some request → values request) :
    AsksOnly facts values named condition := by
  intro σ _ limit askFact askValue hfact hvalue depth
  refine evaluateIn_congr (fun leaf name priority hmeets => ?_) depth
  obtain ⟨hfacts, hvalues⟩ := h leaf name priority hmeets
  rw [← Leaf.compareBy_factValue]
  unfold Leaf.compareBy
  rw [hfact _ hfacts]
  cases hrequest : FactRequest.ofValue? leaf.value with
  | none => rfl
  | some request =>
      dsimp only
      rw [hvalue request (hvalues request hrequest)]

/-! ### What is checked -/

/-- Some definition of the condition is accepted. -/
def Accepted (condition : Condition) : Prop :=
  ∃ registry definition after, construct registry definition = (.ok condition, after)

/-- Without looking at operators, less is checked. -/
theorem Buildable.unchecked {checked : Option Registry} (h : Buildable checked condition) :
    Buildable none condition := by
  induction h with
  | all name priority _ ih => exact .all name priority ih
  | any name priority _ ih => exact .any name priority ih
  | not name priority _ ih => exact .not name priority ih
  | never name => exact .never name
  | reference name priority hnonempty => exact .reference name priority hnonempty
  | comparison name priority hsound =>
      exact .comparison name priority { hsound with passes := fun _ hnone => nomatch hnone }

theorem Accepted.buildable (h : Accepted condition) : Buildable none condition := by
  obtain ⟨registry, definition, after, hconstruct⟩ := h
  obtain ⟨data, hbuilt⟩ := exists_build_of_ofDefinition hconstruct
  exact hbuilt.buildable.2.unchecked

theorem SoundLeaf.wellFormed_request {checked : Option Registry} (h : SoundLeaf checked leaf) :
    leaf.request.WellFormed where
  fact := ⟨leaf.fact, rfl, h.fact_ne⟩
  params := by
    rw [Leaf.request]
    cases leaf.params with
    | none => exact .inl rfl
    | some members => exact .inr ⟨members, rfl⟩
  path := ⟨leaf.path, rfl, h.path⟩

theorem SoundLeaf.tolerated {checked : Option Registry} (h : SoundLeaf checked leaf)
    {request : FactRequest} (hrequest : FactRequest.ofValue? leaf.value = some request) :
    request.Tolerated :=
  ⟨(h.value request hrequest).1, (h.value request hrequest).2⟩

/-- Whatever an accepted condition asks for a fact is as it should be, and whatever it asks for a
value is tolerated.  It is as it should be, too, if the references among the values have the types
that they should have. -/
theorem asksOnly_of_accepted (named : Table Value Condition) (condition : Condition)
    (haccepted : Accepted condition) (hnamed : ∀ other ∈ named.values, Accepted other) :
    AsksOnly FactRequest.WellFormed FactRequest.Tolerated named condition ∧
      ((∀ leaf name priority request, Meets named condition (.comparison leaf name priority) →
          FactRequest.ofValue? leaf.value = some request → request.Typed) →
        AsksOnly FactRequest.WellFormed FactRequest.WellFormed named condition) := by
  have hsound : ∀ leaf name priority, Meets named condition (.comparison leaf name priority) →
      SoundLeaf none leaf := by
    intro leaf name priority hmeets
    have hbuildable := haccepted.buildable.of_meets
      (fun other hother => (hnamed other hother).buildable) hmeets
    cases hbuildable with
    | comparison _ _ hleaf => exact hleaf
  constructor
  · refine asksOnly_of_meets fun leaf name priority hmeets => ?_
    have hleaf := hsound leaf name priority hmeets
    exact ⟨hleaf.wellFormed_request, fun request hrequest => hleaf.tolerated hrequest⟩
  · intro htyped
    refine asksOnly_of_meets fun leaf name priority hmeets => ?_
    have hleaf := hsound leaf name priority hmeets
    refine ⟨hleaf.wellFormed_request, fun request hrequest => FactRequest.wellFormed_iff.2 ?_⟩
    exact ⟨hleaf.tolerated hrequest, htyped leaf name priority request hmeets hrequest⟩

/-! ### What is let through -/

/-- A fact is compared with what a request asks for. -/
def comparingLeaf (request : FactRequest) : Leaf where
  fact := "a"
  operator := "equal"
  value := .object [("fact", request.fact), ("params", request.params), ("path", request.path)]
  params := none
  path := none

/-- The comparison of a fact with what a request asks for. -/
def comparing (request : FactRequest) : Condition := .comparison (comparingLeaf request) none none

theorem accepted_comparing {request : FactRequest} (h : request.Tolerated) :
    Accepted (comparing request) := by
  have hknows : withDefaults.Knows "equal" := by
    show (withDefaults.has "equal").1 = true
    decide +kernel
  refine ⟨some withDefaults, (comparing request).toDefinition,
    consult (some withDefaults) "equal", ?_⟩
  rw [construct, Rule.ofDefinition_toDefinition]
  apply Gives.comparison_toDefinition
  exact {
    fact_ne := by simp [comparingLeaf]
    operator_ne := by simp [comparingLeaf]
    passes := fun registry hregistry => Option.some.inj hregistry ▸ hknows
    value := by
      rintro _ ⟨⟩
      exact ⟨h.fact, h.path⟩
    path := fun _ hpath => by cases hpath }

/-- A session in which nothing is known but the operators, and need not be. -/
def plainSession : Session :=
  ⟨{ Almanac.empty with allowUndefinedFacts := true }, withDefaults, none, []⟩

variable {request : FactRequest} {e : Error} {askValue : FactRequest → Eval Session Value}

/-- A comparison fails as what is asked for its value does. -/
theorem ensures_comparingLeaf (hvalue : askValue request = throw e) :
    Ensures (plainSession.alike : Invariant Session Ending) (0 + 1)
      ((comparingLeaf request).compareBy (factValue 1) askValue) (· = .error e) := by
  have halmanac : ∀ pledges world, (plainSession.alike : Invariant Session Ending) pledges world →
      (HasSession.session world).almanac = plainSession.almanac := fun _ _ h => h.almanac
  have hfails : Ensures (plainSession.alike : Invariant Session Ending) 0 (askValue request)
      (· = .error e) := by
    rw [hvalue]
    exact Ensures.throw rfl
  have hanswers : Ensures (plainSession.alike : Invariant Session Ending) 0
      (factValue 1 (comparingLeaf request).request) (· = .ok .null) :=
    ensures_factValue_constant (Almanac.constant_of_no_facts rfl) halmanac 0 _
  have hequal : ∃ operator, (plainSession.registry.resolve "equal").map
      Registry.Resolution.operator = .ok operator := ⟨_, rfl⟩
  obtain ⟨operator, hoperator⟩ := hequal
  refine (ensures_operator_alike "equal").bind (fun found hfound => ?_) fun e' he' => ?_
  · refine (hfails.both hanswers).bind ?_ ?_
    · rintro _ ⟨hok, _⟩
      cases hok
    · rintro e' (he' | he')
      · exact Except.error.inj he' ▸ rfl
      · cases he'
  · rw [hoperator] at he'
    cases he'

theorem yields_comparing_iff (hvalue : askValue request = throw e)
    {result : Except Error ConditionResult} :
    Yields plainSession ((comparing request).evaluateIn
        ⟨Leaf.compareBy (factValue 1) askValue, fun _ => []⟩ 0) result ↔
      result = .error e := by
  have hensures : Ensures (plainSession.alike : Invariant Session Ending) (0 + 1)
      ((comparing request).evaluateIn
        ⟨Leaf.compareBy (factValue 1) askValue, fun _ => []⟩ 0) (· = .error e) := by
    unfold comparing evaluateIn
    rw [evaluateWith]
    apply ensures_count_bind tallyFree_alike rfl
    refine (ensures_comparingLeaf hvalue).bind (fun _ hok => by cases hok) fun e' he' => ?_
    exact Except.error.inj he' ▸ rfl
  have halike : (plainSession.alike : Invariant Session Ending)
      [pledge (0 + 1) (· = (.error e : Except Error ConditionResult))] plainSession :=
    ⟨rfl, rfl, rfl, remembers_withDefaults _⟩
  obtain ⟨_, hyields, rfl⟩ := hensures.exists_yields (by simp) halike
  refine ⟨fun h => hensures.post_of_yields halike h, ?_⟩
  rintro rfl
  exact hyields

/-- Whatever is tolerated is asked for by some condition that is accepted. -/
theorem exists_accepted_asks (h : request.Tolerated) :
    ∃ condition, Accepted condition ∧
      ∀ facts values, AsksOnly facts values [] condition → values request := by
  classical
  refine ⟨comparing request, accepted_comparing h, fun facts values hasks => ?_⟩
  by_contra hvalues
  -- Two ways to fail for the request, either of which would make no difference.
  let refuse (e : Error) : FactRequest → Eval Session Value := fun asked =>
    if asked = request then throw e else factValue 1 asked
  have hsame : ∀ e asked, values asked → refuse e asked = factValue 1 asked := by
    intro e asked hasked
    have hne : asked ≠ request := fun heq => hvalues (heq ▸ hasked)
    simp only [refuse, if_neg hne]
  have hrefuse : ∀ e, refuse e request = throw e := fun e => if_pos rfl
  have hprogram := fun e =>
    hasks Session 1 (factValue 1) (refuse e) (fun _ _ => rfl) (hsame e) 0
  have hexhausted := (yields_comparing_iff (hrefuse .exhausted)).2 rfl
  rw [hprogram, ← hprogram .stalled] at hexhausted
  cases (yields_comparing_iff (hrefuse .stalled)).1 hexhausted

/-- Whatever an accepted condition asks for is as it should be. -/
def AsksWellFormed : Prop :=
  ∀ (named : Table Value Condition) (condition : Condition), Accepted condition →
    (∀ other ∈ named.values, Accepted other) →
      AsksOnly FactRequest.WellFormed FactRequest.WellFormed named condition

/-- A request with a list for its parameters. -/
def listed : FactRequest := ⟨.str "b", .list [.int 1], .null⟩

theorem tolerated_listed : listed.Tolerated := ⟨rfl, none, rfl, nofun⟩

theorem asksOnly_listed : Accepted (comparing listed) ∧
    AsksOnly FactRequest.WellFormed FactRequest.Tolerated [] (comparing listed) :=
  ⟨accepted_comparing tolerated_listed,
    (asksOnly_of_accepted [] (comparing listed) (accepted_comparing tolerated_listed) nofun).1⟩

/-- A request with a list for its parameters is made. -/
theorem not_asksWellFormed : ¬ AsksWellFormed := by
  intro hasks
  obtain ⟨condition, haccepted, hvalues⟩ := exists_accepted_asks tolerated_listed
  have hlisted := hvalues _ _ (hasks [] condition haccepted nofun)
  rcases hlisted.params with hnull | ⟨members, hobject⟩
  · cases hnull
  · cases hobject

end Condition

end Rulebook
