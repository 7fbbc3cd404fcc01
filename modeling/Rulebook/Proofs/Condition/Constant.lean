import Rulebook.Proofs.Condition.Verdict
import Rulebook.Proofs.Operator.Composition

/-!
Conditions on constant facts.

When no fact is computed, every comparison has a fixed outcome, whatever else is evaluated besides
(`reads_compare`).  So a session with such facts is one assignment of priorities
(`constantAssignment`), and what is proved of all assignments holds of evaluating conditions in it.
-/

namespace Rulebook

open Session Eval Strand

/-- What a request for a fact that is not computed comes to. -/
def Almanac.constantAnswer (almanac : Almanac) (request : FactRequest) : Except Error Value :=
  match almanac.lookup request.fact with
  | .error e => .error e
  | .ok .undefined =>
      if almanac.allowUndefinedFacts then .ok .null else .error (.undefinedFact request.fact)
  | .ok (.value value) => almanac.applyPath value request.path
  | .ok (.computed _ _) => .error .stalled

/-- What a value stands for when no fact is computed. -/
def Almanac.constantValue (almanac : Almanac) (value : Value) : Except Error Value :=
  match FactRequest.ofValue? value with
  | some request => almanac.constantAnswer request
  | none => .ok value

/-- No fact is computed. -/
def Almanac.Constant (almanac : Almanac) : Prop :=
  ∀ id fact program, almanac.lookup id ≠ .ok (.computed fact program)

theorem Almanac.constant_of_no_facts {almanac : Almanac} (h : almanac.facts = []) :
    almanac.Constant := by
  intro id fact program hlookup
  rw [Almanac.lookup, h] at hlookup
  split at hlookup
  · cases hlookup
  · split at hlookup <;> cases hlookup

/-- The outcome of a comparison when no fact is computed. -/
def Session.constantOutcome (session : Session) (leaf : Leaf) : Option Bool :=
  match (session.registry.resolve leaf.operator).map Registry.Resolution.operator,
      session.almanac.constantValue leaf.value, session.almanac.constantAnswer leaf.request with
  | .ok operator, .ok value, .ok fact => (operator.evaluate fact value).toOption
  | _, _, _ => none

/-- The facts and the operators of a session are those of another one. -/
structure Session.Alike (session now : Session) : Prop where
  almanac : now.almanac = session.almanac
  operators : now.registry.operators = session.registry.operators
  decorators : now.registry.decorators = session.registry.decorators
  remembers : now.registry.Remembers fun _ _ => False

variable {σ : Type} [HasSession σ] {session : Session}

/-- A session has the same facts and operators as in the beginning. -/
def Session.alike (session : Session) : Invariant σ Ending :=
  .ofWorld fun world => session.Alike (HasSession.session world)

theorem tallyFree_alike : TallyFree (session.alike : Invariant σ Ending) := by
  intro pledges world counter label _ h
  change session.Alike (HasSession.session (HasSession.withSession _ world))
  rw [HasSession.session_withSession]
  exact ⟨h.almanac, h.operators, h.decorators, h.remembers⟩

theorem ensures_operator_alike {rank : ℕ∞} (name : String) :
    Ensures (session.alike : Invariant σ Ending) rank (Session.operator name)
      (· = (session.registry.resolve name).map Registry.Resolution.operator) := by
  refine ensures_current_bind session.Alike (fun _ _ h => h) fun now halike => ?_
  have hget : (now.registry.get name).1 =
      (session.registry.resolve name).map Registry.Resolution.operator := by
    rw [halike.remembers.get_eq,
      Registry.resolve_congr halike.operators halike.decorators]
  obtain ⟨hoperators, hdecorators, hremembers⟩ := halike.remembers.lookup name
  have hupdate : Ensures (session.alike : Invariant σ Ending) rank
      (update fun other => { other with registry := (now.registry.get name).2 }) (· = .ok ()) := by
    apply ensures_update
    intro pledges world h
    change session.Alike (HasSession.session (HasSession.withSession _ world))
    rw [HasSession.session_withSession]
    exact ⟨h.almanac, hoperators.trans halike.operators, hdecorators.trans halike.decorators,
      hremembers⟩
  exact hupdate.bind (fun _ _ => Ensures.outcome hget) fun e he => nomatch he

section Answers

variable {inv : Invariant σ Ending} {almanac : Almanac} {rank : ℕ∞}

/-- Where the almanac stays as it is and no fact is computed, requests have their answers. -/
theorem ensures_factValue_constant (hconstant : almanac.Constant)
    (hinv : ∀ pledges world, inv pledges world → (HasSession.session world).almanac = almanac)
    (depth : Nat) (request : FactRequest) :
    Ensures inv rank (factValue (depth + 1) request) (· = almanac.constantAnswer request) := by
  refine ensures_current_bind (fun now => now.almanac = almanac) hinv fun now halmanac => ?_
  unfold Almanac.constantAnswer
  dsimp only
  rw [halmanac]
  cases hlookup : almanac.lookup request.fact with
  | error e => exact Ensures.throw rfl
  | ok entry =>
      cases entry with
      | undefined =>
          cases hallow : almanac.allowUndefinedFacts with
          | true => exact Ensures.pure rfl
          | false => exact Ensures.throw rfl
      | value value => exact Ensures.outcome rfl
      | computed fact program => exact absurd hlookup (hconstant _ _ _)

theorem ensures_valueOf_constant (hconstant : almanac.Constant)
    (hinv : ∀ pledges world, inv pledges world → (HasSession.session world).almanac = almanac)
    (depth : Nat) (value : Value) :
    Ensures inv rank (valueOf (depth + 1) value) (· = almanac.constantValue value) := by
  unfold valueOf Almanac.constantValue
  cases FactRequest.ofValue? value with
  | some request => exact ensures_factValue_constant hconstant hinv depth request
  | none => exact Ensures.pure rfl

end Answers

/-- What a comparison comes to when no fact is computed. -/
inductive Session.Compares (session : Session) (leaf : Leaf) :
    Except Error (Bool × Sides) → Prop where
  | operator {e : Error} (failed : session.registry.resolve leaf.operator = .error e) :
      Compares session leaf (.error e)
  | value {e : Error} (failed : session.almanac.constantValue leaf.value = .error e) :
      Compares session leaf (.error e)
  | fact {e : Error} (failed : session.almanac.constantAnswer leaf.request = .error e) :
      Compares session leaf (.error e)
  | comparison {found : Registry.Resolution} {fact value : Value}
      (resolved : session.registry.resolve leaf.operator = .ok found)
      (facts : session.almanac.constantAnswer leaf.request = .ok fact)
      (values : session.almanac.constantValue leaf.value = .ok value) :
      Compares session leaf
        ((found.operator.evaluate fact value).map fun verdict => (verdict, ⟨fact, value⟩))

theorem ensures_compares (hconstant : session.almanac.Constant) (depth : Nat) (leaf : Leaf) :
    Ensures (session.alike : Invariant σ Ending) 1 (leaf.compare (depth + 1))
      (session.Compares leaf) := by
  have halmanac : ∀ pledges world, (session.alike : Invariant σ Ending) pledges world →
      (HasSession.session world).almanac = session.almanac := fun _ _ h => h.almanac
  apply (ensures_operator_alike leaf.operator).bind
  · intro operator hoperator
    cases hresolve : session.registry.resolve leaf.operator with
    | error e =>
        rw [hresolve] at hoperator
        cases hoperator
    | ok found =>
        rw [hresolve] at hoperator
        obtain rfl := Except.ok.inj hoperator
        have hvalue :
            Ensures (session.alike : Invariant σ Ending) 0 (valueOf (depth + 1) leaf.value) _ :=
          ensures_valueOf_constant hconstant halmanac depth leaf.value
        have hboth := hvalue.both
          (ensures_factValue_constant hconstant halmanac depth leaf.request)
        rw [zero_add] at hboth
        apply hboth.bind
        · rintro ⟨value, fact⟩ ⟨hvalue, hfact⟩
          have hcompares := Session.Compares.comparison hresolve hfact.symm hvalue.symm
          have houtcome : Ensures (session.alike : Invariant σ Ending) 1
              (Eval.outcome (found.operator.evaluate fact value))
              (· = found.operator.evaluate fact value) := Ensures.outcome rfl
          apply houtcome.bind
          · intro verdict hverdict
            rw [← hverdict] at hcompares
            exact Ensures.pure hcompares
          · intro e he
            rwa [← he] at hcompares
        · intro e he
          rcases he with hvalue | hfact
          · exact .value hvalue.symm
          · exact .fact hfact.symm
  · intro e he
    cases hresolve : session.registry.resolve leaf.operator with
    | error cause =>
        rw [hresolve] at he
        cases he
        exact .operator hresolve
    | ok found =>
        rw [hresolve] at he
        cases he

theorem Session.Compares.outcome {leaf : Leaf} {result : Except Error (Bool × Sides)}
    (h : session.Compares leaf result) :
    result.toOption.map (·.1) = session.constantOutcome leaf := by
  unfold Session.constantOutcome
  cases h with
  | operator hfailed =>
      rw [hfailed]
      rfl
  | value hfailed =>
      rw [hfailed]
      cases (session.registry.resolve leaf.operator).map Registry.Resolution.operator <;> rfl
  | fact hfailed =>
      rw [hfailed]
      cases (session.registry.resolve leaf.operator).map Registry.Resolution.operator <;>
        cases session.almanac.constantValue leaf.value <;> rfl
  | @comparison found fact value hresolved hfacts hvalues =>
      rw [hresolved, hfacts, hvalues]
      change _ = (found.operator.evaluate fact value).toOption
      cases found.operator.evaluate fact value <;> rfl

/-- A comparison has its outcome. -/
theorem ensures_compare_alike (hconstant : session.almanac.Constant) (depth : Nat) (leaf : Leaf) :
    Ensures (session.alike : Invariant σ Ending) 1 (leaf.compare (depth + 1))
      fun result => result.toOption.map (·.1) = session.constantOutcome leaf :=
  (ensures_compares hconstant depth leaf).imp fun _ hcompares => hcompares.outcome

theorem reads_compare (hconstant : session.almanac.Constant) (named : Table Value Condition)
    (depth : Nat) :
    Condition.Reads (session.alike : Invariant σ Ending) 1
      ⟨Leaf.compare (depth + 1), fun _ => named⟩
      (Condition.fixedReading named session.almanac.allowUndefinedConditions
        session.constantOutcome) where
  tallyFree := tallyFree_alike
  named _ _ _ := rfl
  lenient _ _ h := congrArg Almanac.allowUndefinedConditions h.almanac
  compare leaf := ensures_compare_alike hconstant depth leaf

namespace Condition

/-- A session with constant facts, in which a condition is evaluated with priorities of its own. -/
def constantAssignment {shape : Condition} {names : Table Value Condition}
    {outcome : Leaf → Option Bool} (session : Session) (condition : Condition)
    (named : Table Value Condition) (hconstant : session.almanac.Constant)
    (hremembers : session.registry.Remembers fun _ _ => False)
    (houtcome : session.constantOutcome = outcome)
    (hshape : condition.unranked = shape.unranked)
    (hnames : unrankedNames named = unrankedNames names) : Assignment shape names outcome where
  σ := Session
  session := inferInstance
  condition := condition
  named := named
  sameShape := hshape
  sameNames := hnames
  meaning := ⟨Leaf.compare depthLimit, fun _ => named⟩
  lenient := session.almanac.allowUndefinedConditions
  inv now := session.Alike now
  waits := 1
  reads := by
    subst houtcome
    exact reads_compare hconstant named 999
  world := session
  holds := ⟨rfl, rfl, rfl, hremembers⟩

/-! ### A session that knows an age -/

/-- The fact that is known of someone. -/
def ageFact (priority : Priority) : Fact := ⟨.str "age", ⟨priority, true⟩, .constant (.int 7)⟩

/-- A session in which an age is known, the fact having some priority. -/
def ageSession (priority : Priority) : Session where
  almanac := { Almanac.empty with facts := [(.str "age", ageFact priority)] }
  registry := Registry.empty.addOperator ⟨"present", Guard.none, fun fact _ => .ok fact.truthy⟩
  tally := none
  notes := []

theorem lookup_ageSession (priority : Priority) (id : Value) :
    (ageSession priority).almanac.lookup id =
      if !id.hashable then .error .type
      else if Value.str "age" == id then .ok (.value (.int 7)) else .ok .undefined := by
  simp only [Almanac.lookup, ageSession, Almanac.empty, Table.find?]
  cases Value.str "age" == id <;> rfl

theorem constant_ageSession (priority : Priority) : (ageSession priority).almanac.Constant := by
  intro id fact program h
  rw [lookup_ageSession] at h
  split at h
  · cases h
  · split at h <;> cases h

theorem remembers_ageSession (priority : Priority) :
    (ageSession priority).registry.Remembers fun _ _ => False :=
  ((Registry.remembers_empty Registry.Outdated).addOperator _).cleared _

theorem constantOutcome_ageSession (first second : Priority) :
    (ageSession first).constantOutcome = (ageSession second).constantOutcome := by
  have hanswer : (ageSession first).almanac.constantAnswer =
      (ageSession second).almanac.constantAnswer := by
    funext request
    unfold Almanac.constantAnswer
    rw [lookup_ageSession, lookup_ageSession]
    rfl
  funext leaf
  unfold Session.constantOutcome Almanac.constantValue
  rw [hanswer]
  rfl

/-- The condition that an age is known. -/
def grown (priority : Option Priority) : Condition :=
  .comparison ⟨"age", "present", .null, none, none⟩ none priority

/-- A name for the condition that an age is known. -/
def grownNames (priority : Option Priority) : Table Value Condition :=
  [(.str "grown", grown priority)]

/-- A condition that refers to another one. -/
def eligible (priority : Option Priority) : Condition :=
  .any [.never none, .reference "grown" none priority] none Priority.first

theorem find?_grownNames {priority : Option Priority} {target : String} {condition : Condition}
    (h : (grownNames priority).find? (.str target) = some condition) :
    condition = grown priority := by
  unfold grownNames Table.find? at h
  split at h <;> cases h
  rfl

theorem find?_grown (priority : Option Priority) :
    (grownNames priority).find? (.str "grown") = some (grown priority) := by
  simp [grownNames, Table.find?, BEq.beq, Value.equal]

theorem constantOutcome_grown :
    (ageSession Priority.first).constantOutcome
      ⟨"age", "present", .null, none, none⟩ = some true := by
  unfold Session.constantOutcome Almanac.constantAnswer Almanac.constantValue
  rw [lookup_ageSession]
  simp [Leaf.request, Value.hashable, BEq.beq, Value.equal]
  rfl

theorem meets_eligible {priority : Option Priority} {met : Condition}
    (h : Meets (grownNames priority) (eligible priority) met) :
    met = eligible priority ∨ met = .never none ∨ met = .reference "grown" none priority ∨
      met = grown priority := by
  induction h with
  | refl => exact .inl rfl
  | tail _ hleads ih =>
      rcases ih with rfl | rfl | rfl | rfl
      · cases hleads with
        | any _ _ hmem =>
            rcases List.mem_pair.1 hmem with rfl | rfl
            · exact .inr (.inl rfl)
            · exact .inr (.inr (.inl rfl))
      · cases hleads
      · cases hleads with
        | reference _ _ hfound => exact .inr (.inr (.inr (find?_grownNames hfound)))
      · cases hleads

/-- Nothing leads back to where it came from if some measure decreases. -/
theorem acyclic_of_measure {named : Table Value Condition} {condition : Condition}
    (measure : Condition → Nat)
    (h : ∀ met next, Meets named condition met → Leads named met next →
      measure next < measure met) (met : Condition) (hmet : Meets named condition met) :
    ¬ Relation.TransGen (Leads named) met met := by
  have hless : ∀ next, Relation.TransGen (Leads named) met next → measure next < measure met := by
    intro next hnext
    induction hnext with
    | single hleads => exact h met _ hmet hleads
    | tail hbefore hleads ih => exact (h _ _ (hmet.trans hbefore.to_reflTransGen) hleads).trans ih
  exact fun hcircle => lt_irrefl _ (hless met hcircle)

theorem sound_eligible : Sound (grownNames none) (ageSession Priority.first).constantOutcome
    (eligible none) where
  compared leaf name priority h := by
    rcases meets_eligible h with heq | heq | heq | heq <;> cases heq
    rw [constantOutcome_grown]
    rfl
  defined target name priority h := by
    rcases meets_eligible h with heq | heq | heq | heq <;> cases heq
    rw [find?_grown]
    rfl
  acyclic := by
    refine acyclic_of_measure (fun
      | .any _ _ _ => 2
      | .reference _ _ _ => 1
      | _ => 0) fun met next hmet hleads => ?_
    rcases meets_eligible hmet with rfl | rfl | rfl | rfl
    · cases hleads with
      | any _ _ hmem => rcases List.mem_pair.1 hmem with rfl | rfl <;> decide
    · cases hleads
    · cases hleads with
      | reference _ _ hfound =>
          rw [find?_grownNames hfound]
          decide
    · cases hleads

/-- Whatever the priorities of the fact and of what refers to it, the condition holds. -/
theorem verdict_eligible :
    Sound (grownNames none) (ageSession Priority.first).constantOutcome (eligible none) ∧
      (∃ depth verdict, plain (grownNames none) (ageSession Priority.first).constantOutcome depth
        (eligible none) = some verdict) ∧
      ∀ priority own, ∃ result result',
        Yields (ageSession priority) ((eligible own).evaluate fun _ => grownNames own)
          (.ok result) ∧
        Yields (ageSession Priority.first) ((eligible none).evaluate fun _ => grownNames none)
          (.ok result') ∧
        result.head.verdict = some true ∧ result.head.verdict = result'.head.verdict := by
  obtain ⟨hsame, hsound, hplain⟩ := verdict_of_assignment (eligible none) (grownNames none)
    (ageSession Priority.first).constantOutcome
  refine ⟨sound_eligible, hsound sound_eligible, fun priority own => ?_⟩
  have hverdict : plain (grownNames none) (ageSession Priority.first).constantOutcome 1
      (eligible none) = some true := by
    have htarget : plainTarget (grownNames none) (ageSession Priority.first).constantOutcome 1
        "grown" = some true := by
      rw [plainTarget, find?_grown]
      exact constantOutcome_grown
    simp only [plain, eligible, plainWith, plainEach, htarget]
    rfl
  let first : Assignment (eligible none) (grownNames none)
      (ageSession Priority.first).constantOutcome :=
    constantAssignment (ageSession priority) (eligible own) (grownNames own)
      (constant_ageSession _) (remembers_ageSession _) (constantOutcome_ageSession _ _) rfl rfl
  let second : Assignment (eligible none) (grownNames none)
      (ageSession Priority.first).constantOutcome :=
    constantAssignment (ageSession Priority.first) (eligible none) (grownNames none)
      (constant_ageSession _) (remembers_ageSession _) rfl rfl rfl
  obtain ⟨result, hreturns, hresult⟩ := hplain 1 true hverdict first depthLimit (by decide)
  obtain ⟨result', hreturns', _⟩ := hplain 1 true hverdict second depthLimit (by decide)
  exact ⟨result, result', hreturns, hreturns', hresult,
    hsame first second depthLimit depthLimit result result' hreturns hreturns'⟩

end Condition

end Rulebook
