import Rulebook.Engine.Basic
import Rulebook.Proofs.Condition.Audit
import Rulebook.Proofs.Condition.Constant
import Rulebook.Proofs.Condition.Depth
import Rulebook.Proofs.Rule.RoundTrip

/-!
Evaluations that end.

On facts that are not computed, evaluating a condition comes to a result within as many levels of
references as there are names, whatever happens further down, unless some condition that is met
leads back to itself (`ends_of_acyclic`).  Defining named conditions does not keep one of them from
leading back to itself, and evaluating that one goes deeper and deeper (`not_endsAlways`).
-/

namespace Rulebook

open Session Eval Strand

variable {σ : Type} [HasSession σ]

/-! ### Facts that stay as they are -/

namespace Almanac

variable {almanac : Almanac}

/-- The almanac stays as it is. -/
def stays (almanac : Almanac) : Invariant σ Ending :=
  .ofWorld fun world => (HasSession.session world).almanac = almanac

theorem stays_withSession {pledges : Pledges Ending} {world : σ} {session : Session}
    (hsession : session.almanac = (HasSession.session world).almanac)
    (h : (almanac.stays : Invariant σ Ending) pledges world) :
    (almanac.stays : Invariant σ Ending) pledges (HasSession.withSession session world) := by
  change (HasSession.session (HasSession.withSession session world)).almanac = almanac
  rw [HasSession.session_withSession]
  exact hsession.trans h

theorem tallyFree_stays : TallyFree (almanac.stays : Invariant σ Ending) :=
  fun _ _ _ _ _ h => stays_withSession rfl h

theorem ensures_operator_stays {rank : ℕ∞} (name : String) :
    Ensures (almanac.stays : Invariant σ Ending) rank (Session.operator name) fun _ => True := by
  refine ensures_current_bind (fun _ => True) (fun _ _ _ => trivial) fun now _ => ?_
  have hupdate : Ensures (almanac.stays : Invariant σ Ending) rank
      (update fun other => { other with registry := (now.registry.get name).2 }) (· = .ok ()) :=
    ensures_update fun _ _ h => stays_withSession rfl h
  exact hupdate.bind (fun _ _ => Ensures.outcome trivial) fun _ he => nomatch he

/-- Comparing what is not computed waits for nothing but the two sides. -/
theorem ensures_compare_stays (hconstant : almanac.Constant) (depth : Nat) (leaf : Leaf) :
    Ensures (almanac.stays : Invariant σ Ending) 1 (leaf.compare (depth + 1)) fun _ => True := by
  have hsides : ∀ rank : ℕ∞, Ensures (almanac.stays : Invariant σ Ending) (rank + 1)
      (Eval.both (valueOf (depth + 1) leaf.value) (factValue (depth + 1) leaf.request))
      fun _ => True := fun rank =>
    ((ensures_valueOf_constant hconstant (fun _ _ h => h) depth leaf.value).both
      (ensures_factValue_constant hconstant (fun _ _ h => h) depth leaf.request)).imp
        fun _ _ => trivial
  rw [← zero_add 1]
  refine (ensures_operator_stays leaf.operator).bind (fun operator _ => ?_) fun _ _ => trivial
  refine (hsides 0).bind (fun _ _ => ?_) fun _ _ => trivial
  have houtcome : ∀ result : Except Error Bool,
      Ensures (almanac.stays : Invariant σ Ending) (0 + 1) (Eval.outcome result) fun _ => True :=
    fun _ => Ensures.outcome trivial
  exact (houtcome _).bind (fun _ _ => Ensures.pure trivial) fun _ _ => trivial

theorem reads_stays (hconstant : almanac.Constant) (named : Table Value Condition) (depth : Nat) :
    Condition.Reads (almanac.stays : Invariant σ Ending) 1
      ⟨Leaf.compare (depth + 1), fun _ => named⟩
      (Condition.openReading named almanac.allowUndefinedConditions) where
  tallyFree := tallyFree_stays
  named _ _ _ := rfl
  lenient _ _ h := congrArg Almanac.allowUndefinedConditions h
  compare := ensures_compare_stays hconstant depth

end Almanac

namespace Condition

variable {named : Table Value Condition} {condition : Condition}

/-- On facts that are not computed, following references so deep only comes to a result. -/
theorem exists_yields_constant {world : σ} (hconstant : (HasSession.session world).almanac.Constant)
    (named : Table Value Condition) (limit depth : Nat) (condition : Condition) :
    ∃ result, Yields world
      (condition.evaluateIn ⟨Leaf.compare (limit + 1), fun _ => named⟩ depth) result := by
  obtain ⟨waits, hensures⟩ := ensures_evaluateIn
    (Almanac.reads_stays (σ := σ) hconstant named limit) depth condition
  have hfinite : (1 + waits : ℕ∞) ≠ ⊤ := by
    rw [← Nat.cast_one, ← Nat.cast_add]
    exact ENat.natCast_ne_top _
  obtain ⟨result, hyields, _⟩ := hensures.exists_yields hfinite rfl
  exact ⟨result, hyields⟩

/-- Evaluating the condition comes to a result within some levels of references, whatever evaluating
further down might come to. -/
def Ends (world : σ) (named : Table Value Condition) (condition : Condition) : Prop :=
  ∃ depth, ∀ limit, ∃ result, ∀ beyond deeper, depth ≤ deeper →
    Yields world
      (condition.evaluateUpTo ⟨Leaf.compare (limit + 1), fun _ => named⟩ beyond deeper) result

/-- On facts that are not computed, evaluating a condition ends unless some condition that is met
leads back to itself; one level more than there are names is enough. -/
theorem ends_of_acyclic (world : σ) (named : Table Value Condition) (condition : Condition)
    (hconstant : (HasSession.session world).almanac.Constant) (hacyclic : Acyclic named condition) :
    Ends world named condition ∧
      ∀ limit, ∃ result, ∀ depth, named.length ≤ depth →
        Yields world
          (condition.evaluateIn ⟨Leaf.compare (limit + 1), fun _ => named⟩ depth) result := by
  have hsame : ∀ limit, ∃ result, ∀ beyond deeper, named.length + 1 ≤ deeper → Yields world
      (condition.evaluateUpTo ⟨Leaf.compare (limit + 1), fun _ => named⟩ beyond deeper) result := by
    intro limit
    obtain ⟨result, hyields⟩ :=
      exists_yields_constant hconstant named limit named.length condition
    refine ⟨result, fun beyond deeper hle => ?_⟩
    rw [evaluateIn_eq_evaluateUpTo] at hyields
    rwa [evaluateUpTo_eq rfl hacyclic (Nat.lt_succ_self _) hle]
  refine ⟨⟨named.length + 1, hsame⟩, fun limit => ?_⟩
  obtain ⟨result, hyields⟩ := hsame limit
  refine ⟨result, fun depth hle => ?_⟩
  rw [evaluateIn_eq_evaluateUpTo]
  exact hyields _ _ (Nat.succ_le_succ hle)

/-- A condition with a name that stands for another one ends where an age is known. -/
theorem ends_eligible :
    (ageSession Priority.first).almanac.Constant ∧ Acyclic (grownNames none) (eligible none) ∧
      Ends (ageSession Priority.first) (grownNames none) (eligible none) :=
  ⟨constant_ageSession _, sound_eligible.acyclic,
    (ends_of_acyclic (ageSession Priority.first) (grownNames none) (eligible none)
      (constant_ageSession _) sound_eligible.acyclic).1⟩

/-! ### A condition that is named in its own definition -/

/-- An engine after conditions were defined one after the other; those that are refused change
nothing. -/
def defining (definitions : List (Value × Value)) : Engine Unit :=
  definitions.foldl (fun engine entry => (engine.setCondition entry.1 entry.2).2) (.create [])

/-- Evaluating what the engine accepts ends, whichever conditions were defined before. -/
def EndsAlways : Prop :=
  ∀ (definitions : List (Value × Value)) (definition : Value) (condition : Condition)
    (session : Session),
    (construct (some (defining definitions).registry) definition).1 = .ok condition →
      session.almanac.Constant → Ends session (defining definitions).conditions condition

/-- The condition that a condition holds. -/
def itself : Condition := .reference "a" none none

/-- A name that stands for the condition of that name. -/
def circle : Table Value Condition := [(.str "a", itself)]

theorem find?_circle : circle.find? (.str "a") = some itself := by
  simp [circle, Table.find?, BEq.beq, Value.equal]

/-- What is done furthest down is all that evaluating a circle comes to. -/
theorem ensures_circle {inv : Invariant σ Ending} (htally : TallyFree inv)
    {compare : Leaf → Eval σ (Bool × Sides)} (e : Error) (depth : Nat) :
    Ensures inv 0 (itself.evaluateUpTo ⟨compare, fun _ => circle⟩ (fun _ => throw e) depth)
      (· = .error e) := by
  induction depth with
  | zero => exact Ensures.throw rfl
  | succ depth ih =>
      unfold evaluateUpTo itself
      rw [evaluateWith]
      refine ensures_count_bind htally rfl (Ensures.get_bind (fun _ => True)
        (fun _ _ _ => trivial) fun _ _ => ?_)
      simp only [find?_circle]
      exact ih.bind (fun _ h => by cases h) fun _ h => by rwa [Except.error.injEq] at h ⊢

theorem construct_itself (registry : Registry) :
    construct (some registry) itself.toDefinition = (.ok itself, some registry) := by
  rw [construct, Rule.ofDefinition_toDefinition]
  exact Gives.reference_toDefinition (by decide)

theorem conditions_defining_itself :
    (defining [(.str "a", itself.toDefinition)]).conditions = circle := by
  have hdefinition : ∃ members, itself.toDefinition = .object members := ⟨_, rfl⟩
  obtain ⟨members, hmembers⟩ := hdefinition
  have hconstruct := construct_itself (Engine.create (η := Unit) []).registry
  rw [hmembers] at hconstruct
  simp only [defining, List.foldl_cons, List.foldl_nil, Engine.setCondition, hmembers, hconstruct]
  rfl

/-- Evaluating a condition that is named in its own definition does not end. -/
theorem not_endsAlways : ¬ EndsAlways := by
  intro hends
  obtain ⟨depth, hdepth⟩ := hends [(.str "a", itself.toDefinition)] itself.toDefinition itself
    ⟨Almanac.empty, Registry.empty, none, []⟩ (by rw [construct_itself])
    (Almanac.constant_of_no_facts rfl)
  rw [conditions_defining_itself] at hdepth
  obtain ⟨result, hresult⟩ := hdepth 0
  -- The result is whatever is found furthest down, and there anything may be found.
  have hfound : ∀ e, result = .error e := by
    intro e
    have htally : TallyFree (Almanac.empty.stays : Invariant Session Ending) :=
      Almanac.tallyFree_stays
    refine (ensures_circle htally e depth).post_of_yields ?_ (hresult _ depth le_rfl)
    rfl
  cases (hfound .exhausted).symm.trans (hfound .stalled)

end Condition

end Rulebook
