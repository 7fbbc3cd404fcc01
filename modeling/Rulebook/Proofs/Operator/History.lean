import Mathlib.Data.List.Induction
import Mathlib.Tactic.ByContra
import Rulebook.Proofs.Operator.Composition

/-!
Histories of registries.

Whatever happened to a registry, a name behaves as if nothing was remembered, unless a composition
is remembered under it that is older than the operator the name ends in, and that makes a
difference (`agree_iff_not_stale`).  The base of such a composition has a name of several parts: to
register it does not forget the compositions that end in it (`exists_not_agree`).
-/

namespace Rulebook.Registry

/-- What can be done with a registry. -/
inductive Act where
  | addOperator (operator : Operator)
  | removeOperator (name : String)
  | addDecorator (decorator : Decorator)
  | removeDecorator (name : String)
  | get (name : String)
  | has (name : String)
  | evaluate (name : String) (fact value : Value)

/-- The registry after something was done with it. -/
def Act.apply (registry : Registry) : Act → Registry
  | .addOperator operator => registry.addOperator operator
  | .removeOperator name => (registry.removeOperator name).2
  | .addDecorator decorator => registry.addDecorator decorator
  | .removeDecorator name => (registry.removeDecorator name).2
  | .get name => (registry.get name).2
  | .has name => (registry.has name).2
  | .evaluate name fact value => (registry.evaluate name fact value).2

/-- The registry after everything that was done since it was empty. -/
def after (acts : List Act) : Registry := acts.foldl Act.apply empty

/-- Both are the same failure, or operators that give the same answer on every pair of values. -/
def Agree : Except Error Operator → Except Error Operator → Prop
  | .ok first, .ok second => ∀ fact value, first.evaluate fact value = second.evaluate fact value
  | .error first, .error second => first = second
  | .ok _, .error _ => False
  | .error _, .ok _ => False

/-- An outdated composition is remembered under a name, and it makes a difference. -/
def Stale (registry : Registry) (name : String) : Prop :=
  ∃ entry found, registry.operators.find? name = none ∧
    registry.composed.find? name = some entry ∧ registry.resolve name = .ok found ∧
      Outdated entry found ∧
      ∃ fact value, entry.operator.evaluate fact value ≠ found.operator.evaluate fact value

theorem Remembers.apply {registry : Registry} (h : Remembers Outdated registry) (act : Act) :
    Remembers Outdated (act.apply registry) := by
  cases act with
  | addOperator operator => exact h.addOperator operator
  | removeOperator name => exact h.removeOperator name
  | addDecorator decorator => exact h.addDecorator decorator
  | removeDecorator name => exact h.removeDecorator name
  | get name => exact (h.lookup name).2.2
  | has name => exact (h.lookup name).2.2
  | evaluate name fact value => exact (h.lookup name).2.2

theorem remembers_after (acts : List Act) : Remembers Outdated (after acts) := by
  have hfold : ∀ registry, Remembers Outdated registry →
      Remembers Outdated (acts.foldl Act.apply registry) := by
    induction acts with
    | nil => exact fun _ h => h
    | cons act rest ih => exact fun registry h => ih _ (h.apply act)
  exact hfold empty (remembers_empty Outdated)

theorem agree_refl (result : Except Error Operator) : Agree result result := by
  cases result with
  | ok operator => exact fun _ _ => rfl
  | error e => rfl

theorem Agree.symm {first second : Except Error Operator} (h : Agree first second) :
    Agree second first := by
  cases first with
  | ok operator =>
      cases second with
      | ok other => exact fun fact value => (h fact value).symm
      | error e => exact h.elim
  | error e =>
      cases second with
      | ok other => exact h.elim
      | error other => exact Eq.symm h

theorem Agree.trans {first second third : Except Error Operator} (h : Agree first second)
    (hthen : Agree second third) : Agree first third := by
  cases second with
  | ok operator =>
      cases first with
      | error e => exact h.elim
      | ok before =>
          cases third with
          | error e => exact hthen.elim
          | ok after => exact fun fact value => (h fact value).trans (hthen fact value)
  | error e =>
      cases first with
      | ok before => exact h.elim
      | error before =>
          cases third with
          | ok after => exact hthen.elim
          | error after => exact Eq.trans h hthen

theorem Agree.evaluate {first second : Except Error Operator} (h : Agree first second)
    (fact value : Value) : (first.bind fun operator => operator.evaluate fact value) =
      second.bind fun operator => operator.evaluate fact value := by
  cases first with
  | ok operator =>
      cases second with
      | ok other => exact h fact value
      | error e => exact h.elim
  | error e =>
      cases second with
      | ok other => exact h.elim
      | error other => exact congrArg Except.error h

/-- Every registered operator was registered at some time. -/
theorem addOperator_mem_of_find? {acts : List Act} {name : String} {entry : RegistryEntry}
    (h : (after acts).operators.find? name = some entry) : .addOperator entry.operator ∈ acts := by
  induction acts using List.reverseRecOn with
  | nil => cases h
  | append_singleton acts act ih =>
      have hremembers := remembers_after acts
      rw [after, List.foldl_append, List.foldl_cons, List.foldl_nil] at h
      have hkept : (after acts).operators.find? name = some entry →
          Act.addOperator entry.operator ∈ acts ++ [act] :=
        fun hentry => List.mem_append_left _ (ih hentry)
      cases act with
      | addOperator operator =>
          have hinsert := (operators_addOperator (after acts) operator name).symm.trans h
          split at hinsert
          · cases hinsert
            exact List.mem_append_right _ (List.mem_singleton_self _)
          · exact hkept hinsert
      | removeOperator other =>
          have herase : ((after acts).operators.erase other).find? name = some entry := h
          rw [Table.find?_erase] at herase
          split at herase
          · cases herase
          · exact hkept herase
      | addDecorator decorator => exact hkept h
      | removeDecorator other => exact hkept h
      | get other => exact hkept ((hremembers.lookup other).1 ▸ h)
      | has other => exact hkept ((hremembers.lookup other).1 ▸ h)
      | evaluate other fact value => exact hkept ((hremembers.lookup other).1 ▸ h)

/-- A stale name ends in the name of several parts under which an operator was registered. -/
theorem exists_addOperator_of_stale {acts : List Act} {name : String}
    (h : Stale (after acts) name) : ∃ operator, Act.addOperator operator ∈ acts ∧
      ':' ∈ operator.name.toList ∧
        (Decorator.separator ++ operator.name).toList <:+ name.toList := by
  obtain ⟨entry, found, hnone, _, hresolve, houtdated, _⟩ := h
  obtain ⟨rest, hrest, ⟨before, hbefore⟩, hbase⟩ :=
    ((resolveSegments_eq_ok_iff name).1 hresolve).base_registered
  refine ⟨found.base.operator, addOperator_mem_of_find? hbase, houtdated.2, ?_⟩
  have hjoin := join_segments name
  rw [← hbefore] at hjoin
  rw [(remembers_after acts).operatorName _ _ hbase]
  cases before with
  | nil =>
      rw [List.nil_append] at hjoin
      rw [hjoin, hnone] at hbase
      cases hbase
  | cons part parts =>
      rw [join_append (List.cons_ne_nil _ _) hrest, String.append_assoc] at hjoin
      have htext := congrArg String.toList hjoin
      rw [String.toList_append] at htext
      exact ⟨_, htext⟩

/-- A registry behaves as if it remembered nothing, except where a stale composition is remembered;
and that is so only after an operator was registered under a name of several parts. -/
theorem agree_iff_not_stale (acts : List Act) (name : String) :
    (Agree ((after acts).get name).1 ((after acts).cleared.get name).1 ↔
      ¬ Stale (after acts) name) ∧
    (Stale (after acts) name → ∃ operator, Act.addOperator operator ∈ acts ∧
      ':' ∈ operator.name.toList ∧
        (Decorator.separator ++ operator.name).toList <:+ name.toList) := by
  refine ⟨?_, exists_addOperator_of_stale⟩
  have h := remembers_after acts
  rw [h.get_cleared name]
  by_cases hremembered : (after acts).operators.find? name = none ∧
      (after acts).composed.find? name ≠ none
  · obtain ⟨hnone, hsome⟩ := hremembered
    obtain ⟨entry, hentry⟩ := Option.ne_none_iff_exists'.1 hsome
    obtain ⟨hget, found, hresolve, hsame⟩ := h.get_of_remembered hnone hentry
    rw [hget, hresolve]
    constructor
    · rintro hagree ⟨entry', found', _, hentry', hresolve', _, fact, value, hdiffer⟩
      obtain rfl := Option.some.inj (hentry.symm.trans hentry')
      obtain rfl := Except.ok.inj (hresolve.symm.trans hresolve')
      exact hdiffer (hagree fact value)
    · intro hfresh fact value
      rcases hsame with hsame | houtdated
      · rw [hsame]
      · by_contra hdiffer
        exact hfresh ⟨entry, found, hnone, hentry, hresolve, houtdated, fact, value, hdiffer⟩
  · have hget := h.get_of_not_remembered name (by
      by_cases hnone : (after acts).operators.find? name = none
      · exact .inr (by_contra fun hsome => hremembered ⟨hnone, hsome⟩)
      · exact .inl hnone)
    rw [hget]
    apply iff_of_true (agree_refl _)
    rintro ⟨entry, _, hnone, hentry, _⟩
    exact hremembered ⟨hnone, by rw [hentry]; exact Option.some_ne_none _⟩

/-! ### A stale registry -/

/-- An operator that always gives the same verdict. -/
def constantOperator (name : String) (verdict : Bool) : Operator :=
  ⟨name, Guard.none, fun _ _ => .ok verdict⟩

/-- An operator is registered under the name of a composition that is part of another one. -/
def overlooking : List Act := [
  .addOperator (constantOperator "equal" true),
  .addDecorator ⟨"swap", Guard.none, Builtin.swap⟩,
  .addDecorator ⟨"not", Guard.none, Builtin.negate⟩,
  .get "not:swap:equal",
  .addOperator (constantOperator "swap:equal" false)]

/-- The composition that is remembered compares as before, and a new one would not. -/
theorem not_agree_overlooking : ¬ Agree ((after overlooking).get "not:swap:equal").1
    ((after overlooking).cleared.get "not:swap:equal").1 := by
  intro h
  have hremembered : (((after overlooking).get "not:swap:equal").1.bind fun operator =>
      operator.evaluate .null .null) = .ok false := by
    rfl
  have hcleared : (((after overlooking).cleared.get "not:swap:equal").1.bind fun operator =>
      operator.evaluate .null .null) = .ok true := by
    rfl
  have hsame := h.evaluate .null .null
  rw [hremembered, hcleared] at hsame
  cases hsame

theorem exists_not_agree : ¬ ∀ (acts : List Act) (name : String),
    Agree ((after acts).get name).1 ((after acts).cleared.get name).1 := by
  intro h
  exact not_agree_overlooking (h overlooking "not:swap:equal")

theorem stale_overlooking : Stale (after overlooking) "not:swap:equal" ∧
    ∃ operator, Act.addOperator operator ∈ overlooking ∧ ':' ∈ operator.name.toList ∧
      (Decorator.separator ++ operator.name).toList <:+ "not:swap:equal".toList := by
  obtain ⟨hagree, hadded⟩ := agree_iff_not_stale overlooking "not:swap:equal"
  have hstale : Stale (after overlooking) "not:swap:equal" := by
    by_contra hnot
    exact not_agree_overlooking (hagree.2 hnot)
  exact ⟨hstale, hadded hstale⟩

end Rulebook.Registry
