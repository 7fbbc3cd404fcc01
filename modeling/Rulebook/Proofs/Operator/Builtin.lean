import Rulebook.Proofs.Operator.Failure

/-!
How built-in operators fail.

The built-in operators compare whatever they are given, with two exceptions: numbers past the
greatest floating point number cannot be ordered (`operators_error`), and `someValue` and
`everyValue` go through the condition value without asking whether it has items
(`decorators_error`).  A comparison fails only on values that do not steer clear of both
(`Resolves.error`).
-/

namespace Rulebook

/-- The value is no whole number past the greatest floating point number. -/
def Value.Measurable (value : Value) : Prop :=
  ∀ n, value = .int n → (Binary64.ofInt? n).isSome = true

namespace Builtin

variable {fact value : Value} {e : Error}

/-! ### Operators -/

/-- The names of the operators that order numbers. -/
def orderings : List String :=
  ["lessThan", "lessThanInclusive", "greaterThan", "greaterThanInclusive"]

theorem isNumber_eq_error_iff : isNumber value = .error e ↔
    e = .misuse .overflow ∧ ¬ value.Measurable := by
  constructor
  · intro h
    unfold isNumber at h
    split at h
    · next n =>
        split at h
        · cases h
        · next hlarge =>
            exact ⟨(Except.error.inj h).symm, fun hmeasurable => hlarge (hmeasurable n rfl)⟩
    · cases h
    · split at h <;> cases h
    · cases h
  · rintro ⟨rfl, hlarge⟩
    simp only [Value.Measurable, Classical.not_forall] at hlarge
    obtain ⟨n, rfl, hlarge⟩ := hlarge
    rw [isNumber, if_neg hlarge]

/-- Whatever passes as a number can be read as one. -/
theorem exists_number_of_isNumber (h : isNumber value = .ok true) :
    ∃ number, toNumber? value = some number := by
  cases value with
  | int n => exact ⟨.int n, rfl⟩
  | float x => exact ⟨.float x, rfl⟩
  | str text =>
      rw [isNumber] at h
      split at h
      · next x hx => exact ⟨.float x, by rw [toNumber?, hx, Option.map_some]⟩
      · cases h
  | _ => cases h

/-- After a fact value that is a number, only the condition value can be too large. -/
theorem ordered_eq_error_iff {holds : Number → Number → Bool} (hfact : isNumber fact = .ok true) :
    ordered holds fact value = .error e ↔ isNumber value = .error e := by
  obtain ⟨a, ha⟩ := exists_number_of_isNumber hfact
  unfold ordered
  cases hvalue : isNumber value with
  | error cause => rfl
  | ok accepted =>
      cases accepted with
      | false => exact ⟨nofun, nofun⟩
      | true =>
          obtain ⟨b, hb⟩ := exists_number_of_isNumber hvalue
          simp [ha, hb]

theorem evaluate_ordering_eq_error_iff {name : String} {holds : Number → Number → Bool} :
    (ordering name holds).evaluate fact value = .error e ↔ e = .misuse .overflow ∧
      (¬ fact.Measurable ∨ isNumber fact = .ok true ∧ ¬ value.Measurable) := by
  have hguard : (ordering name holds).guard fact = isNumber fact := rfl
  unfold Operator.evaluate
  rw [hguard]
  cases hfact : isNumber fact with
  | error cause =>
      obtain ⟨rfl, hlarge⟩ := isNumber_eq_error_iff.1 hfact
      simp [hlarge, eq_comm]
  | ok accepted =>
      have hmeasurable : fact.Measurable := Classical.byContradiction fun hlarge => by
        cases hfact.symm.trans (isNumber_eq_error_iff.2 ⟨rfl, hlarge⟩)
      cases accepted with
      | false => simp [hmeasurable]
      | true =>
          change ordered holds fact value = .error e ↔ _
          rw [ordered_eq_error_iff hfact, isNumber_eq_error_iff]
          simp [hmeasurable]

/-- In an array everything can be looked for. -/
theorem exists_search {container : Value} (h : isArray container = .ok true) (item : Value) :
    ∃ found, search item container = .ok found := by
  cases container with
  | list items => exact ⟨_, rfl⟩
  | tuple items => exact ⟨_, rfl⟩
  | _ => cases h

/-- Everything is in a container or is not. -/
theorem exists_isIn {container : Value} (h : isContainer container = true) (item : Value) :
    ∃ found, isIn item container = .ok found := by
  cases container with
  | list items => exact ⟨_, rfl⟩
  | tuple items => exact ⟨_, rfl⟩
  | set items =>
      cases hitem : item.hashable with
      | true => exact ⟨item.among items, by simp [isIn, search, hitem]⟩
      | false => exact ⟨false, by simp [isIn, search, hitem, Error.type]⟩
  | object members =>
      cases hitem : item.hashable with
      | true =>
          exact ⟨item.among (members.map fun member => .str member.1), by simp [isIn, search, hitem]⟩
      | false => exact ⟨false, by simp [isIn, search, hitem, Error.type]⟩
  | str text => cases item <;> exact ⟨_, rfl⟩
  | _ => cases h

/-- The operators that do not order numbers compare whatever they are given. -/
theorem exists_verdict {operator : Operator} (h : operator ∈ operators)
    (hname : operator.name ∉ orderings) (fact value : Value) :
    ∃ verdict, operator.evaluate fact value = .ok verdict := by
  simp only [operators, List.mem_cons, List.not_mem_nil, or_false] at h
  rcases h with rfl | rfl | rfl | rfl | rfl | rfl | rfl | rfl | rfl | rfl
  iterate 2 exact ⟨_, rfl⟩
  iterate 2
    refine Operator.exists_evaluate ⟨true, rfl⟩ fun _ => ?_
    cases hcontainer : isContainer value with
    | false => exact ⟨false, by simp [hcontainer]⟩
    | true =>
        obtain ⟨found, hfound⟩ := exists_isIn hcontainer fact
        exact ⟨_, by simp only [hcontainer, if_true, hfound]; rfl⟩
  iterate 2
    refine Operator.exists_evaluate ⟨_, rfl⟩ fun harray => ?_
    obtain ⟨found, hfound⟩ := exists_search harray value
    exact ⟨_, by simp only [hfound]; rfl⟩
  all_goals exact absurd (by decide) hname

theorem operators_eq_error_iff {operator : Operator} (h : operator ∈ operators) :
    operator.evaluate fact value = .error e ↔ e = .misuse .overflow ∧
      operator.name ∈ orderings ∧
        (¬ fact.Measurable ∨ isNumber fact = .ok true ∧ ¬ value.Measurable) := by
  by_cases hname : operator.name ∈ orderings
  · have hordering : ∃ holds, operator = ordering operator.name holds := by
      simp only [operators, List.mem_cons, List.not_mem_nil, or_false] at h
      rcases h with rfl | rfl | rfl | rfl | rfl | rfl | rfl | rfl | rfl | rfl
      iterate 6 exact absurd hname (by decide)
      all_goals exact ⟨_, rfl⟩
    obtain ⟨holds, hoperator⟩ := hordering
    rw [hoperator, evaluate_ordering_eq_error_iff, ← hoperator]
    simp [hname]
  · obtain ⟨verdict, hverdict⟩ := exists_verdict h hname fact value
    simp [hverdict, hname]

/-- The operators fail only where a number that is to be ordered is too large. -/
theorem operators_error {operator : Operator} (h : operator ∈ operators)
    (hevaluate : operator.evaluate fact value = .error e) :
    e = .misuse .overflow ∧ operator.name ∈ orderings ∧
      ¬ (fact.Measurable ∧ value.Measurable) := by
  obtain ⟨hcause, hname, hlarge⟩ := (operators_eq_error_iff h).1 hevaluate
  refine ⟨hcause, hname, fun hboth => hlarge.elim (fun hfact => hfact hboth.1) fun hvalue => ?_⟩
  exact hvalue.2 hboth.2

/-! ### Decorators -/

/-- The names of the decorators that go through the items of the condition value. -/
def overValues : List String := ["someValue", "everyValue"]

/-- The values on which a decorator may run what it decorates. -/
def handed (name : String) (fact value : Value) : List (Value × Value) :=
  match name with
  | "someFact" | "everyFact" => (fact.array?.getD []).map (·, value)
  | "someValue" | "everyValue" => (value.items?.getD []).map (fact, ·)
  | "swap" => [(value, fact)]
  | _ => [(fact, value)]

theorem someItem_error {test : Value → Except Error Bool} {items : List Value}
    (h : someItem test items = .error e) : ∃ item ∈ items, test item = .error e := by
  induction items with
  | nil => cases h
  | cons item rest ih =>
      unfold someItem at h
      split at h
      · next hcause => exact ⟨item, List.mem_cons_self, hcause.trans h⟩
      · cases h
      · obtain ⟨other, hother, htest⟩ := ih h
        exact ⟨other, List.mem_cons_of_mem _ hother, htest⟩

theorem everyItem_error {test : Value → Except Error Bool} {items : List Value}
    (h : everyItem test items = .error e) : ∃ item ∈ items, test item = .error e := by
  induction items with
  | nil => cases h
  | cons item rest ih =>
      unfold everyItem at h
      split at h
      · next hcause => exact ⟨item, List.mem_cons_self, hcause.trans h⟩
      · cases h
      · obtain ⟨other, hother, htest⟩ := ih h
        exact ⟨other, List.mem_cons_of_mem _ hother, htest⟩

/-- Going through the items of a value fails where it has none, or as going through them does. -/
theorem overItems_error {test : List Value → Except Error Bool}
    (h : (do test (← itemsOf value)) = .error e) :
    e = .type ∧ value.items? = none ∨ test (value.items?.getD []) = .error e := by
  unfold itemsOf at h
  cases hitems : value.items? with
  | none =>
      rw [hitems] at h
      exact .inl ⟨(Except.error.inj h).symm, rfl⟩
  | some items =>
      rw [hitems] at h
      exact .inr h

/-- An array has items, and they are those of the array. -/
theorem items?_of_isArray (h : isArray fact = .ok true) : fact.items? = some (fact.array?.getD []) := by
  cases fact with
  | list items => rfl
  | tuple items => rfl
  | _ => cases h

section Over

variable {next : Comparison}
  {through : (Value → Except Error Bool) → List Value → Except Error Bool}
  (hthrough : ∀ {test items}, through test items = .error e → ∃ item ∈ items, test item = .error e)

include hthrough

/-- Going through the items of a fact value that is an array fails as one of them does. -/
theorem overFact_error (harray : isArray fact = .ok true)
    (h : (do through (fun item => next item value) (← itemsOf fact)) = .error e) :
    ∃ pair ∈ (fact.array?.getD []).map (·, value), next pair.1 pair.2 = .error e := by
  have hitems := items?_of_isArray harray
  rcases overItems_error h with ⟨_, hnone⟩ | hitem
  · cases hnone.symm.trans hitems
  · rw [hitems] at hitem
    obtain ⟨item, hmem, hitem⟩ := hthrough hitem
    exact ⟨(item, value), List.mem_map_of_mem hmem, hitem⟩

/-- Going through the items of a condition value fails where it has none, or as one of them
does. -/
theorem overValue_error (h : (do through (next fact) (← itemsOf value)) = .error e) :
    e = .type ∧ value.items? = none ∨
      ∃ pair ∈ (value.items?.getD []).map (fact, ·), next pair.1 pair.2 = .error e := by
  refine (overItems_error h).imp_right fun hitem => ?_
  obtain ⟨item, hmem, hitem⟩ := hthrough hitem
  exact ⟨(fact, item), List.mem_map_of_mem hmem, hitem⟩

end Over

theorem negate_error {next : Comparison} (h : negate next fact value = .error e) :
    next fact value = .error e := by
  change (next fact value).map (!·) = .error e at h
  cases hnext : next fact value with
  | error cause => rwa [hnext] at h
  | ok verdict =>
      rw [hnext] at h
      cases h

/-- The decorators fail where the condition value has no items to go through, or as what they
decorate does on the values that it is handed. -/
theorem decorators_error {decorator : Decorator} (h : decorator ∈ decorators) {operator : Operator}
    (hevaluate : (decorator.decorate operator).evaluate fact value = .error e) :
    e = .type ∧ decorator.name ∈ overValues ∧ value.items? = none ∨
      ∃ pair ∈ handed decorator.name fact value, operator.evaluate pair.1 pair.2 = .error e := by
  have hpart := Operator.evaluate_error hevaluate
  simp only [decorators, List.mem_cons, List.not_mem_nil, or_false] at h
  rcases h with rfl | rfl | rfl | rfl | rfl | rfl <;>
    obtain ⟨haccepted, hcompare⟩ := hpart.resolve_left nofun
  · exact .inr (overFact_error someItem_error haccepted hcompare)
  · exact (overValue_error someItem_error hcompare).imp_left fun h => ⟨h.1, by decide, h.2⟩
  · exact .inr (overFact_error everyItem_error haccepted hcompare)
  · exact (overValue_error everyItem_error hcompare).imp_left fun h => ⟨h.1, by decide, h.2⟩
  · exact .inr ⟨(value, fact), List.mem_singleton.2 rfl, hcompare⟩
  · exact .inr ⟨(fact, value), List.mem_singleton.2 rfl, negate_error hcompare⟩

end Builtin

namespace Registry

/-! ### Registries with the built-in operators only -/

theorem operators_withDefaults {name : String} {entry : RegistryEntry}
    (h : withDefaults.operators.find? name = some entry) : entry.operator ∈ Builtin.operators := by
  have hoperators : withDefaults.operators.values.map RegistryEntry.operator =
      Builtin.operators := rfl
  rw [← hoperators]
  exact List.mem_map_of_mem (Table.mem_values_of_find? h)

theorem decorators_withDefaults {name : String} {decorator : Decorator}
    (h : withDefaults.decorators.find? name = some decorator) :
    decorator ∈ Builtin.decorators := by
  have hdecorators : withDefaults.decorators.values = Builtin.decorators := rfl
  rw [← hdecorators]
  exact Table.mem_values_of_find? h

theorem Remembers.foldl {α : Type} {add : Registry → α → Registry}
    (hadd : ∀ registry item, Remembers Outdated registry → Remembers Outdated (add registry item))
    (items : List α) {registry : Registry} (h : Remembers Outdated registry) :
    Remembers Outdated (items.foldl add registry) := by
  induction items generalizing registry with
  | nil => exact h
  | cons item rest ih => exact ih (hadd registry item h)

/-- Nothing was put together yet from the built-in operators and decorators. -/
theorem remembers_withDefaults (excuse : RegistryEntry → Resolution → Prop) :
    Remembers excuse withDefaults := by
  have hoperators := Remembers.foldl (fun _ operator h => h.addOperator operator)
    Builtin.operators (remembers_empty Outdated)
  have hdecorators := Remembers.foldl (fun _ decorator h => h.addDecorator decorator)
    Builtin.decorators hoperators
  exact hdecorators.cleared excuse

/-- Nothing is registered when names are looked up, and what is remembered is what they stand
for. -/
theorem Consulted.remembers {before after : Option Registry} (h : Consulted before after)
    {excuse : RegistryEntry → Resolution → Prop} {registry : Registry}
    (hbefore : before = some registry) (hremembers : Remembers excuse registry) :
    ∃ later, after = some later ∧ later.operators = registry.operators ∧
      later.decorators = registry.decorators ∧ Remembers excuse later := by
  induction h with
  | refl => exact ⟨registry, hbefore, rfl, rfl, hremembers⟩
  | consult _ name ih =>
      obtain ⟨later, rfl, hoperators, hdecorators, hlater⟩ := ih
      obtain ⟨hoperators', hdecorators', hagain⟩ := hlater.lookup name
      exact ⟨_, rfl, hoperators'.trans hoperators, hdecorators'.trans hdecorators, hagain⟩

/-- With the built-in operators and decorators, only numbers that are too large and values without
items make a comparison fail. -/
theorem brings_withDefaults {e : Error} (h : withDefaults.Brings e) :
    e = .misuse .overflow ∨ e = .type := by
  cases h with
  | operator hfound hraises =>
      obtain ⟨_, _, hevaluate⟩ := hraises
      exact .inl (Builtin.operators_error (operators_withDefaults hfound) hevaluate).1
  | composed hfound => cases hfound
  | decorator hfound hintroduces =>
      obtain ⟨operator, hfree, _, _, hevaluate⟩ := hintroduces
      rcases Builtin.decorators_error (decorators_withDefaults hfound) hevaluate with
        ⟨htype, _⟩ | ⟨pair, _, hpair⟩
      · exact .inr htype
      · exact absurd ⟨_, _, hpair⟩ hfree

/-- The values suit the base, once the decorators have made of them what they make: no number is
too large that is to be ordered, and condition values that are gone through have items. -/
def Suits (base : Operator) : List Decorator → Value → Value → Prop
  | [], fact, value => base.name ∈ Builtin.orderings → fact.Measurable ∧ value.Measurable
  | decorator :: rest, fact, value =>
      (decorator.name ∈ Builtin.overValues → value.items?.isSome = true) ∧
        ∀ pair ∈ Builtin.handed decorator.name fact value, Suits base rest pair.1 pair.2

/-- A resolved name fails only on values that do not suit what it is made of. -/
theorem Resolves.error {parts : List String} {found : Resolution}
    (hresolves : Resolves withDefaults parts found) {fact value : Value} {e : Error}
    (hevaluate : found.operator.evaluate fact value = .error e) :
    (e = .misuse .overflow ∨ e = .type) ∧
      ¬ Suits found.base.operator found.decorators fact value := by
  induction hresolves generalizing fact value with
  | base _ hfound =>
      obtain ⟨hcause, hordering, hlarge⟩ :=
        Builtin.operators_error (operators_withDefaults hfound) hevaluate
      exact ⟨.inl hcause, fun hsuits => hlarge (hsuits hordering)⟩
  | decorated _ _ _ hfound _ ih =>
      rcases Builtin.decorators_error (decorators_withDefaults hfound) hevaluate with
        ⟨htype, hover, hnone⟩ | ⟨pair, hmem, hpair⟩
      · refine ⟨.inr htype, fun hsuits => ?_⟩
        have hsome := hsuits.1 hover
        rw [hnone] at hsome
        cases hsome
      · obtain ⟨hcause, hunfit⟩ := ih hpair
        exact ⟨hcause, fun hsuits => hunfit (hsuits.2 pair hmem)⟩

/-! ### Values that suit every operator -/

/-- One value is the other, or inside of it, array by array. -/
inductive Inside : Value → Value → Prop where
  | self (value : Value) : Inside value value
  | item {part item value : Value} {items : List Value} (array : value.array? = some items)
      (mem : item ∈ items) (inside : Inside part item) : Inside part value

/-- No number in the value is too large. -/
def MeasurableWithin (value : Value) : Prop := ∀ part, Inside part value → part.Measurable

theorem MeasurableWithin.item {value item : Value} (h : MeasurableWithin value)
    (hitem : item ∈ value.array?.getD []) : MeasurableWithin item := by
  intro part hpart
  cases harray : value.array? with
  | none => simp [harray] at hitem
  | some items =>
      rw [harray, Option.getD_some] at hitem
      exact h part (.item harray hitem hpart)

theorem Value.Measurable.within {value : Value} (h : value.Measurable)
    (hflat : value.array? = none) : MeasurableWithin value := by
  rintro part (_ | ⟨harray, _, _⟩)
  · exact h
  · cases hflat.symm.trans harray

end Registry

end Rulebook
