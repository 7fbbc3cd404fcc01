import Rulebook.Proofs.Operator.Known

/-!
Where the failures of operators come from.

A comparison by name fails as a registered operator fails, as a remembered composition fails, or as
one of the decorators fails on an operator that does not fail so itself (`Brings.of_get`).  Looking
names up brings no other failures (`Brings.of_lookup`).
-/

namespace Rulebook

/-- Comparing some values with the operator fails so. -/
def Operator.Raises (operator : Operator) (e : Error) : Prop :=
  ∃ fact value, operator.evaluate fact value = .error e

/-- An operator fails as its guard does, or as its comparison does on a value that the guard
accepts. -/
theorem Operator.evaluate_error {operator : Operator} {fact value : Value} {e : Error}
    (h : operator.evaluate fact value = .error e) :
    operator.guard fact = .error e ∨
      operator.guard fact = .ok true ∧ operator.compare fact value = .error e := by
  unfold Operator.evaluate at h
  split at h
  · next cause hcause => exact .inl (hcause.trans h)
  · cases h
  · next haccepted => exact .inr ⟨haccepted, h⟩

/-- An operator comes to a verdict if its guard answers, and its comparison does on a value that the
guard accepts. -/
theorem Operator.exists_evaluate {operator : Operator} {fact value : Value}
    (hguard : ∃ accepted, operator.guard fact = .ok accepted)
    (hcompare : operator.guard fact = .ok true →
      ∃ verdict, operator.compare fact value = .ok verdict) :
    ∃ verdict, operator.evaluate fact value = .ok verdict := by
  obtain ⟨accepted, haccepted⟩ := hguard
  rw [evaluate, haccepted]
  cases accepted with
  | false => exact ⟨false, rfl⟩
  | true => exact hcompare haccepted

/-- The decorator makes an operator that fails so from one that does not. -/
def Decorator.Introduces (decorator : Decorator) (e : Error) : Prop :=
  ∃ operator : Operator, ¬ operator.Raises e ∧ (decorator.decorate operator).Raises e

namespace Registry

variable {registry : Registry} {e : Error}

/-- Something in the registry fails so of its own accord. -/
inductive Brings (registry : Registry) (e : Error) : Prop where
  | operator {name : String} {entry : RegistryEntry}
      (found : registry.operators.find? name = some entry) (raises : entry.operator.Raises e)
  | composed {name : String} {entry : RegistryEntry}
      (found : registry.composed.find? name = some entry) (raises : entry.operator.Raises e)
  | decorator {name : String} {decorator : Decorator}
      (found : registry.decorators.find? name = some decorator) (introduces : decorator.Introduces e)

/-- The decorators of a resolution are registered. -/
theorem Resolves.decorators_registered {parts : List String} {found : Resolution}
    (h : Resolves registry parts found) :
    ∀ decorator ∈ found.decorators, ∃ name, registry.decorators.find? name = some decorator := by
  induction h with
  | base => exact fun decorator hdecorator => nomatch hdecorator
  | decorated _ _ _ hfound _ ih => exact List.forall_mem_cons.2 ⟨⟨_, hfound⟩, ih⟩

/-- Putting an operator together brings no other failures, neither into the registry nor into the
operator. -/
theorem Brings.of_compose {base : RegistryEntry} {decorators : List Decorator}
    (hdecorators : ∀ decorator ∈ decorators, ∃ name,
      registry.decorators.find? name = some decorator)
    (hbase : base.operator.Raises e → registry.Brings e) :
    ((registry.compose base decorators).1.operator.Raises e → registry.Brings e) ∧
      ((registry.compose base decorators).2.Brings e → registry.Brings e) := by
  induction decorators with
  | nil => exact ⟨hbase, id⟩
  | cons decorator rest ih =>
      obtain ⟨hinner, hrest⟩ :=
        ih fun other hother => hdecorators other (List.mem_cons_of_mem _ hother)
      obtain ⟨name, hname⟩ := hdecorators decorator List.mem_cons_self
      have hmade : (registry.compose base (decorator :: rest)).1.operator.Raises e →
          registry.Brings e := by
        intro hraises
        by_cases h : (registry.compose base rest).1.operator.Raises e
        · exact hinner h
        · exact .decorator hname ⟨_, h, hraises⟩
      refine ⟨hmade, fun hbrings => ?_⟩
      cases hbrings with
      | operator hfound hraises => exact hrest (.operator hfound hraises)
      | decorator hfound hintroduces => exact hrest (.decorator hfound hintroduces)
      | composed hfound hraises =>
          rcases Table.find?_insertNew hfound with hold | ⟨_, rfl⟩
          · exact hrest (.composed hold hraises)
          · exact hmade hraises

/-- Looking a name up brings no other failures, neither into the registry nor into what is found. -/
theorem Brings.of_lookup (name : String) :
    (∀ entry, (registry.lookup name).1 = .ok entry → entry.operator.Raises e →
      registry.Brings e) ∧
      ((registry.lookup name).2.Brings e → registry.Brings e) := by
  cases hoperator : registry.operators.find? name with
  | some entry =>
      rw [lookup, hoperator]
      refine ⟨fun found hfound hraises => ?_, id⟩
      exact .operator hoperator (Except.ok.inj hfound ▸ hraises)
  | none =>
      cases hcomposed : registry.composed.find? name with
      | some entry =>
          rw [lookup, hoperator, hcomposed]
          refine ⟨fun found hfound hraises => ?_, id⟩
          exact .composed hcomposed (Except.ok.inj hfound ▸ hraises)
      | none =>
          rw [lookup, hoperator, hcomposed]
          cases hresolve : registry.resolve name with
          | error e =>
              refine ⟨fun found hfound => ?_, id⟩
              cases hfound
          | ok found =>
              have hresolves := (resolveSegments_eq_ok_iff name).1 hresolve
              obtain ⟨rest, _, _, hbase⟩ := hresolves.base_registered
              obtain ⟨hmade, hkept⟩ := Brings.of_compose (e := e) hresolves.decorators_registered
                fun hraises => .operator hbase hraises
              exact ⟨fun entry hentry hraises => hmade (Except.ok.inj hentry ▸ hraises), hkept⟩

/-- An operator that is looked up fails as something in the registry does. -/
theorem Brings.of_get {name : String} {operator : Operator}
    (hget : (registry.get name).1 = .ok operator) (hraises : operator.Raises e) :
    registry.Brings e := by
  unfold get at hget
  cases hlookup : (registry.lookup name).1 with
  | error e => simp [hlookup, Except.map] at hget
  | ok entry =>
      simp only [hlookup, Except.map, Except.ok.injEq] at hget
      exact (Brings.of_lookup name).1 entry hlookup (hget ▸ hraises)

end Registry

end Rulebook
