import Rulebook.Proofs.Operator.Composition

/-!
Names that a registry knows.

Looking names up changes nothing but what the registry remembers, and it only ever remembers more.
So a name that stood for an operator once still does after any number of look-ups
(`Consulted.passes`), and it stands for the one that it stood for (`Remembers.get_lookup`).
-/

namespace Rulebook.Registry

variable {registry : Registry} {name : String}

/-- The name stands for an operator. -/
def Knows (registry : Registry) (name : String) : Prop := (registry.has name).1 = true

/-- A name is known if it is registered or remembered, or if it can be put together. -/
theorem knows_iff : registry.Knows name ↔ registry.operators.has name = true ∨
    registry.composed.has name = true ∨ ∃ found, registry.resolve name = .ok found := by
  rw [Knows, has, lookup, Table.has, Table.has]
  cases registry.operators.find? name with
  | some entry => simp [Except.toOption]
  | none =>
      cases registry.composed.find? name with
      | some entry => simp [Except.toOption]
      | none =>
          cases registry.resolve name with
          | error e => simp [Except.toOption]
          | ok found => simp [Except.toOption]

/-- The operator of a name that is known is found. -/
theorem Knows.get (h : registry.Knows name) : ∃ operator, (registry.get name).1 = .ok operator := by
  unfold Knows has at h
  cases hlookup : (registry.lookup name).1 with
  | error e => simp [hlookup, Except.toOption] at h
  | ok entry => exact ⟨entry.operator, congrArg (Except.map RegistryEntry.operator) hlookup⟩

theorem compose_operators (registry : Registry) (base : RegistryEntry)
    (decorators : List Decorator) :
    (registry.compose base decorators).2.operators = registry.operators := by
  induction decorators with
  | nil => rfl
  | cons decorator rest ih => exact ih

theorem compose_decorators (registry : Registry) (base : RegistryEntry)
    (decorators : List Decorator) :
    (registry.compose base decorators).2.decorators = registry.decorators := by
  induction decorators with
  | nil => rfl
  | cons decorator rest ih => exact ih

theorem compose_composed_has (base : RegistryEntry) (decorators : List Decorator)
    (h : registry.composed.has name = true) :
    (registry.compose base decorators).2.composed.has name = true := by
  induction decorators with
  | nil => exact h
  | cons decorator rest ih => exact Table.has_insertNew _ _ ih

/-- What a look-up does to a registry: nothing, or it puts an operator together. -/
theorem lookup_snd (registry : Registry) (name : String) :
    (registry.lookup name).2 = registry ∨ ∃ base decorators,
      (registry.lookup name).2 = (registry.compose base decorators).2 := by
  rw [lookup]
  split
  · exact .inl rfl
  · split
    · exact .inl rfl
    · split
      · exact .inl rfl
      · next found _ => exact .inr ⟨found.base, found.decorators, rfl⟩

/-- A name that is known stays known while others are looked up. -/
theorem Knows.lookup (h : registry.Knows name) (other : String) :
    (registry.lookup other).2.Knows name := by
  rcases lookup_snd registry other with hsame | ⟨base, decorators, hcompose⟩
  · rwa [hsame]
  · rw [hcompose]
    have hoperators := compose_operators registry base decorators
    have hresolve := resolve_congr hoperators (compose_decorators registry base decorators) name
    rcases knows_iff.1 h with hregistered | hremembered | hfound
    · exact knows_iff.2 (.inl (hoperators ▸ hregistered))
    · exact knows_iff.2 (.inr (.inl (compose_composed_has base decorators hremembered)))
    · exact knows_iff.2 (.inr (.inr (hresolve ▸ hfound)))

/-- What operators are checked against, after a name was looked up in it. -/
def consult (checked : Option Registry) (name : String) : Option Registry :=
  checked.map fun registry => (registry.lookup name).2

/-- What operators are checked against, with nothing done to it but looking names up. -/
inductive Consulted : Option Registry → Option Registry → Prop where
  | refl (checked : Option Registry) : Consulted checked checked
  | consult {before after : Option Registry} (consulted : Consulted before after)
      (name : String) : Consulted before (consult after name)

theorem Consulted.trans {before between after : Option Registry} (h : Consulted before between)
    (hthen : Consulted between after) : Consulted before after := by
  induction hthen with
  | refl => exact h
  | consult _ name ih => exact ih.consult name

/-- The operator passes the check; without a registry every operator does. -/
def Passes (checked : Option Registry) (name : String) : Prop :=
  ∀ registry, checked = some registry → registry.Knows name

/-- Looking names up takes no operator away. -/
theorem Consulted.passes {before after : Option Registry} (h : Consulted before after)
    (hname : Passes before name) : Passes after name := by
  induction h with
  | refl => exact hname
  | consult _ other ih =>
      intro registry hregistry
      obtain ⟨earlier, hearlier, rfl⟩ := Option.map_eq_some_iff.1 hregistry
      exact (ih earlier hearlier).lookup other

/-! ### Look-ups change no answer -/

/-- A registry remembers more than another, and what it remembers in addition is what names stand
for. -/
structure Recalls (registry later : Registry) : Prop where
  operators : later.operators = registry.operators
  decorators : later.decorators = registry.decorators
  kept : ∀ name entry, registry.composed.find? name = some entry →
    later.composed.find? name = some entry
  added : ∀ name entry, later.composed.find? name = some entry →
    registry.composed.find? name = some entry ∨
      ∃ found, Composes registry (segments name) found ∧ entry.operator = found.operator

theorem Recalls.refl (registry : Registry) : Recalls registry registry :=
  ⟨rfl, rfl, fun _ _ h => h, fun _ _ h => .inl h⟩

variable {parts : List String} {found : Resolution} {excuse : RegistryEntry → Resolution → Prop}
  {later : Registry}

/-- Wrapping a base in its decorators makes the registry remember what was put together. -/
theorem Remembers.recalls_compose (h : Remembers excuse registry)
    (hplain : ∀ part ∈ parts, Plain part) (hresolves : Resolves registry parts found) :
    Recalls registry (registry.compose found.base found.decorators).2 := by
  induction hresolves with
  | base _ _ => exact .refl registry
  | @decorated part rest decorator inner hnone hmore hnamed hfound hresolves ih =>
      have hrest : ∀ part ∈ rest, Plain part := fun part hpart =>
        hplain part (List.mem_cons_of_mem _ hpart)
      obtain ⟨hoperator, hname, -⟩ := h.compose hrest hresolves
      have hrecalls := ih hrest
      have hjoin : (decorator.decorate inner.operator).name = join (part :: rest) := by
        rw [join_cons hmore, ← hname, ← h.decoratorName _ _ hfound]
        rfl
      have hsegments : segments (join (part :: rest)) = part :: rest :=
        segments_join (List.cons_ne_nil _ _) hplain
      cases hcompose : registry.compose inner.base inner.decorators with
      | mk entry next =>
          rw [hcompose] at hoperator hrecalls
          rw [Registry.compose, hcompose]
          dsimp only at hoperator ⊢
          rw [hoperator]
          refine ⟨hrecalls.operators, hrecalls.decorators, fun name known hknown =>
            Table.find?_insertNew_of_some _ _ (hrecalls.kept name known hknown),
            fun name known hknown => ?_⟩
          rcases Table.find?_insertNew hknown with hold | ⟨rfl, rfl⟩
          · exact hrecalls.added name known hold
          · rw [hjoin, hsegments]
            exact .inr ⟨_, .intro hmore hnamed hfound hresolves, rfl⟩

theorem Remembers.recalls_lookup (h : Remembers excuse registry) (name : String) :
    Recalls registry (registry.lookup name).2 := by
  unfold Registry.lookup
  split
  · exact .refl registry
  · split
    · exact .refl registry
    · split
      · exact .refl registry
      · next found hfound =>
          exact h.recalls_compose (fun part hpart => plain_of_mem_segments hpart)
            ((resolveSegments_eq_ok_iff name).1 hfound)

/-- A name stands for the same operator, whether more is remembered or not. -/
theorem Recalls.get_eq (hrecalls : Recalls registry later) (h : Remembers excuse registry)
    (hlater : Remembers excuse later) (name : String) :
    (later.get name).1 = (registry.get name).1 := by
  have hresolve := resolve_congr hrecalls.operators hrecalls.decorators name
  cases hoperator : registry.operators.find? name with
  | some entry =>
      rw [hlater.get_of_not_remembered name (.inl (by simp [hrecalls.operators, hoperator])),
        h.get_of_not_remembered name (.inl (by simp [hoperator])), hresolve]
  | none =>
      have hnone : later.operators.find? name = none := hrecalls.operators ▸ hoperator
      cases hlast : later.composed.find? name with
      | none =>
          have hfirst : registry.composed.find? name = none := by
            cases hfirst : registry.composed.find? name with
            | none => rfl
            | some entry => cases (hrecalls.kept name entry hfirst).symm.trans hlast
          rw [hlater.get_of_not_remembered name (.inr hlast),
            h.get_of_not_remembered name (.inr hfirst), hresolve]
      | some entry =>
          rw [(hlater.get_of_remembered hnone hlast).1]
          cases hfirst : registry.composed.find? name with
          | some known =>
              obtain rfl := Option.some.inj (hlast.symm.trans (hrecalls.kept name known hfirst))
              rw [(h.get_of_remembered hoperator hfirst).1]
          | none =>
              rcases hrecalls.added name entry hlast with hold | ⟨found, hcomposes, hsame⟩
              · cases hold.symm.trans hfirst
              · have hresolves := hcomposes.resolves (by rw [join_segments, hoperator])
                rw [h.get_of_not_remembered name (.inr hfirst), resolve,
                  (resolveSegments_eq_ok_iff name).2 hresolves, hsame]
                rfl

/-- Looking a name up does not change what the others stand for. -/
theorem Remembers.get_lookup (h : Remembers excuse registry) (name other : String) :
    ((registry.lookup name).2.get other).1 = (registry.get other).1 :=
  (h.recalls_lookup name).get_eq h (h.lookup name).2.2 other

end Rulebook.Registry
