import Rulebook.Proofs.Operator.Resolution

/-!
Remembered compositions.

`Remembers` says how far the compositions that a registry remembers are those that its operators and
decorators make now.  Looking names up keeps that (`Remembers.lookup`), and so does every change of
the registry, except that a composition may be outdated when an operator is registered whose name
has several parts (`Remembers.addOperator`).
-/

namespace Rulebook.Registry

variable {registry changed : Registry} {parts : List String} {found : Resolution}
  {excuse : RegistryEntry → Resolution → Prop}

/-- Everything stands under its name, and what is remembered under a name is what its parts make, or
has an excuse. -/
structure Remembers (excuse : RegistryEntry → Resolution → Prop) (registry : Registry) : Prop where
  operatorName : ∀ name entry, registry.operators.find? name = some entry →
    entry.operator.name = name
  decoratorName : ∀ name decorator, registry.decorators.find? name = some decorator →
    decorator.name = name
  composed : ∀ name entry, registry.composed.find? name = some entry →
    entry.serial < registry.nextSerial ∧ ∃ found, Composes registry (segments name) found ∧
      (entry.operator = found.operator ∨ excuse entry found)

theorem remembers_empty (excuse : RegistryEntry → Resolution → Prop) : Remembers excuse empty where
  operatorName _ _ h := nomatch h
  decoratorName _ _ h := nomatch h
  composed _ _ h := nomatch h

/-- A registry with the same operators and decorators that remembers nothing. -/
def cleared (registry : Registry) : Registry := { registry with composed := [] }

theorem Remembers.cleared (h : Remembers excuse registry)
    (other : RegistryEntry → Resolution → Prop) : Remembers other registry.cleared where
  operatorName := h.operatorName
  decoratorName := h.decoratorName
  composed _ _ hentry := nomatch hentry

/-! ### Looking names up -/

/-- A new composition is remembered under its name. -/
theorem Remembers.insertNew (h : Remembers excuse registry) {name : String} {operator : Operator}
    (hcomposes : Composes registry (segments name) found) (hoperator : operator = found.operator) :
    Remembers excuse { registry with
      composed := registry.composed.insertNew name ⟨operator, registry.nextSerial⟩
      nextSerial := registry.nextSerial + 1 } where
  operatorName := h.operatorName
  decoratorName := h.decoratorName
  composed other entry hentry := by
    rcases Table.find?_insertNew hentry with hold | ⟨rfl, rfl⟩
    · obtain ⟨hserial, found, hfound, hsame⟩ := h.composed other entry hold
      exact ⟨Nat.lt_succ_of_lt hserial, found,
        hfound.frame (fun _ _ _ _ _ => rfl) fun _ _ => rfl, hsame⟩
    · exact ⟨Nat.lt_succ_self _, found,
        hcomposes.frame (fun _ _ _ _ _ => rfl) fun _ _ => rfl, .inl hoperator⟩

/-- Wrapping a base in its decorators makes the operator that was resolved, under its name. -/
theorem Remembers.compose (h : Remembers excuse registry) (hplain : ∀ part ∈ parts, Plain part)
    (hresolves : Resolves registry parts found) :
    (registry.compose found.base found.decorators).1.operator = found.operator ∧
      found.operator.name = join parts ∧
      (registry.compose found.base found.decorators).2.operators = registry.operators ∧
      (registry.compose found.base found.decorators).2.decorators = registry.decorators ∧
      Remembers excuse (registry.compose found.base found.decorators).2 := by
  induction hresolves with
  | base _ hfound => exact ⟨rfl, h.operatorName _ _ hfound, rfl, rfl, h⟩
  | @decorated part rest decorator inner hnone hmore hnamed hfound hresolves ih =>
      obtain ⟨hoperator, hname, hoperators, hdecorators, hremembers⟩ :=
        ih fun part hpart => hplain part (List.mem_cons_of_mem _ hpart)
      have hjoin : (decorator.decorate inner.operator).name = join (part :: rest) := by
        rw [join_cons hmore, ← hname, ← h.decoratorName _ _ hfound]
        rfl
      have hsegments : segments (join (part :: rest)) = part :: rest :=
        segments_join (List.cons_ne_nil _ _) hplain
      cases hcompose : registry.compose inner.base inner.decorators with
      | mk entry next =>
          rw [hcompose] at hoperator hoperators hdecorators hremembers
          rw [Registry.compose, hcompose]
          have hcomposes :
              Composes next (part :: rest) ⟨decorator :: inner.decorators, inner.base⟩ := by
            refine (Composes.intro hmore hnamed hfound hresolves).frame (fun _ _ _ _ _ => ?_)
              fun _ _ => ?_
            · rw [hoperators]
            · rw [hdecorators]
          refine ⟨congrArg decorator.decorate hoperator, hjoin, hoperators, hdecorators, ?_⟩
          rw [← hsegments, ← hjoin] at hcomposes
          have hinsert := hremembers.insertNew hcomposes rfl
          have hsame : entry.operator = inner.operator := hoperator
          dsimp only
          rw [hsame]
          exact hinsert

/-- Looking a name up changes what is remembered only. -/
theorem Remembers.lookup (h : Remembers excuse registry) (name : String) :
    (registry.lookup name).2.operators = registry.operators ∧
      (registry.lookup name).2.decorators = registry.decorators ∧
      Remembers excuse (registry.lookup name).2 := by
  unfold Registry.lookup
  split
  · exact ⟨rfl, rfl, h⟩
  · split
    · exact ⟨rfl, rfl, h⟩
    · split
      · exact ⟨rfl, rfl, h⟩
      · next found hfound =>
          obtain ⟨_, _, hoperators, hdecorators, hremembers⟩ := h.compose
            (fun part hpart => plain_of_mem_segments hpart)
            ((resolveSegments_eq_ok_iff name).1 hfound)
          exact ⟨hoperators, hdecorators, hremembers⟩

/-- Whoever is not given what is remembered is given what the name stands for. -/
theorem Remembers.get_of_not_remembered (h : Remembers excuse registry) (name : String)
    (hname : registry.operators.find? name ≠ none ∨ registry.composed.find? name = none) :
    (registry.get name).1 = (registry.resolve name).map Resolution.operator := by
  unfold Registry.get Registry.lookup
  cases hoperator : registry.operators.find? name with
  | some entry =>
      have hresolves : Resolves registry (segments name) ⟨[], entry⟩ :=
        .base (segments_ne_nil name) (by rw [join_segments, hoperator])
      rw [resolve, (resolveSegments_eq_ok_iff name).2 hresolves]
      rfl
  | none =>
      rw [hname.resolve_left fun hne => hne hoperator]
      cases hresolve : registry.resolve name with
      | error e => rfl
      | ok found =>
          obtain ⟨hsame, _⟩ := h.compose (fun part hpart => plain_of_mem_segments hpart)
            ((resolveSegments_eq_ok_iff name).1 hresolve)
          exact congrArg Except.ok hsame

/-- Whoever is given what is remembered is given what the name stands for, or there is an
excuse. -/
theorem Remembers.get_of_remembered (h : Remembers excuse registry) {name : String}
    {entry : RegistryEntry} (hnone : registry.operators.find? name = none)
    (hentry : registry.composed.find? name = some entry) :
    (registry.get name).1 = .ok entry.operator ∧ ∃ found, registry.resolve name = .ok found ∧
      (entry.operator = found.operator ∨ excuse entry found) := by
  obtain ⟨_, found, hcomposes, hsame⟩ := h.composed name entry hentry
  have hresolves := hcomposes.resolves (by rw [join_segments, hnone])
  refine ⟨?_, found, (resolveSegments_eq_ok_iff name).2 hresolves, hsame⟩
  rw [Registry.get, Registry.lookup, hnone, hentry]
  rfl

/-- What a registry remembers without excuses is no different from what names stand for. -/
theorem Remembers.get_eq (h : Remembers (fun _ _ => False) registry) (name : String) :
    (registry.get name).1 = (registry.resolve name).map Resolution.operator := by
  cases hnone : registry.operators.find? name with
  | some entry =>
      have hsome : registry.operators.find? name ≠ none := by
        rw [hnone]
        exact Option.some_ne_none _
      exact h.get_of_not_remembered name (.inl hsome)
  | none =>
      cases hentry : registry.composed.find? name with
      | none => exact h.get_of_not_remembered name (.inr hentry)
      | some entry =>
          obtain ⟨hget, found, hresolve, hsame⟩ := h.get_of_remembered hnone hentry
          rw [hget, hresolve, hsame.resolve_right not_false]
          rfl

/-- What a name stands for depends on what is registered only. -/
theorem resolve_congr (hoperators : changed.operators = registry.operators)
    (hdecorators : changed.decorators = registry.decorators) (name : String) :
    changed.resolve name = registry.resolve name := by
  unfold resolve
  induction segments name with
  | nil => rfl
  | cons part rest ih => rw [resolveSegments, resolveSegments, hoperators, hdecorators, ih]

/-- What is remembered does not matter to what a name stands for. -/
theorem Remembers.get_cleared (h : Remembers excuse registry) (name : String) :
    (registry.cleared.get name).1 = (registry.resolve name).map Resolution.operator := by
  have hoperators : registry.cleared.operators = registry.operators := rfl
  have hdecorators : registry.cleared.decorators = registry.decorators := rfl
  have hresolve := resolve_congr hoperators hdecorators name
  rw [(h.cleared excuse).get_of_not_remembered name (.inr rfl), hresolve]

/-! ### Changes -/

/-- A composition that was put together before its base was registered, under a name of several
parts. -/
def Outdated (entry : RegistryEntry) (found : Resolution) : Prop :=
  entry.serial < found.base.serial ∧ ':' ∈ found.base.operator.name.toList

theorem Remembers.named (h : Remembers excuse registry) : Named registry :=
  ⟨h.operatorName, h.decoratorName⟩

/-- Registering an operator outdates compositions at most. -/
theorem Remembers.addOperator (h : Remembers Outdated registry) (operator : Operator) :
    Remembers Outdated (registry.addOperator operator) where
  operatorName := (h.named.addOperator operator).operator
  decoratorName := h.decoratorName
  composed name entry hentry := by
    obtain ⟨hold, hlast⟩ := find?_forget hentry
    obtain ⟨hserial, found, hcomposes, hsame⟩ := h.composed name entry hold
    refine ⟨Nat.lt_succ_of_lt hserial, ?_⟩
    rcases hcomposes.addOperator operator with
      hkept | ⟨decorators, rest, hsome, hsuffix, hjoin, hnew⟩
    · exact ⟨found, hkept, hsame⟩
    · refine ⟨_, hnew, .inr ⟨hserial, ?_⟩⟩
      refine Classical.byContradiction fun hplain => ?_
      rw [lastSegment_of_join_suffix hplain hsome hsuffix hjoin, beq_self_eq_true] at hlast
      cases hlast

/-- Removing an operator leaves no composition with it. -/
theorem Remembers.removeOperator (h : Remembers excuse registry) (name : String) :
    Remembers excuse (registry.removeOperator name).2 where
  operatorName := (h.named.removeOperator name).operator
  decoratorName := h.decoratorName
  composed other entry hentry := by
    obtain ⟨hold, hoperators⟩ := kept_removeOperator hentry
    obtain ⟨hserial, found, hcomposes, hsame⟩ := h.composed other entry hold
    exact ⟨hserial, found, hcomposes.frame hoperators fun _ _ => rfl, hsame⟩

/-- Registering a decorator leaves no composition with that of the same name. -/
theorem Remembers.addDecorator (h : Remembers excuse registry) (decorator : Decorator) :
    Remembers excuse (registry.addDecorator decorator) where
  operatorName := h.operatorName
  decoratorName := (h.named.addDecorator decorator).decorator
  composed name entry hentry := by
    obtain ⟨hold, hdecorators⟩ := kept_addDecorator hentry
    obtain ⟨hserial, found, hcomposes, hsame⟩ := h.composed name entry hold
    exact ⟨hserial, found, hcomposes.frame (fun _ _ _ _ _ => rfl) hdecorators, hsame⟩

/-- Removing a decorator leaves no composition with it. -/
theorem Remembers.removeDecorator (h : Remembers excuse registry) (name : String) :
    Remembers excuse (registry.removeDecorator name).2 where
  operatorName := h.operatorName
  decoratorName := (h.named.removeDecorator name).decorator
  composed other entry hentry := by
    obtain ⟨hold, hdecorators⟩ := kept_removeDecorator hentry
    obtain ⟨hserial, found, hcomposes, hsame⟩ := h.composed other entry hold
    exact ⟨hserial, found, hcomposes.frame (fun _ _ _ _ _ => rfl) hdecorators, hsame⟩

end Rulebook.Registry
