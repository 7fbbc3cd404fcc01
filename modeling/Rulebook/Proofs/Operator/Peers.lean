import Rulebook.Proofs.Condition.Checking
import Rulebook.Proofs.Operator.Builtin

/-!
Registries that cannot be told apart.

As long as no operator is registered under a name of several parts, whatever a registry remembers is
exactly what the names stand for (`Tidy.get_eq`).  So two such registries with the same parts give the
same operators, whatever was looked up in either of them, and go on to do so (`Peers.get_eq`,
`Peers.apply`).
-/

namespace Rulebook.Registry

variable {registry other : Registry}

/-- It came about by what can be done with registries, and every operator was registered under a name
of one part. -/
structure Tidy (registry : Registry) : Prop where
  remembers : Remembers Outdated registry
  plain : ∀ name entry, registry.operators.find? name = some entry → Plain entry.operator.name

theorem Composes.base_registered {parts : List String} {found : Resolution}
    (h : Composes registry parts found) :
    ∃ name, registry.operators.find? name = some found.base := by
  cases h with
  | intro _ _ _ hresolves =>
      obtain ⟨rest, _, _, hbase⟩ := hresolves.base_registered
      exact ⟨join rest, hbase⟩

namespace Tidy

/-- Nothing that is remembered is outdated. -/
theorem exact (h : Tidy registry) : Remembers (fun _ _ => False) registry where
  operatorName := h.remembers.operatorName
  decoratorName := h.remembers.decoratorName
  composed name entry hentry := by
    obtain ⟨hserial, found, hcomposes, hsame⟩ := h.remembers.composed name entry hentry
    refine ⟨hserial, found, hcomposes, .inl (hsame.resolve_right fun houtdated => ?_)⟩
    obtain ⟨base, hbase⟩ := hcomposes.base_registered
    exact h.plain base found.base hbase houtdated.2

/-- A name gives what it stands for, whatever was looked up before. -/
theorem get_eq (h : Tidy registry) (name : String) :
    (registry.get name).1 = (registry.resolve name).map Resolution.operator :=
  h.exact.get_eq name

theorem lookup (h : Tidy registry) (name : String) : Tidy (registry.lookup name).2 where
  remembers := (h.remembers.lookup name).2.2
  plain := by
    rw [lookup_operators]
    exact h.plain

/-- Whatever is done to a registry, it stays tidy, as long as no operator gets a name of several
parts. -/
theorem apply (h : Tidy registry) {act : Act} (hact : act.Modest) : Tidy (act.apply registry) where
  remembers := h.remembers.apply act
  plain name entry hentry := by
    cases act with
    | addOperator operator =>
        have hinsert := (operators_addOperator registry operator name).symm.trans hentry
        split at hinsert
        · cases hinsert
          exact hact
        · exact h.plain name entry hinsert
    | removeOperator removed =>
        have herase : (registry.operators.erase removed).find? name = some entry := hentry
        rw [Table.find?_erase] at herase
        split at herase
        · cases herase
        · exact h.plain name entry herase
    | addDecorator decorator => exact h.plain name entry hentry
    | removeDecorator removed => exact h.plain name entry hentry
    | get known => exact (h.lookup known).plain name entry hentry
    | has known => exact (h.lookup known).plain name entry hentry
    | evaluate known fact value => exact (h.lookup known).plain name entry hentry

end Tidy

theorem tidy_withDefaults : Tidy withDefaults where
  remembers := remembers_withDefaults Outdated
  plain name entry hentry := by
    have hplain : ∀ operator ∈ Builtin.operators, ':' ∉ operator.name.toList := by decide
    exact hplain entry.operator (operators_withDefaults hentry)

/-- Both are tidy, and the same operators and decorators are registered in both. -/
structure Peers (registry other : Registry) : Prop where
  tidy : Tidy registry
  tidy' : Tidy other
  parts : SameParts registry other

namespace Peers

theorem refl (h : Tidy registry) : Peers registry registry :=
  ⟨h, h, .refl registry⟩

/-- They give the same operators. -/
theorem get_eq (h : Peers registry other) (name : String) :
    (registry.get name).1 = (other.get name).1 := by
  rw [h.tidy.get_eq, h.tidy'.get_eq, h.parts.resolve]

theorem has_eq (h : Peers registry other) (name : String) :
    (registry.has name).1 = (other.has name).1 := by
  rw [Registry.has_eq, Registry.has_eq, h.get_eq]

/-- They stay so, whatever is done to both. -/
theorem apply (h : Peers registry other) {act : Act} (hact : act.Modest) :
    Peers (act.apply registry) (act.apply other) :=
  ⟨h.tidy.apply hact, h.tidy'.apply hact, h.parts.apply act⟩

theorem lookup (h : Peers registry other) (name : String) :
    Peers (registry.lookup name).2 (other.lookup name).2 := by
  have hget : (Act.get name).Modest := trivial
  exact h.apply hget

/-- They tell the same about whether they had what is removed. -/
theorem removeOperator_eq (h : Peers registry other) (name : String) :
    (registry.removeOperator name).1 = (other.removeOperator name).1 := by
  have hsame := congrArg Option.isSome (h.parts.operators name)
  rw [Option.isSome_map, Option.isSome_map] at hsame
  exact hsame

theorem removeDecorator_eq (h : Peers registry other) (name : String) :
    (registry.removeDecorator name).1 = (other.removeDecorator name).1 :=
  congrArg Option.isSome (h.parts.decorators name)

end Peers

/-! ### Names given as values -/

/-- Whether a name stands for an operator, by what came of looking it up. -/
def known : Except Error Operator → Except Error Bool
  | .ok _ => .ok true
  | .error (.unknownOperator _) => .ok false
  | .error (.unknownDecorator _ _) => .ok false
  | .error e => .error e

theorem hasValue_eq (registry : Registry) (name : Value) :
    registry.hasValue name =
      (known (registry.getValue name).1, (registry.getValue name).2) := by
  unfold hasValue getValue
  rcases registry.lookupValue name with ⟨e | entry, later⟩
  · cases e <;> rfl
  · rfl

theorem Peers.getValue (h : Peers registry other) (name : Value) :
    (registry.getValue name).1 = (other.getValue name).1 ∧
      Peers (registry.getValue name).2 (other.getValue name).2 := by
  cases name with
  | str name => exact ⟨h.get_eq name, h.lookup name⟩
  | _ => exact ⟨rfl, h⟩

theorem Peers.applyValue_eq (h : Peers registry other) (decorator : Value) (operator : Operator) :
    registry.applyValue decorator operator = other.applyValue decorator operator := by
  cases decorator with
  | str name =>
      dsimp only [applyValue, Registry.apply]
      rw [h.parts.decorators name]
  | _ => rfl

/-! ### Look-ups -/

/-- Building looks up the same names in registries that cannot be told apart. -/
theorem checks_peers : Checks Peers where
  has _ _ h := h.has_eq
  lookup _ _ h := h.lookup

/-- A registry in which names were looked up cannot be told from what it was. -/
theorem Consulted.peers {start : Registry} (h : Consulted (some start) (some registry))
    (hstart : Tidy start) : Peers start registry := by
  generalize hafter : some registry = after at h
  induction h generalizing registry with
  | refl =>
      cases hafter
      exact .refl hstart
  | consult _ name ih =>
      obtain ⟨earlier, hearlier, rfl⟩ := Option.map_eq_some_iff.1 hafter.symm
      have hpeers := ih hearlier.symm
      have hsame := (Act.get name).sameParts_of_not_changes rfl earlier
      exact ⟨hstart, hpeers.tidy'.lookup name, hpeers.parts.trans hsame.symm⟩

end Rulebook.Registry
