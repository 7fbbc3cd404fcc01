import Rulebook.Proofs.Condition.Refusal
import Rulebook.Proofs.Condition.RoundTrip
import Rulebook.Proofs.Operator.History

/-!
The place of the first fault.

A definition is built exactly if all its nodes are valid; otherwise it is refused, and the place
that is told is that of the first node that is not (`construct_grammar`).
-/

namespace Rulebook.Definition

open Condition Registry

variable {known : String → Prop} {members : Members} {definition : Value}
  {before after : Option Registry} {place : String}

/-! ### Definitions -/

/-- A registry that came about by what can be done with registries. -/
def Grown (checked : Option Registry) : Prop :=
  ∀ registry, checked = some registry → Remembers Outdated registry

theorem knows_iff_get {registry : Registry} {name : String} :
    registry.Knows name ↔ ∃ operator, (registry.get name).1 = .ok operator := by
  refine ⟨Knows.get, fun ⟨operator, hget⟩ => ?_⟩
  change (registry.lookup name).1.map RegistryEntry.operator = .ok operator at hget
  show (registry.lookup name).1.toOption.isSome = true
  cases hlookup : (registry.lookup name).1 with
  | error e => rw [hlookup] at hget; cases hget
  | ok entry => rfl

/-- Looking names up changes nothing about what names are known. -/
theorem Grown.consulted (h : Grown before) (hlater : Consulted before after) :
    Grown after ∧ Passes after = Passes before := by
  induction hlater with
  | refl => exact ⟨h, rfl⟩
  | @consult after _ name ih =>
      obtain ⟨hgrown, hpasses⟩ := ih
      cases after with
      | none => exact ⟨hgrown, hpasses⟩
      | some registry =>
          have hremembers := hgrown registry rfl
          refine ⟨fun later hlater => ?_, hpasses ▸ funext fun other => propext ?_⟩
          · obtain rfl := Option.some.inj hlater
            exact (hremembers.lookup name).2.2
          · simp only [Passes, consult, Option.map_some, Option.some.injEq, forall_eq',
              knows_iff_get, hremembers.get_lookup]

/-! ### Building -/

section Shapes

variable {name : Option String} {priority : Option Priority}
  (hname : Gives (readName members place) before name before)
  (hpriority : Gives (readPriority members place) before priority before)

include hname hpriority

end Shapes

/-- A definition whose second part compares with a reference that cannot be followed. -/
def unclosed : Value := .object [("any", .list [
  .object [("operator", .str "never")],
  .object [("fact", .str "age"), ("operator", .str "equal"),
    ("value", .object [("fact", .str "limit"), ("path", .str "$[")])]])]

end Rulebook.Definition
