import Rulebook.Proofs.Condition.Building
import Rulebook.Proofs.Operator.Coherence
import Rulebook.Rule.Basic

/-!
What building does with a registry.

A definition is built or refused by what names stand for, and nothing is done to the registry but
looking names up.  So registries that are related in a way that look-ups respect (`Checks`) give one
result, and stay related, whether the definition is built or refused (`alike_construct`,
`Rule.alike_construct`).  In particular what is registered stays as it was
(`Rule.consulted_construct`, `Registry.Consulted.sameRegistered`).
-/

namespace Rulebook

namespace Registry

/-- Related registries know the same names, and looking a name up in both leaves them related. -/
structure Checks (R : Registry → Registry → Prop) : Prop where
  has : ∀ registry other, R registry other → ∀ name, (registry.has name).1 = (other.has name).1
  lookup : ∀ registry other, R registry other →
    ∀ name, R (registry.lookup name).2 (other.lookup name).2

/-- The same operators and decorators are registered. -/
def SameRegistered (registry other : Registry) : Prop :=
  registry.operators = other.operators ∧ registry.decorators = other.decorators

/-- Look-ups leave what is registered. -/
theorem Consulted.sameRegistered {start registry : Registry}
    (h : Consulted (some start) (some registry)) : SameRegistered registry start := by
  generalize hafter : some registry = after at h
  induction h generalizing registry with
  | refl =>
      cases hafter
      exact ⟨rfl, rfl⟩
  | consult _ name ih =>
      obtain ⟨earlier, hearlier, rfl⟩ := Option.map_eq_some_iff.1 hafter.symm
      obtain ⟨hoperators, hdecorators⟩ := ih hearlier.symm
      exact ⟨(lookup_operators earlier name).trans hoperators,
        (lookup_decorators earlier name).trans hdecorators⟩

/-- A registry beside itself, with the look-ups so far. -/
theorem checks_consulted (start : Registry) :
    Checks fun registry other => registry = other ∧ Consulted (some start) (some registry) where
  has _ _ h name := by rw [h.1]
  lookup _ _ h name := ⟨by rw [h.1], h.2.consult name⟩

end Registry

open Registry

namespace Build

variable {R : Registry → Registry → Prop} {α β : Type} {cause : BuildCause} {place : String}

/-- Run with related registries, the step has one result, and it leaves related registries. -/
def Alike (R : Registry → Registry → Prop) (step : Build α) : Prop :=
  ∀ registry other, R registry other → ∃ result later later',
    step.run (some registry) = (result, some later) ∧
      step.run (some other) = (result, some later') ∧ R later later'

namespace Alike

theorem pure (a : α) : Alike R (pure a : Build α) :=
  fun registry other h => ⟨.ok a, registry, other, rfl, rfl, h⟩

theorem throw (e : Error) : Alike R (throw e : Build α) :=
  fun registry other h => ⟨.error e, registry, other, rfl, rfl, h⟩

theorem refuse : Alike R (Build.refuse cause place : Build α) :=
  throw _

theorem require (holds : Bool) : Alike R (Build.require holds cause place) := by
  cases holds with
  | true => exact pure ()
  | false => exact refuse

theorem bind {step : Build α} {next : α → Build β} (hstep : Alike R step)
    (hnext : ∀ a, Alike R (next a)) : Alike R (step >>= next) := by
  intro registry other h
  obtain ⟨result, later, later', hfirst, hsecond, hlater⟩ := hstep registry other h
  rw [run_bind, run_bind, hfirst, hsecond]
  cases result with
  | error e => exact ⟨.error e, later, later', rfl, rfl, hlater⟩
  | ok a => exact hnext a later later' hlater

theorem isKnown (hchecks : Checks R) (operator : String) : Alike R (Build.isKnown operator) := by
  intro registry other h
  refine ⟨.ok (registry.has operator).1, _, _, rfl, ?_, hchecks.lookup registry other h operator⟩
  rw [hchecks.has registry other h operator]
  rfl

end Alike

end Build

namespace Condition

open Build

variable {R : Registry → Registry → Prop} {members : Members} {place : String}

theorem alike_readName : Alike R (readName members place) := by
  unfold readName
  split
  · exact .pure _
  · exact .pure _
  · exact .pure _
  · exact .refuse

theorem alike_readPriority : Alike R (readPriority members place) := by
  unfold readPriority
  split
  · exact .pure _
  · split
    · exact .pure _
    · exact .refuse

theorem alike_readPath (path : Option Value) : Alike R (readPath path place) := by
  unfold readPath
  split
  · exact .pure _
  · exact .pure _
  · split
    · exact .pure _
    · exact .refuse
    · exact .throw _
  · exact .refuse

theorem alike_readText (value : Value) (cause : BuildCause) :
    Alike R (readText value cause place) := by
  unfold readText
  split
  · split
    · exact .refuse
    · exact .pure _
  · exact .refuse

theorem alike_readParams : Alike R (readParams members place) := by
  unfold readParams
  split
  · exact .pure _
  · exact .pure _
  · exact .pure _
  · exact .refuse

theorem alike_checkValue (value : Value) : Alike R (checkValue value place) := by
  unfold checkValue
  split
  · exact .pure _
  · exact .bind (.require _) fun _ => .bind (alike_readPath _) fun _ => .pure _

theorem alike_readLeaf (hchecks : Checks R) : Alike R (readLeaf members place) := by
  unfold readLeaf
  split
  · refine .bind (alike_readText _ _) fun fact => .bind (alike_readText _ _) fun operator => ?_
    refine .bind (.isKnown hchecks operator) fun known => .bind (.require known) fun _ => ?_
    refine .bind alike_readParams fun params => .bind (alike_readPath _) fun path => ?_
    exact .bind (alike_checkValue _) fun _ => .pure _
  · exact .refuse

/-- The definitions of a list are built one after the other. -/
theorem alike_buildEach {items : List Value} (h : ∀ item ∈ items, ∀ place,
    Alike R (build item place)) (index : Nat) : Alike R (buildEach items place index) := by
  induction items generalizing index with
  | nil =>
      rw [buildEach]
      exact .pure _
  | cons item rest ih =>
      obtain ⟨hitem, hrest⟩ := List.forall_mem_cons.1 h
      rw [buildEach]
      exact .bind (hitem _) fun _ => .bind (ih hrest _) fun _ => .pure _

/-- Building a definition, whatever its shape. -/
theorem alike_build (hchecks : Checks R) (definition : Value) (place : String) :
    Alike R (build definition place) := by
  induction hsize : sizeOf definition using Nat.strongRecOn generalizing definition place with
  | _ size ih =>
      subst hsize
      cases definition with
      | object members =>
          have hitems : ∀ {children : Value} {items : List Value},
              sizeOf children < 1 + sizeOf members → children.array? = some items →
                ∀ item ∈ items, ∀ place, Alike R (build item place) := by
            intro children items hchildren harray item hitem place
            have hitem := List.sizeOf_lt_of_mem hitem
            have harray := sizeOf_array?_lt harray
            refine ih (sizeOf item) ?_ item place rfl
            simp only [Value.object.sizeOf_spec]
            omega
          rw [build]
          refine .bind alike_readName fun name => .bind alike_readPriority fun priority => ?_
          split
          · next hshape =>
              split
              · next harray =>
                  exact .bind (alike_buildEach (hitems (sizeOf_all_lt hshape) harray) 0)
                    fun _ => .pure _
              · exact .refuse
          · next hshape =>
              split
              · next harray =>
                  exact .bind (alike_buildEach (hitems (sizeOf_any_lt hshape) harray) 0)
                    fun _ => .pure _
              · exact .refuse
          · next child hshape =>
              have hchild := sizeOf_not_lt hshape
              refine .bind (.require _) fun _ => .bind (ih (sizeOf child) ?_ child _ rfl) fun _ =>
                .pure _
              simp only [Value.object.sizeOf_spec]
              omega
          · exact .bind (alike_readText _ _) fun _ => .pure _
          · split
            · exact .pure _
            · exact .bind (alike_readLeaf hchecks) fun _ => .pure _
          · exact .refuse
      | _ =>
          rw [build]
          · exact .refuse
          · nofun

theorem alike_construct (hchecks : Checks R) (definition : Value) :
    Alike R (ofDefinition definition) := by
  unfold ofDefinition
  split
  · split
    · exact alike_build hchecks _ _
    · exact .throw _
  · exact alike_build hchecks _ _

end Condition

theorem Rule.alike_construct {R : Registry → Registry → Prop} (hchecks : Checks R)
    (definition : Value) : Build.Alike R (Rule.build definition) := by
  unfold Rule.build
  split
  · exact .throw _
  · split
    · exact .throw _
    · exact .bind (Condition.alike_build hchecks _ _) fun _ => .pure _

/-- Building a rule does nothing to the registry but looking names up. -/
theorem Rule.consulted_construct (registry : Registry) (definition : Value) :
    ∃ later, (Rule.construct (some registry) definition).2 = some later ∧
      Consulted (some registry) (some later) := by
  obtain ⟨_, later, _, hrun, _, _, hlater⟩ :=
    Rule.alike_construct (checks_consulted registry) definition registry registry ⟨rfl, .refl _⟩
  exact ⟨later, congrArg Prod.snd hrun, hlater⟩

/-- Building a condition does nothing to the registry but looking names up. -/
theorem Condition.consulted_construct (registry : Registry) (definition : Value) :
    ∃ later, (Condition.construct (some registry) definition).2 = some later ∧
      Consulted (some registry) (some later) := by
  obtain ⟨_, later, _, hrun, _, _, hlater⟩ :=
    Condition.alike_construct (checks_consulted registry) definition registry registry
      ⟨rfl, .refl _⟩
  exact ⟨later, congrArg Prod.snd hrun, hlater⟩

end Rulebook
