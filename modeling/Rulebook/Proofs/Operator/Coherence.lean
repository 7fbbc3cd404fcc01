import Rulebook.Proofs.Operator.History
import Rulebook.Proofs.Operator.Known

/-!
Coherent registries.

A registry is coherent when whatever it remembers behaves as what would be put together now.
Looking names up keeps a registry coherent, and so does every change but one: an operator may not be
registered under a name of several parts (`coherent_acts`).  So as long as nobody does that, what
was looked up before makes no difference to any answer.
-/

namespace Rulebook.Registry

variable {registry changed other : Registry} {parts : List String} {found : Resolution}

/-- What is remembered under a name is not registered, and it behaves as what the name stands for
when nothing is remembered. -/
structure Coherent (registry : Registry) : Prop where
  unregistered : ∀ name entry, registry.composed.find? name = some entry →
    registry.operators.find? name = none
  agrees : ∀ name entry, registry.composed.find? name = some entry →
    Agree (.ok entry.operator) (registry.cleared.get name).1

/-- The name is not registered and stands for an operator that behaves as the entry does. -/
def Backs (registry : Registry) (name : String) (entry : RegistryEntry) : Prop :=
  registry.operators.find? name = none ∧ ∃ found, Resolves registry (segments name) found ∧
    Agree (.ok entry.operator) (.ok found.operator)

theorem Named.get_cleared (h : Named registry) (name : String) :
    (registry.cleared.get name).1 = (registry.resolve name).map Resolution.operator := by
  have hremembers : Remembers (fun _ _ => False) registry.cleared :=
    { operatorName := h.operator, decoratorName := h.decorator, composed := fun _ _ h => nomatch h }
  have hoperators : registry.cleared.operators = registry.operators := rfl
  have hresolve := resolve_congr hoperators rfl name
  rw [hremembers.get_eq name, hresolve]

theorem Named.coherent_iff (h : Named registry) : Coherent registry ↔
    ∀ name entry, registry.composed.find? name = some entry → Backs registry name entry := by
  constructor
  · intro hcoherent name entry hentry
    refine ⟨hcoherent.unregistered name entry hentry, ?_⟩
    have hagrees := hcoherent.agrees name entry hentry
    rw [h.get_cleared name] at hagrees
    cases hresolve : registry.resolve name with
    | error e =>
        rw [hresolve] at hagrees
        exact hagrees.elim
    | ok found =>
        rw [hresolve] at hagrees
        exact ⟨found, (resolveSegments_eq_ok_iff name).1 hresolve, hagrees⟩
  · intro hbacks
    refine ⟨fun name entry hentry => (hbacks name entry hentry).1, fun name entry hentry => ?_⟩
    obtain ⟨_, found, hresolves, hagrees⟩ := hbacks name entry hentry
    have hresolve : registry.resolve name = .ok found :=
      (resolveSegments_eq_ok_iff name).2 hresolves
    rw [h.get_cleared name, hresolve]
    exact hagrees

/-! ### Looking names up -/

/-- Wrapping a base in its decorators remembers nothing but what names stand for that are not
registered. -/
theorem Named.compose (h : Named registry) (hplain : ∀ part ∈ parts, Plain part)
    (hresolves : Resolves registry parts found) :
    (registry.compose found.base found.decorators).1.operator = found.operator ∧
      found.operator.name = join parts ∧ ∀ name entry,
        (registry.compose found.base found.decorators).2.composed.find? name = some entry →
          registry.composed.find? name = some entry ∨ Backs registry name entry := by
  induction hresolves with
  | base _ hfound => exact ⟨rfl, h.operator _ _ hfound, fun _ _ hentry => .inl hentry⟩
  | @decorated part rest decorator inner hnone hmore hnamed hfound hresolves ih =>
      obtain ⟨hoperator, hname, hadded⟩ :=
        ih fun part hpart => hplain part (List.mem_cons_of_mem _ hpart)
      have hwrapped : (registry.compose inner.base (decorator :: inner.decorators)).1.operator =
          decorator.decorate inner.operator := congrArg decorator.decorate hoperator
      have hjoin : (decorator.decorate inner.operator).name = join (part :: rest) := by
        rw [join_cons hmore, ← hname, ← h.decorator _ _ hfound]
        rfl
      refine ⟨hwrapped, hjoin, fun name entry hentry => ?_⟩
      rcases Table.find?_insertNew hentry with hold | ⟨hkey, hnew⟩
      · exact hadded name entry hold
      · right
        -- The new composition is remembered under the parts that were read, joined again.
        have hparts : name = join (part :: rest) := by
          rw [← hkey, hoperator, hjoin]
        have hsegments : segments name = part :: rest := by
          rw [hparts]
          exact segments_join (List.cons_ne_nil _ _) hplain
        have hentryOperator : entry.operator = decorator.decorate inner.operator := by
          rw [hnew, ← hwrapped]
          rfl
        refine ⟨hparts ▸ hnone, ⟨decorator :: inner.decorators, inner.base⟩, ?_, ?_⟩
        · rw [hsegments]
          exact .decorated hnone hmore hnamed hfound hresolves
        · rw [hentryOperator]
          exact agree_refl _

theorem Named.of_eq (h : Named registry) (hoperators : changed.operators = registry.operators)
    (hdecorators : changed.decorators = registry.decorators) : Named changed where
  operator := hoperators ▸ h.operator
  decorator := hdecorators ▸ h.decorator

theorem lookup_operators (registry : Registry) (name : String) :
    (registry.lookup name).2.operators = registry.operators := by
  rcases lookup_snd registry name with hsame | ⟨base, decorators, hcompose⟩
  · rw [hsame]
  · rw [hcompose, compose_operators]

theorem lookup_decorators (registry : Registry) (name : String) :
    (registry.lookup name).2.decorators = registry.decorators := by
  rcases lookup_snd registry name with hsame | ⟨base, decorators, hcompose⟩
  · rw [hsame]
  · rw [hcompose, compose_decorators]

theorem Named.lookup (h : Named registry) (name : String) : Named (registry.lookup name).2 :=
  h.of_eq (lookup_operators registry name) (lookup_decorators registry name)

/-- What backs an entry depends on the operators named by what is left of the name, and on the
decorators named by its parts before the last. -/
theorem Backs.frame {name : String} {entry : RegistryEntry} (h : Backs registry name entry)
    (hoperators : ∀ rest, rest ≠ [] → rest <:+ segments name →
      changed.operators.find? (join rest) = registry.operators.find? (join rest))
    (hdecorators : ∀ part ∈ leadingSegments name,
      changed.decorators.find? part = registry.decorators.find? part) :
    Backs changed name entry := by
  obtain ⟨hnone, found, hresolves, hagrees⟩ := h
  have hwhole := hoperators _ (segments_ne_nil name) List.suffix_rfl
  rw [join_segments] at hwhole
  exact ⟨hwhole.trans hnone, found, hresolves.frame hoperators hdecorators, hagrees⟩

theorem Coherent.lookup (h : Coherent registry) (hnamed : Named registry) (name : String) :
    Coherent (registry.lookup name).2 := by
  have hbacks := hnamed.coherent_iff.1 h
  rw [(hnamed.lookup name).coherent_iff]
  intro remembered entry hentry
  have hbacked : Backs registry remembered entry := by
    unfold Registry.lookup at hentry
    split at hentry
    · exact hbacks remembered entry hentry
    · split at hentry
      · exact hbacks remembered entry hentry
      · split at hentry
        · exact hbacks remembered entry hentry
        · next found hfound =>
            obtain ⟨_, _, hadded⟩ := hnamed.compose
              (fun part hpart => plain_of_mem_segments hpart)
              ((resolveSegments_eq_ok_iff name).1 hfound)
            rcases hadded remembered entry hentry with hold | hnew
            · exact hbacks remembered entry hold
            · exact hnew
  refine hbacked.frame (fun rest _ _ => ?_) fun part _ => ?_
  · rw [lookup_operators]
  · rw [lookup_decorators]

/-- What a coherent registry remembers makes no difference. -/
theorem Coherent.agree_cleared (h : Coherent registry) (hnamed : Named registry) (name : String) :
    Agree (registry.get name).1 (registry.cleared.get name).1 := by
  cases hoperator : registry.operators.find? name with
  | some entry =>
      have hget : (registry.get name).1 = .ok entry.operator := by
        rw [get, Registry.lookup, hoperator]
        rfl
      have hcleared : (registry.cleared.get name).1 = .ok entry.operator := by
        rw [get, Registry.lookup, cleared, hoperator]
        rfl
      rw [hget, hcleared]
      exact agree_refl _
  | none =>
      cases hcomposed : registry.composed.find? name with
      | some entry =>
          have hget : (registry.get name).1 = .ok entry.operator := by
            rw [get, Registry.lookup, hoperator, hcomposed]
            rfl
          rw [hget]
          exact h.agrees name entry hcomposed
      | none =>
          have hget : (registry.get name).1 =
              (registry.resolve name).map Resolution.operator := by
            rw [get, Registry.lookup, hoperator, hcomposed]
            cases hresolve : registry.resolve name with
            | error e => rfl
            | ok found =>
                obtain ⟨hsame, _⟩ := hnamed.compose
                  (fun part hpart => plain_of_mem_segments hpart)
                  ((resolveSegments_eq_ok_iff name).1 hresolve)
                exact congrArg Except.ok hsame
          rw [hget, hnamed.get_cleared name]
          exact agree_refl _

/-! ### Changes -/

/-- A change keeps a registry coherent if nothing is remembered afterwards but what was remembered
before and does not depend on what was changed. -/
theorem Coherent.change (h : Coherent registry) (hnamed : Named registry) (hchanged : Named changed)
    (hkept : ∀ name entry, changed.composed.find? name = some entry →
      registry.composed.find? name = some entry ∧
      (registry.operators.find? name = none → ∀ rest, rest ≠ [] → rest <:+ segments name →
        changed.operators.find? (join rest) = registry.operators.find? (join rest)) ∧
      ∀ part ∈ leadingSegments name,
        changed.decorators.find? part = registry.decorators.find? part) :
    Coherent changed := by
  rw [hchanged.coherent_iff]
  intro name entry hentry
  obtain ⟨hold, hoperators, hdecorators⟩ := hkept name entry hentry
  have hbacks := hnamed.coherent_iff.1 h name entry hold
  exact hbacks.frame (hoperators hbacks.1) hdecorators

theorem Coherent.addOperator (h : Coherent registry) (hnamed : Named registry)
    {operator : Operator} (hplain : Plain operator.name) :
    Coherent (registry.addOperator operator) := by
  refine h.change hnamed (hnamed.addOperator operator) fun name entry hentry => ?_
  obtain ⟨hold, hlast⟩ := find?_forget hentry
  refine ⟨hold, fun _ rest hrest hsuffix => ?_, fun _ _ => rfl⟩
  rw [operators_addOperator, if_neg]
  intro hjoin
  rw [lastSegment_of_join_suffix hplain hrest hsuffix (beq_iff_eq.1 hjoin).symm,
    beq_self_eq_true] at hlast
  cases hlast

theorem Coherent.removeOperator (h : Coherent registry) (hnamed : Named registry) (name : String) :
    Coherent (registry.removeOperator name).2 := by
  refine h.change hnamed (hnamed.removeOperator name) fun known entry hentry => ?_
  obtain ⟨hold, hoperators⟩ := kept_removeOperator hentry
  refine ⟨hold, fun hnone rest hrest hsuffix => ?_, fun _ _ => rfl⟩
  obtain ⟨before, hparts⟩ := hsuffix
  cases before with
  | nil =>
      -- The whole name was not registered to begin with.
      rw [List.nil_append] at hparts
      have herase : (registry.operators.erase name).find? known = none := by
        rw [Table.find?_erase, hnone, ite_self]
      rw [hparts, join_segments, hnone]
      exact herase
  | cons part parts => exact hoperators _ rest (List.cons_ne_nil part parts) hrest hparts

theorem Coherent.addDecorator (h : Coherent registry) (hnamed : Named registry)
    (decorator : Decorator) : Coherent (registry.addDecorator decorator) := by
  refine h.change hnamed (hnamed.addDecorator decorator) fun name entry hentry => ?_
  obtain ⟨hold, hdecorators⟩ := kept_addDecorator hentry
  exact ⟨hold, fun _ _ _ _ => rfl, hdecorators⟩

theorem Coherent.removeDecorator (h : Coherent registry) (hnamed : Named registry)
    (name : String) : Coherent (registry.removeDecorator name).2 := by
  refine h.change hnamed (hnamed.removeDecorator name) fun known entry hentry => ?_
  obtain ⟨hold, hdecorators⟩ := kept_removeDecorator hentry
  exact ⟨hold, fun _ _ _ _ => rfl, hdecorators⟩

/-! ### Histories -/

/-- Named and coherent. -/
def Sound (registry : Registry) : Prop := Named registry ∧ Coherent registry

/-- Nothing is registered as an operator under a name of several parts. -/
def Act.Modest : Act → Prop
  | .addOperator operator => Plain operator.name
  | _ => True

/-- It is more than looking a name up. -/
def Act.changes : Act → Bool
  | .get _ | .has _ | .evaluate _ _ _ => false
  | _ => true

theorem sound_empty : Sound empty :=
  ⟨⟨nofun, nofun⟩, ⟨nofun, nofun⟩⟩

theorem Sound.lookup (h : Sound registry) (name : String) : Sound (registry.lookup name).2 :=
  ⟨h.1.lookup name, h.2.lookup h.1 name⟩

theorem Sound.lookupValue (h : Sound registry) (name : Value) :
    Sound (registry.lookupValue name).2 := by
  cases name with
  | str name => exact h.lookup name
  | _ => exact h

theorem Sound.removeOperator (h : Sound registry) (name : String) :
    Sound (registry.removeOperator name).2 :=
  ⟨h.1.removeOperator name, h.2.removeOperator h.1 name⟩

theorem Sound.removeDecorator (h : Sound registry) (name : String) :
    Sound (registry.removeDecorator name).2 :=
  ⟨h.1.removeDecorator name, h.2.removeDecorator h.1 name⟩

theorem Sound.apply (h : Sound registry) {act : Act} (hact : act.Modest) :
    Sound (act.apply registry) := by
  cases act with
  | addOperator operator => exact ⟨h.1.addOperator operator, h.2.addOperator h.1 hact⟩
  | removeOperator name => exact h.removeOperator name
  | addDecorator decorator => exact ⟨h.1.addDecorator decorator, h.2.addDecorator h.1 decorator⟩
  | removeDecorator name => exact h.removeDecorator name
  | get name => exact h.lookup name
  | has name => exact h.lookup name
  | evaluate name fact value => exact h.lookup name

theorem Sound.foldl {acts : List Act} (h : Sound registry) (hacts : ∀ act ∈ acts, act.Modest) :
    Sound (acts.foldl Act.apply registry) := by
  induction acts generalizing registry with
  | nil => exact h
  | cons act rest ih =>
      rw [List.forall_mem_cons] at hacts
      exact ih (h.apply hacts.1) hacts.2

/-! ### What answers depend on -/

/-- The same operators and the same decorators stand under the same names. -/
structure SameParts (registry other : Registry) : Prop where
  operators : ∀ name, (registry.operators.find? name).map RegistryEntry.operator =
    (other.operators.find? name).map RegistryEntry.operator
  decorators : ∀ name, registry.decorators.find? name = other.decorators.find? name

/-- Both give the same answers, whatever is asked. -/
def SameAnswers (registry other : Registry) : Prop :=
  ∀ name, Agree (registry.get name).1 (other.get name).1 ∧
    (registry.has name).1 = (other.has name).1 ∧
    ∀ fact value, (registry.evaluate name fact value).1 = (other.evaluate name fact value).1

theorem has_eq (registry : Registry) (name : String) :
    (registry.has name).1 = (registry.get name).1.toOption.isSome := by
  change (registry.lookup name).1.toOption.isSome =
    ((registry.lookup name).1.map RegistryEntry.operator).toOption.isSome
  cases (registry.lookup name).1 with
  | ok entry => rfl
  | error e => rfl

theorem sameAnswers_of_agree (h : ∀ name, Agree (registry.get name).1 (other.get name).1) :
    SameAnswers registry other := by
  refine fun name => ⟨h name, ?_, fun fact value => (h name).evaluate fact value⟩
  have hagree := h name
  rw [has_eq, has_eq]
  cases hfirst : (registry.get name).1 with
  | ok operator =>
      cases hsecond : (other.get name).1 with
      | ok found => rfl
      | error e =>
          rw [hfirst, hsecond] at hagree
          exact hagree.elim
  | error e =>
      cases hsecond : (other.get name).1 with
      | ok found =>
          rw [hfirst, hsecond] at hagree
          exact hagree.elim
      | error found => rfl

theorem SameParts.refl (registry : Registry) : SameParts registry registry :=
  ⟨fun _ => rfl, fun _ => rfl⟩

theorem SameParts.resolve (h : SameParts registry other) (name : String) :
    (registry.resolve name).map Resolution.operator =
      (other.resolve name).map Resolution.operator := by
  unfold Registry.resolve
  induction segments name with
  | nil => rfl
  | cons part rest ih =>
      have hoperators := h.operators (join (part :: rest))
      rw [resolveSegments, resolveSegments, ← h.decorators part]
      cases hfirst : registry.operators.find? (join (part :: rest)) with
      | some entry =>
          rw [hfirst] at hoperators
          obtain ⟨found, hsecond, hsame⟩ := Option.map_eq_some_iff.1 hoperators.symm
          rw [hsecond]
          exact congrArg Except.ok hsame.symm
      | none =>
          rw [hfirst] at hoperators
          rw [Option.map_eq_none_iff.1 hoperators.symm]
          dsimp only
          split
          · rfl
          · cases registry.decorators.find? part with
            | none => rfl
            | some decorator =>
                cases hinner : registry.resolveSegments name rest with
                | error e =>
                    rw [hinner] at ih
                    cases hother : other.resolveSegments name rest with
                    | error found =>
                        rw [hother] at ih
                        exact ih
                    | ok found =>
                        rw [hother] at ih
                        cases ih
                | ok inner =>
                    rw [hinner] at ih
                    cases hother : other.resolveSegments name rest with
                    | error e =>
                        rw [hother] at ih
                        cases ih
                    | ok found =>
                        rw [hother] at ih
                        exact congrArg (Except.map decorator.decorate) ih

/-- The answers of a sound registry depend on what is registered only. -/
theorem Sound.sameAnswers (h : Sound registry) (hother : Sound other)
    (hparts : SameParts registry other) : SameAnswers registry other := by
  refine sameAnswers_of_agree fun name => ?_
  have hfirst := h.2.agree_cleared h.1 name
  have hsecond := hother.2.agree_cleared hother.1 name
  rw [h.1.get_cleared, hparts.resolve, ← hother.1.get_cleared] at hfirst
  exact hfirst.trans hsecond.symm

/-- Looking a name up changes nothing that is registered. -/
theorem Act.sameParts_of_not_changes {act : Act} (h : act.changes = false)
    (registry : Registry) : SameParts (act.apply registry) registry := by
  have hlookup : ∀ name, SameParts (registry.lookup name).2 registry := by
    intro name
    refine ⟨fun known => ?_, fun known => ?_⟩
    · rw [lookup_operators]
    · rw [lookup_decorators]
  cases act with
  | get name => exact hlookup name
  | has name => exact hlookup name
  | evaluate name fact value => exact hlookup name
  | addOperator operator => cases h
  | removeOperator name => cases h
  | addDecorator decorator => cases h
  | removeDecorator name => cases h

theorem SameParts.trans {third : Registry} (h : SameParts registry other)
    (hthen : SameParts other third) : SameParts registry third where
  operators name := (h.operators name).trans (hthen.operators name)
  decorators name := (h.decorators name).trans (hthen.decorators name)

theorem SameParts.symm (h : SameParts registry other) : SameParts other registry where
  operators name := (h.operators name).symm
  decorators name := (h.decorators name).symm

theorem SameParts.apply (h : SameParts registry other) (act : Act) :
    SameParts (act.apply registry) (act.apply other) := by
  by_cases hchanges : act.changes = true
  · cases act with
    | addOperator operator =>
        refine ⟨fun name => ?_, h.decorators⟩
        change ((registry.addOperator operator).operators.find? name).map _ =
          ((other.addOperator operator).operators.find? name).map _
        rw [operators_addOperator, operators_addOperator]
        split
        · rfl
        · exact h.operators name
    | removeOperator name =>
        refine ⟨fun known => ?_, h.decorators⟩
        change ((registry.operators.erase name).find? known).map _ =
          ((other.operators.erase name).find? known).map _
        rw [Table.find?_erase, Table.find?_erase]
        split
        · rfl
        · exact h.operators known
    | addDecorator decorator =>
        refine ⟨h.operators, fun name => ?_⟩
        change (registry.decorators.insert decorator.name decorator).find? name =
          (other.decorators.insert decorator.name decorator).find? name
        rw [Table.find?_insert, Table.find?_insert, h.decorators name]
    | removeDecorator name =>
        refine ⟨h.operators, fun known => ?_⟩
        change (registry.decorators.erase name).find? known =
          (other.decorators.erase name).find? known
        rw [Table.find?_erase, Table.find?_erase, h.decorators known]
    | get name => cases hchanges
    | has name => cases hchanges
    | evaluate name fact value => cases hchanges
  · rw [Bool.not_eq_true] at hchanges
    exact ((act.sameParts_of_not_changes hchanges registry).trans h).trans
      (act.sameParts_of_not_changes hchanges other).symm

/-- A history leaves the same parts registered without its look-ups. -/
theorem sameParts_filter (acts : List Act) (h : SameParts registry other) :
    SameParts (acts.foldl Act.apply registry)
      ((acts.filter Act.changes).foldl Act.apply other) := by
  induction acts generalizing registry other with
  | nil => exact h
  | cons act rest ih =>
      rw [List.filter_cons]
      cases hchanges : act.changes with
      | true => exact ih (h.apply act)
      | false => exact ih ((act.sameParts_of_not_changes hchanges registry).trans h)

/-- Everything that is done with a coherent registry leaves it coherent, apart from registering an
operator under a name of several parts.  So while nobody does that, it answers as if it remembered
nothing, as if nothing had been looked up, and as every other coherent registry does that has the
same parts. -/
theorem coherent_acts (hnamed : Named registry) (h : Coherent registry) :
    (∀ act : Act, act.Modest → Sound (act.apply registry)) ∧
    (∀ name : Value, Sound (registry.getValue name).2 ∧ Sound (registry.hasValue name).2 ∧
      (∀ fact value, Sound (registry.evaluateValue name fact value).2) ∧
      Sound (registry.removeOperatorValue name).2 ∧
      Sound (registry.removeDecoratorValue name).2) ∧
    ∀ acts : List Act, (∀ act ∈ acts, act.Modest) →
      let later := acts.foldl Act.apply registry
      Sound later ∧ SameAnswers later later.cleared ∧
      SameAnswers later ((acts.filter Act.changes).foldl Act.apply registry) ∧
      ∀ other : Registry, Sound other → SameParts later other → SameAnswers later other := by
  have hsound : Sound registry := ⟨hnamed, h⟩
  refine ⟨fun act hact => hsound.apply hact, fun name => ⟨hsound.lookupValue name, ?_,
    fun fact value => hsound.lookupValue name, ?_, ?_⟩, fun acts hacts => ?_⟩
  · have hlookup := hsound.lookupValue name
    rw [hasValue]
    split
    all_goals
      next heq =>
        rw [heq] at hlookup
        exact hlookup
  · cases name with
    | str name => exact hsound.removeOperator name
    | _ =>
        rw [removeOperatorValue]
        · split
          · exact hsound
          · exact hsound
        · exact fun _ => nofun
  · cases name with
    | str name => exact hsound.removeDecorator name
    | _ => exact hsound
  · have hlater := hsound.foldl hacts
    have hfiltered : Sound ((acts.filter Act.changes).foldl Act.apply registry) :=
      hsound.foldl fun act hact => hacts act (List.mem_filter.1 hact).1
    refine ⟨hlater, sameAnswers_of_agree (hlater.2.agree_cleared hlater.1),
      hlater.sameAnswers hfiltered (sameParts_filter acts (.refl registry)), ?_⟩
    exact fun other hother hparts => hlater.sameAnswers hother hparts

/-- A registry that knows an operator under a name of two parts, and a decorator. -/
def layered : Registry := after [
  .addOperator (constantOperator "swap:equal" false),
  .addDecorator ⟨"not", Guard.none, Builtin.negate⟩]

/-- Looking up what is built on an operator with a name of several parts leaves a coherent
registry, which then answers as it would have without that. -/
theorem coherent_acts_layered :
    (Named layered ∧ Coherent layered ∧ (Act.addOperator (constantOperator "equal" true)).Modest) ∧
    Sound ((Act.get "not:swap:equal").apply layered) ∧
    Sound (layered.removeOperatorValue (.str "swap:equal")).2 ∧
    let later := [.get "not:swap:equal", .addOperator (constantOperator "equal" true)].foldl
      Act.apply layered
    Sound later ∧ SameAnswers later (layered.addOperator (constantOperator "equal" true)) := by
  have hsound : Sound layered := by
    have hnamed : Named layered :=
      (sound_empty.1.addOperator (constantOperator "swap:equal" false)).addDecorator
        ⟨"not", Guard.none, Builtin.negate⟩
    exact ⟨hnamed, ⟨nofun, nofun⟩⟩
  have hplain : (Act.addOperator (constantOperator "equal" true)).Modest := by
    change ':' ∉ "equal".toList
    decide
  obtain ⟨hact, hvalue, hacts⟩ := coherent_acts hsound.1 hsound.2
  have hmodest : ∀ act ∈ [Act.get "not:swap:equal", .addOperator (constantOperator "equal" true)],
      act.Modest := by
    rw [List.forall_mem_cons, List.forall_mem_singleton]
    exact ⟨trivial, hplain⟩
  obtain ⟨hlater, _, hsame, _⟩ := hacts _ hmodest
  exact ⟨⟨hsound.1, hsound.2, hplain⟩, hact (.get "not:swap:equal") trivial,
    (hvalue (.str "swap:equal")).2.2.2.1, hlater, hsame⟩

end Rulebook.Registry
