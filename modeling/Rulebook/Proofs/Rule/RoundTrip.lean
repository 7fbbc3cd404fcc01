import Rulebook.Proofs.Condition.RoundTrip
import Rulebook.Rule.Basic

/-!
Definitions of rules that were built.

The definition of a condition or of a rule builds an equal one (`construct_toDefinition`), so to
take the definition of what was built from a definition is to bring it into a normal form.
-/

namespace Rulebook.Rule

open Condition Registry RuleDefinition Validation

variable {before after : Option Registry} {rule : Rule}

/-! ### Fields -/

theorem both_ok_iff {α β γ : Type} {make : α → β → γ} {first : Reading α} {second : Reading β}
    {c : γ} : both make first second = .ok c ↔
      ∃ a b, first = .ok a ∧ second = .ok b ∧ c = make a b := by
  cases first <;> cases second <;> simp [both, eq_comm]

theorem field_ok_iff {α : Type} {members : Members} {name : String}
    {read : Value → Except FieldCause α} {default : Option α} {a : α} :
    field members name read default = .ok a ↔
      (∃ value, Table.find? members name = some value ∧ read value = .ok a) ∨
        Table.find? members name = none ∧ default = some a := by
  unfold field
  cases Table.find? members name with
  | some value => cases h : read value <;> simp [h]
  | none => cases default <;> simp

theorem inside_ok_iff {α : Type} {name : String} {read : Reading α} {a : α} :
    inside name read = .ok a ↔ read = .ok a := by
  cases read with
  | ok b => exact Iff.rfl
  | error faults =>
      constructor
      · intro h
        cases h
      · intro h
        cases h

theorem optionalText_ok_iff {value : Value} {name : Option String} :
    optionalText value = .ok name ↔ value = Value.ofText? name := by
  cases value <;> cases name <;> simp [optionalText, text, Value.ofText?, Except.map]

theorem readParams_ok_iff {value : Value} {params : Option Members} :
    RuleDefinition.readParams value = .ok params ↔ value = params.elim .null .object := by
  cases value <;> cases params <;> simp [RuleDefinition.readParams, object, Except.map]

theorem readType_ok_iff {value : Value} {type : String} :
    readType value = .ok type ↔ value = .str type ∧ type ≠ "" := by
  cases value with
  | str given =>
      have hread : readType (.str given) =
          if given.isEmpty = true then .error .emptyText else .ok given := rfl
      rw [hread, Value.str.injEq]
      by_cases h : given = ""
      · rw [if_pos (String.isEmpty_iff.2 h)]
        simp only [reduceCtorEq, false_iff, not_and]
        exact fun heq hne => hne (heq ▸ h)
      · rw [if_neg fun hempty => h (String.isEmpty_iff.1 hempty), Except.ok.injEq]
        exact ⟨fun heq => ⟨heq, heq ▸ h⟩, And.left⟩
  | _ => simp [readType, text, bind, Except.bind]

theorem readConditions_ok_iff {value : Value} {members : Members} :
    readConditions value = .ok members ↔
      value = .object members ∧ (presentKeys kindKeys members).length = 1 := by
  cases value with
  | object given =>
      have hread : readConditions (.object given) =
          if (presentKeys kindKeys given).length = 1 then .ok given else .error .rootShape := rfl
      rw [hread, Value.object.injEq]
      by_cases h : (presentKeys kindKeys given).length = 1
      · rw [if_pos h, Except.ok.injEq]
        exact ⟨fun heq => ⟨heq, heq ▸ h⟩, And.left⟩
      · rw [if_neg h]
        simp only [reduceCtorEq, false_iff, not_and]
        exact fun heq hone => h (heq ▸ hone)
  | _ => simp [readConditions, object, bind, Except.bind]

theorem priority_toValue (priority : Priority) :
    Validation.priority priority.toValue = .ok priority := by
  obtain ⟨level, hlevel⟩ := priority
  simp [Priority.toValue, Validation.priority, Validation.int, Priority.ofInt?, hlevel, bind,
    Except.bind]

/-- What an event is read from. -/
theorem readEvent_ok_iff {members : Members} {event : RuleEvent} :
    readEvent members = .ok event ↔
      ∃ given, Table.find? members "event" = some (.object given) ∧
        Table.find? given "type" = some (.str event.type) ∧ event.type ≠ "" ∧
          (Table.find? given "params").getD .null = event.params.elim .null .object := by
  have hparams (given : Members) (params : Option Members) :
      field given "params" RuleDefinition.readParams (some none) = .ok params ↔
        (Table.find? given "params").getD .null = params.elim .null .object := by
    rw [field_ok_iff]
    cases Table.find? given "params" with
    | none => cases params <;> simp
    | some value => simp [readParams_ok_iff]
  obtain ⟨type, params⟩ := event
  unfold readEvent
  split
  · simp [*]
  · next given hgiven =>
      rw [inside_ok_iff, both_ok_iff]
      simp only [hparams, field_ok_iff, readType_ok_iff, reduceCtorEq, and_false, or_false,
        RuleEvent.mk.injEq, hgiven, Option.some.injEq, Value.object.injEq, exists_eq_left']
      constructor
      · rintro ⟨_, _, ⟨_, htype, rfl, hnonempty⟩, hread, rfl, rfl⟩
        exact ⟨htype, hnonempty, hread⟩
      · rintro ⟨htype, hnonempty, hread⟩
        exact ⟨_, _, ⟨_, htype, rfl, hnonempty⟩, hread, rfl, rfl⟩
  · simp_all

/-- What a rule is read from, its name and its priority aside. -/
theorem read_ok {members : Members} {definition : RuleDefinition}
    (h : read members = .ok definition) :
    (presentKeys kindKeys definition.conditions).length = 1 ∧ definition.event.type ≠ "" := by
  obtain ⟨head, body, _, hbody, rfl⟩ := both_ok_iff.1 h
  obtain ⟨conditions, event, hconditions, hevent, rfl⟩ := both_ok_iff.1 hbody
  obtain ⟨_, _, _, hnonempty, _⟩ := readEvent_ok_iff.1 hevent
  refine ⟨?_, hnonempty⟩
  rcases field_ok_iff.1 hconditions with ⟨value, _, hread⟩ | ⟨_, hnone⟩
  · exact (readConditions_ok_iff.1 hread).2
  · cases hnone

/-- The members of a rule's definition. -/
def definitionMembers (rule : Rule) : Members :=
  [("conditions", rule.conditions.toDefinition), ("priority", rule.priority.toValue),
    ("event", .object rule.event.members)] ++ nameMembers rule.name

/-- The definition of a rule is read as that rule, its condition as data. -/
theorem read_definitionMembers (hevent : rule.event.type ≠ "")
    (hone : (presentKeys kindKeys rule.conditions.definitionMembers).length = 1) :
    read rule.definitionMembers =
      .ok ⟨rule.name, rule.priority, rule.conditions.definitionMembers, rule.event⟩ := by
  obtain ⟨name, priority, event, conditions⟩ := rule
  refine both_ok_iff.2 ⟨(name, priority), (conditions.definitionMembers, event),
    both_ok_iff.2 ⟨name, priority, field_ok_iff.2 ?_, field_ok_iff.2 (.inl ⟨_, rfl, ?_⟩), rfl⟩,
    both_ok_iff.2 ⟨_, event, field_ok_iff.2 (.inl ⟨_, rfl, ?_⟩), readEvent_ok_iff.2 ?_, rfl⟩, rfl⟩
  · cases name with
    | none => exact .inr ⟨rfl, rfl⟩
    | some name => exact .inl ⟨_, rfl, optionalText_ok_iff.2 rfl⟩
  · exact priority_toValue priority
  · exact readConditions_ok_iff.2 ⟨toDefinition_eq conditions, hone⟩
  · obtain ⟨type, params⟩ := event
    refine ⟨_, rfl, rfl, hevent, ?_⟩
    cases params <;> rfl

/-! ### Building again -/

theorem gives_ofFields_iff {definition : RuleDefinition} :
    Gives (ofFields definition) before rule after ↔
      Gives (Condition.build (.object definition.conditions) "$") before rule.conditions after ∧
        rule = ⟨definition.name, definition.priority, definition.event, rule.conditions⟩ := by
  rw [ofFields, Gives.bind_iff]
  constructor
  · rintro ⟨conditions, _, hbuilt, hpure⟩
    obtain ⟨rfl, rfl⟩ := Gives.pure_iff.1 hpure
    exact ⟨hbuilt, rfl⟩
  · rintro ⟨hbuilt, hrule⟩
    exact ⟨rule.conditions, after, hbuilt, Gives.pure_iff.2 ⟨hrule.symm, rfl⟩⟩

/-- A rule that is built has an event, and its condition is built from an object that has one kind;
the definition of the condition then has one kind as well. -/
theorem exists_conditions_of_gives {definition : Value}
    (h : Gives (Rule.build definition) before rule after) :
    rule.event.type ≠ "" ∧
      (presentKeys kindKeys rule.conditions.definitionMembers).length = 1 ∧
        ∃ members, Gives (Condition.build (.object members) "$") before rule.conditions after := by
  unfold Rule.build at h
  split at h
  · exact absurd h Gives.not_throw
  · split at h
    · exact absurd h Gives.not_throw
    · next fields hfields =>
        obtain ⟨hone, hevent⟩ := read_ok hfields
        obtain ⟨hbuilt, hrule⟩ := gives_ofFields_iff.1 h
        refine ⟨by rwa [hrule], ?_, fields.conditions, hbuilt⟩
        rwa [hbuilt.presentKeys]

/-- The definition of a rule gives the rule, if that of its condition gives the condition. -/
theorem gives_toDefinition (hevent : rule.event.type ≠ "")
    (hone : (presentKeys kindKeys rule.conditions.definitionMembers).length = 1)
    (hbuilt : Gives (Condition.build rule.conditions.toDefinition "$") before rule.conditions
      after) : Gives (Rule.build rule.toDefinition) before rule after := by
  have hmembers : membersOf rule.toDefinition = .ok rule.definitionMembers := rfl
  rw [Rule.build, hmembers]
  dsimp only
  rw [read_definitionMembers hevent hone]
  rw [toDefinition_eq] at hbuilt
  exact gives_ofFields_iff.2 ⟨hbuilt, rfl⟩

theorem ofDefinition_toDefinition (condition : Condition) :
    ofDefinition condition.toDefinition = Condition.build condition.toDefinition "$" := by
  rw [toDefinition_eq, ofDefinition]
  intro text h
  cases h

/-- The definition of a condition that was built from a definition builds an equal condition, and
likewise for rules: with the registry as it was, and with the registry as it is then, whatever names
are looked up in it meanwhile.  To build does nothing to a registry but look names up. -/
theorem construct_toDefinition (registry : Option Registry) :
    (∀ definition condition after,
      Condition.construct registry definition = (.ok condition, after) →
        Condition.construct registry condition.toDefinition = (.ok condition, after) ∧
        Consulted registry after ∧
        ∀ later, Consulted after later →
          (Condition.construct later condition.toDefinition).1 = .ok condition) ∧
    ∀ definition rule after, Rule.construct registry definition = (.ok rule, after) →
      Rule.construct registry rule.toDefinition = (.ok rule, after) ∧
      Consulted registry after ∧
      ∀ later, Consulted after later → (Rule.construct later rule.toDefinition).1 = .ok rule := by
  constructor
  · intro definition condition after h
    obtain ⟨data, hbuilt⟩ := exists_build_of_ofDefinition h
    simp only [Condition.construct, ofDefinition_toDefinition]
    obtain ⟨hconsulted, hbuildable⟩ := hbuilt.buildable
    refine ⟨hbuilt.again "$", hconsulted, fun later hlater => ?_⟩
    obtain ⟨_, hagain⟩ := (hbuildable.consulted hlater).gives "$"
    exact congrArg Prod.fst hagain
  · intro definition rule after h
    obtain ⟨hevent, hone, members, hbuilt⟩ := exists_conditions_of_gives h
    obtain ⟨hconsulted, hbuildable⟩ := hbuilt.buildable
    refine ⟨gives_toDefinition hevent hone (hbuilt.again "$"), hconsulted, fun later hlater => ?_⟩
    obtain ⟨_, hagain⟩ := (hbuildable.consulted hlater).gives "$"
    exact congrArg Prod.fst (gives_toDefinition hevent hone hagain)

/-- The conditions of `discount`. -/
def regulars : Members := [
  ("any", .tuple [
    .object [("operator", .str "never"), ("priority", .str " 3 ")],
    .object [("condition", .str "regular"), ("priority", .null)],
    .object [("not", .object [("fact", .str "age"), ("operator", .str "not:equal"),
      ("value", .object [("fact", .str "limit"), ("path", .str "$.age")]),
      ("params", .object []), ("name", .str "")])]]),
  ("note", .bool true)]

/-- A definition that is not in its normal form: priorities are texts, there are members that mean
nothing, and what is null need not be there. -/
def discount : Value := .object [
  ("name", .null), ("priority", .str " +2.0 "), ("conditions", .object regulars),
  ("event", .object [("params", .null), ("type", .str "discount")])]

/-- The rule of `discount`. -/
def discountRule : Rule where
  name := none
  priority := ⟨2, by decide⟩
  event := ⟨"discount", none⟩
  conditions := .any [
    .never none,
    .reference "regular" none none,
    .not (.comparison ⟨"age", "not:equal", .object [("fact", .str "limit"), ("path", .str "$.age")],
      some [], none⟩ (some "") none) none Priority.first] none Priority.first

theorem gives_regulars : Gives (Condition.build (.object regulars) "$") (some withDefaults)
    discountRule.conditions (consult (some withDefaults) "not:equal") := by
  have hpath : Path.isPath "$.age" = true := by decide +kernel
  have hknown : withDefaults.Knows "not:equal" := by
    show (withDefaults.has "not:equal").1 = true
    decide +kernel
  refine Gives.build_iff.2 ⟨none, none, rfl, rfl, .any rfl rfl (Gives.buildEach_cons.2
    ⟨_, _, some withDefaults, rfl, ?never, Gives.buildEach_cons.2
      ⟨_, _, some withDefaults, rfl, ?reference, Gives.buildEach_cons.2
        ⟨_, _, _, rfl, ?not, Gives.buildEach_nil.2 ⟨rfl, rfl⟩⟩⟩⟩)⟩
  case never => exact Gives.build_iff.2 ⟨none, some ⟨3, by decide⟩, rfl, by rfl, .never rfl rfl⟩
  case reference => exact Gives.build_iff.2 ⟨none, none, rfl, rfl, .reference rfl (by decide)⟩
  case not =>
    refine Gives.build_iff.2 ⟨none, none, rfl, rfl, .not rfl rfl
      (Gives.build_iff.2 ⟨some "", none, rfl, rfl, .comparison rfl rfl
        (Gives.readLeaf_iff.2 ⟨rfl, rfl, rfl, rfl, rfl, ?_, rfl⟩)⟩)⟩
    refine ⟨by decide, by decide, fun _ h => Option.some.inj h ▸ hknown, ?_, fun _ h => nomatch h⟩
    rintro _ ⟨⟩
    refine ⟨rfl, some "$.age", rfl, ?_⟩
    rintro _ ⟨⟩
    exact hpath

theorem gives_discount : Gives (Rule.build discount) (some withDefaults) discountRule
    (consult (some withDefaults) "not:equal") := by
  have hbuild : Rule.build discount =
      ofFields ⟨none, ⟨2, by decide⟩, regulars, ⟨"discount", none⟩⟩ := rfl
  rw [hbuild]
  exact gives_ofFields_iff.2 ⟨gives_regulars, rfl⟩

theorem construct_toDefinition_discount :
    Rule.construct (some withDefaults) discount =
        (.ok discountRule, consult (some withDefaults) "not:equal") ∧
      Rule.construct (some withDefaults) discountRule.toDefinition =
        (.ok discountRule, consult (some withDefaults) "not:equal") ∧
      Condition.construct (some withDefaults) (.object regulars) =
        (.ok discountRule.conditions, consult (some withDefaults) "not:equal") ∧
      Condition.construct (some withDefaults) discountRule.conditions.toDefinition =
        (.ok discountRule.conditions, consult (some withDefaults) "not:equal") := by
  have hregulars : Condition.construct (some withDefaults) (.object regulars) =
      (.ok discountRule.conditions, consult (some withDefaults) "not:equal") := gives_regulars
  exact ⟨gives_discount, ((construct_toDefinition _).2 _ _ _ gives_discount).1, hregulars,
    ((construct_toDefinition _).1 _ _ _ hregulars).1⟩

end Rulebook.Rule
