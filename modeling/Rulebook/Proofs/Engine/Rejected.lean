import Rulebook.Proofs.Engine.Handlers
import Rulebook.Proofs.Engine.Level
import Rulebook.Proofs.Engine.Roster

/-!
Rejected calls.

Whatever can be asked of an engine is an `Operation`.  One that is rejected leaves the engine as it
was, but for which operators were put together while a definition was checked up to the place where
it is wrong (`unmoved_perform`).  As long as no operator gets a name of several parts, this cannot be
told from outside: whatever is asked later comes out as if the rejected call had not been made
(`rejected_unnoticed`).
-/

namespace Rulebook.Engine

open Registry Session Eval

variable {η α β : Type} {handling : Handling η} {engine other : Engine η}

/-! ### Operations -/

/-- What can be asked of an engine.  Names by which operators and decorators are removed are
texts. -/
inductive Operation (η : Type) where
  | rules (call : RuleCall)
  | setCondition (name definition : Value)
  | setConditionTo (name : Value) (condition : Condition)
  | removeCondition (name : Value)
  | addFact (fact : Fact)
  | addFactOf (id : Value) (source : FactSource) (options : Value)
  | addFactWith (id : Value) (source : FactSource) (options : FactOptions)
  | removeFact (id : Value)
  | getFact (id : Value)
  | addOperator (operator : Operator)
  | addOperatorOf (name : Value) (compare : Option Comparison) (guard : Guard)
  | removeOperator (name : String)
  | addDecorator (decorator : Decorator)
  | addDecoratorOf (name : Value) (wrap : Option Wrapping) (guard : Guard)
  | removeDecorator (name : String)
  | getOperator (name : Value)
  | hasOperator (name : Value)
  | evaluateOperator (name fact value : Value)
  | applyDecorator (decorator : Value) (operator : Operator)
  | subscribe (event : Value) (handler : η)
  | stop
  | run (entries : List RuntimeEntry) (reused : Option (Almanac × RunJournal))

/-- What an operation returns. -/
inductive Reply (η : Type) where
  | rules (reply : RuleReply)
  | condition (condition : Condition)
  | fact (fact : Fact)
  | found (fact : Option Fact)
  | operator (operator : Operator)
  | decorator (decorator : Decorator)
  | told (told : Bool)
  | done
  | ended (ended : RunEnd η)

/-- Make a change, unless it is refused. -/
def tried (engine : Engine η) (view : α → Reply η) :
    Except Error (α × Engine η) → Except Error (Reply η) × Engine η
  | .ok (a, later) => (.ok (view a), later)
  | .error e => (.error e, engine)

/-- Do something with the operators. -/
def onRegistry (engine : Engine η) (view : α → Reply η)
    (change : Registry → Except Error α × Registry) : Except Error (Reply η) × Engine η :=
  ((change engine.registry).1.map view, engine.withRegistry (change engine.registry).2)

/-- Register something, unless it could not be defined. -/
def register (add : Registry → α → Registry) (given : Except Error α) (registry : Registry) :
    Except Error α × Registry :=
  match given with
  | .ok a => (.ok a, add registry a)
  | .error e => (.error e, registry)

namespace Operation

/-- Do what is asked.  A run is not rejected: how it failed is part of how it ended. -/
def perform (handling : Handling η) (engine : Engine η) :
    Operation η → Except Error (Reply η) × Engine η
  | .rules call =>
      let (reply, engine) := call.perform engine
      (reply.map .rules, engine)
  | .setCondition name definition =>
      let (reply, engine) := engine.setCondition name definition
      (reply.map .condition, engine)
  | .setConditionTo name condition =>
      engine.tried .condition do return (condition, ← engine.setConditionTo name condition)
  | .removeCondition name => engine.tried .told (engine.removeCondition name)
  | .addFact fact => engine.tried .fact do return (fact, ← engine.addFact fact)
  | .addFactOf id source options => engine.tried .fact do
      let fact ← Fact.define id source options
      return (fact, ← engine.addFact fact)
  | .addFactWith id source options => engine.tried .fact do
      let fact ← Fact.defineWith id source options
      return (fact, ← engine.addFact fact)
  | .removeFact id => engine.tried .told (engine.removeFact id)
  | .getFact id => engine.tried .found do return (← engine.fact? id, engine)
  | .addOperator operator =>
      engine.onRegistry .operator (register Registry.addOperator (.ok operator))
  | .addOperatorOf name compare guard =>
      let given := Operator.define name compare guard
      engine.onRegistry .operator (register Registry.addOperator given)
  | .removeOperator name =>
      engine.onRegistry .told fun registry => (registry.removeOperator name).map .ok id
  | .addDecorator decorator =>
      engine.onRegistry .decorator (register Registry.addDecorator (.ok decorator))
  | .addDecoratorOf name wrap guard =>
      let given := Decorator.define name wrap guard
      engine.onRegistry .decorator (register Registry.addDecorator given)
  | .removeDecorator name =>
      engine.onRegistry .told fun registry => (registry.removeDecorator name).map .ok id
  | .getOperator name => engine.onRegistry .operator (getValue · name)
  | .hasOperator name => engine.onRegistry .told (hasValue · name)
  | .evaluateOperator name fact value => engine.onRegistry .told (evaluateValue · name fact value)
  | .applyDecorator decorator operator =>
      engine.onRegistry .operator fun registry => (registry.applyValue decorator operator, registry)
  | .subscribe event handler =>
      engine.tried (fun _ => .done) do return ((), ← engine.subscribe event handler)
  | .stop => (.ok .done, engine.stop)
  | .run entries reused =>
      let (ended, engine) := engine.run handling entries reused
      (.ok (.ended ended), engine)

/-- The operator that is registered by it. -/
def registers? : Operation η → Option Operator
  | .addOperator operator => some operator
  | .addOperatorOf name compare guard => (Operator.define name compare guard).toOption
  | _ => none

/-- No operator gets a name of several parts. -/
def Modest (operation : Operation η) : Prop :=
  ∀ operator, operation.registers? = some operator → ':' ∉ operator.name.toList

/-- Do what is asked, one after the other: the replies, and the engine then. -/
def performEach (handling : Handling η) (engine : Engine η) :
    List (Operation η) → List (Except Error (Reply η)) × Engine η
  | [] => ([], engine)
  | operation :: rest =>
      let (reply, engine) := operation.perform handling engine
      let (replies, engine) := performEach handling engine rest
      (reply :: replies, engine)

end Operation

/-! ### What is left of a rejected call -/

/-- The engine is as it was, but names may have been looked up. -/
def Unmoved (engine later : Engine η) : Prop :=
  ∃ registry, Consulted (some engine.registry) (some registry) ∧
    later = engine.withRegistry registry

theorem Unmoved.refl (engine : Engine η) : Unmoved engine engine :=
  ⟨engine.registry, .refl _, rfl⟩

theorem Unmoved.level {later : Engine η} (h : Unmoved engine later)
    (htidy : Tidy engine.registry) : Level engine later := by
  obtain ⟨registry, hconsulted, rfl⟩ := h
  exact ⟨registry, hconsulted.peers htidy, rfl⟩

theorem tried_of_error {view : α → Reply η} {change : Except Error (α × Engine η)} {e : Error}
    (h : (engine.tried view change).1 = .error e) : (engine.tried view change).2 = engine := by
  cases change with
  | ok done => cases h
  | error cause => rfl

theorem consulted_lookupValue (registry : Registry) (name : Value) :
    Consulted (some registry) (some (registry.lookupValue name).2) := by
  unfold lookupValue
  split
  · exact .consult (.refl _) _
  · exact .refl _

theorem error_of_map {result : Except Error α} {view : α → β} {e : Error}
    (h : result.map view = .error e) : result = .error e := by
  cases result with
  | ok a => cases h
  | error cause =>
      cases h
      rfl

theorem unmoved_register {add : Registry → α → Registry} {given : Except Error α}
    {view : α → Reply η} {e : Error}
    (h : (engine.onRegistry view (register add given)).1 = .error e) :
    Unmoved engine (engine.onRegistry view (register add given)).2 := by
  cases given with
  | ok a => cases h
  | error cause => exact .refl engine

/-- A condition that is refused is refused before or after it is built. -/
theorem unmoved_setCondition {name definition : Value} {e : Error}
    (h : (engine.setCondition name definition).1 = .error e) :
    Unmoved engine (engine.setCondition name definition).2 := by
  unfold setCondition at h ⊢
  split
  · exact .refl engine
  · split
    · exact .refl engine
    · obtain ⟨registry, hregistry, hconsulted⟩ :=
        Condition.consulted_construct engine.registry definition
      have hunmoved : Unmoved engine (engine.withRegistry
          ((Condition.construct (some engine.registry) definition).2.getD engine.registry)) := by
        rw [hregistry, Option.getD_some]
        exact ⟨registry, hconsulted, rfl⟩
      dsimp only
      split
      · exact hunmoved
      · split
        · simp_all
        · exact hunmoved

/-- A call that is rejected leaves the engine as it was, but for look-ups. -/
theorem unmoved_perform {operation : Operation η} {e : Error}
    (h : (operation.perform handling engine).1 = .error e) :
    Unmoved engine (operation.perform handling engine).2 := by
  have htried : ∀ {α : Type} {view : α → Reply η} {change : Except Error (α × Engine η)},
      (engine.tried view change).1 = .error e →
        Unmoved engine (engine.tried view change).2 := fun hrejected =>
    (tried_of_error hrejected).symm ▸ .refl engine
  cases operation with
  | rules call =>
      have herror : (call.perform engine).1 = .error e := error_of_map h
      exact RuleCall.perform_of_vain (herror.symm ▸ trivial)
  | setCondition name definition => exact unmoved_setCondition (error_of_map h)
  | setConditionTo name condition => exact htried h
  | removeCondition name => exact htried h
  | addFact fact => exact htried h
  | addFactOf id source options => exact htried h
  | addFactWith id source options => exact htried h
  | removeFact id => exact htried h
  | getFact id => exact htried h
  | subscribe event handler => exact htried h
  | addOperatorOf name compare guard => exact unmoved_register h
  | addDecoratorOf name wrap guard => exact unmoved_register h
  | getOperator name => exact ⟨_, consulted_lookupValue engine.registry name, rfl⟩
  | hasOperator name =>
      refine ⟨_, consulted_lookupValue engine.registry name, ?_⟩
      dsimp only [Operation.perform, onRegistry]
      rw [hasValue_eq]
      rfl
  | evaluateOperator name fact value => exact ⟨_, consulted_lookupValue engine.registry name, rfl⟩
  | applyDecorator decorator operator => exact ⟨_, .refl _, rfl⟩
  | addOperator operator => cases h
  | removeOperator name => cases h
  | addDecorator decorator => cases h
  | removeDecorator name => cases h
  | stop => cases h
  | run entries reused => cases h

/-! ### Operations on level engines -/

/-- The change comes to the same on level engines, and leaves them level. -/
def Evenly (change : Engine η → Except Error α × Engine η) : Prop :=
  ∀ engine other, Level engine other →
    (change other).1 = (change engine).1 ∧ Level (change engine).2 (change other).2

/-- The change neither looks at the operators nor changes them. -/
def Apart (change : Engine η → Except Error α × Engine η) : Prop :=
  ∀ engine registry, change (engine.withRegistry registry) =
    ((change engine).1, (change engine).2.withRegistry registry)

theorem Apart.registry {change : Engine η → Except Error α × Engine η} (h : Apart change)
    (engine : Engine η) : (change engine).2.registry = engine.registry :=
  congrArg (fun done => done.2.registry) (h engine engine.registry)

theorem Apart.evenly {change : Engine η → Except Error α × Engine η} (h : Apart change) :
    Evenly change := by
  rintro engine _ ⟨registry, hpeers, rfl⟩
  rw [h engine registry]
  exact ⟨rfl, registry, (h.registry engine).symm ▸ hpeers, rfl⟩

theorem apart_tried {view : α → Reply η} {change : Engine η → Except Error (α × Engine η)}
    (h : ∀ engine registry, change (engine.withRegistry registry) =
      (change engine).map fun done => (done.1, done.2.withRegistry registry)) :
    Apart fun engine => engine.tried view (change engine) := by
  intro engine registry
  dsimp only
  rw [h engine registry]
  cases change engine <;> rfl

/-- Something that is given to an engine to keep. -/
theorem apart_given {view : α → Reply η} (keep : Engine η → α → Except Error (Engine η))
    (given : Except Error α)
    (h : ∀ engine registry a, keep (engine.withRegistry registry) a =
      (keep engine a).map (·.withRegistry registry)) :
    Apart fun engine => engine.tried view do
      let a ← given
      return (a, ← keep engine a) := by
  refine apart_tried fun engine registry => ?_
  cases given with
  | error e => rfl
  | ok a =>
      change (keep (engine.withRegistry registry) a).map (a, ·) = ((keep engine a).map (a, ·)).map _
      rw [h engine registry a]
      cases keep engine a <;> rfl

theorem Evenly.map {change : Engine η → Except Error α × Engine η} (h : Evenly change)
    (view : α → β) :
    Evenly fun engine => ((change engine).1.map view, (change engine).2) :=
  fun engine other hlevel =>
    ⟨congrArg (Except.map view) (h engine other hlevel).1, (h engine other hlevel).2⟩

/-- Rules are built in the same way on level engines. -/
theorem Level.buildRule (h : Level engine other) (definition : Value) :
    ∃ result later later', Level later later' ∧
      engine.buildRule definition = (result, later) ∧
        other.buildRule definition = (result, later') := by
  obtain ⟨registry, hpeers, rfl⟩ := h
  obtain ⟨result, later, later', hbuilt, hbuilt', hlater⟩ :=
    Rule.alike_construct checks_peers definition engine.registry registry hpeers
  exact ⟨result, _, _, ⟨later', hlater, rfl⟩, buildRule_of_construct hbuilt,
    buildRule_of_construct hbuilt'⟩

theorem apart_updateRule (rule : Rule) :
    Apart fun engine : Engine η => (.ok (engine.updateRule rule).1, (engine.updateRule rule).2) := by
  intro engine registry
  dsimp only [updateRule, withRegistry]
  cases replaceFirst rule engine.rules <;> rfl

theorem apart_removeRule (name : Value) :
    Apart fun engine : Engine η => (.ok (engine.removeRule name).1, (engine.removeRule name).2) := by
  intro engine registry
  dsimp only [removeRule, withRegistry]
  split <;> rfl

theorem apart_removeRulesAt (places : List Nat) : Apart fun engine : Engine η =>
    (.ok (engine.removeRulesAt places).1, (engine.removeRulesAt places).2) := by
  intro engine registry
  dsimp only [removeRulesAt, withRegistry]
  split <;> rfl

theorem apart_prioritize :
    Apart fun engine : Engine η => (.ok engine.prioritize.1, engine.prioritize.2) := by
  intro engine registry
  dsimp only
  rw [prioritize_withRegistry]

theorem evenly_addRuleOf (definition : Value) :
    Evenly fun engine : Engine η => engine.addRuleOf definition := by
  intro engine other h
  dsimp only
  unfold addRuleOf
  split
  · exact ⟨rfl, h⟩
  · obtain ⟨result, later, later', hlater, hbuilt, hbuilt'⟩ := h.buildRule definition
    rw [hbuilt, hbuilt']
    cases result with
    | error e => exact ⟨rfl, hlater⟩
    | ok rule =>
        obtain ⟨registry, hpeers, rfl⟩ := hlater
        exact ⟨rfl, registry, hpeers, rfl⟩

theorem evenly_updateRuleOf (definition : Value) :
    Evenly fun engine : Engine η => engine.updateRuleOf definition := by
  intro engine other h
  dsimp only
  unfold updateRuleOf
  obtain ⟨result, later, later', hlater, hbuilt, hbuilt'⟩ := h.buildRule definition
  rw [hbuilt, hbuilt']
  cases result with
  | error e => exact ⟨rfl, hlater⟩
  | ok rule => exact (apart_updateRule rule).evenly later later' hlater

theorem evenly_setCondition (name definition : Value) :
    Evenly fun engine : Engine η => engine.setCondition name definition := by
  intro engine other h
  dsimp only
  unfold setCondition
  split
  · exact ⟨rfl, h⟩
  · split
    · exact ⟨rfl, h⟩
    · obtain ⟨registry, hpeers, rfl⟩ := h
      obtain ⟨result, later, later', hbuilt, hbuilt', hlater⟩ :=
        Condition.alike_construct checks_peers definition engine.registry registry hpeers
      have hfirst : Condition.construct (some engine.registry) definition = (result, some later) :=
        hbuilt
      have hsecond : Condition.construct (some (engine.withRegistry registry).registry) definition =
          (result, some later') := hbuilt'
      rw [hfirst, hsecond]
      cases result with
      | error e => exact ⟨rfl, later', hlater, rfl⟩
      | ok condition =>
          dsimp only
          split <;> exact ⟨rfl, later', hlater, rfl⟩

/-- What is done to registries that cannot be told apart. -/
def Fairly (change : Registry → Except Error α × Registry) : Prop :=
  ∀ registry other, Peers registry other →
    (change registry).1 = (change other).1 ∧ Peers (change registry).2 (change other).2

theorem Fairly.evenly {change : Registry → Except Error α × Registry} (h : Fairly change)
    (view : α → Reply η) : Evenly fun engine => engine.onRegistry view change := by
  rintro engine _ ⟨registry, hpeers, rfl⟩
  obtain ⟨hresult, hlater⟩ := h engine.registry registry hpeers
  exact ⟨congrArg (Except.map view) hresult.symm, _, hlater, rfl⟩

theorem fairly_register {add : Registry → α → Registry} {given : Except Error α}
    (h : ∀ a, given = .ok a → ∀ registry other, Peers registry other →
      Peers (add registry a) (add other a)) : Fairly (register add given) := by
  intro registry other hpeers
  cases given with
  | ok a => exact ⟨rfl, h a rfl registry other hpeers⟩
  | error e => exact ⟨rfl, hpeers⟩

theorem fairly_addOperator {given : Except Error Operator}
    (h : ∀ operator, given = .ok operator → (Act.addOperator operator).Modest) :
    Fairly (register Registry.addOperator given) :=
  fairly_register fun operator hoperator _ _ hpeers => hpeers.apply (h operator hoperator)

theorem fairly_addDecorator (given : Except Error Decorator) :
    Fairly (register Registry.addDecorator given) :=
  fairly_register fun decorator _ _ _ hpeers =>
    have hmodest : (Act.addDecorator decorator).Modest := trivial
    hpeers.apply hmodest

theorem addFact_withRegistry (engine : Engine η) (registry : Registry) (fact : Fact) :
    (engine.withRegistry registry).addFact fact =
      (engine.addFact fact).map (·.withRegistry registry) := by
  unfold addFact
  split <;> rfl

theorem evenly_rules (call : RuleCall) : Evenly fun engine : Engine η => call.perform engine := by
  cases call with
  | add rule => exact Apart.evenly fun _ _ => rfl
  | addOf definition => exact (evenly_addRuleOf definition).map _
  | update rule => exact (apart_updateRule rule).evenly.map _
  | updateOf definition => exact (evenly_updateRuleOf definition).map _
  | remove name => exact (apart_removeRule name).evenly.map _
  | removeAt places => exact (apart_removeRulesAt places).evenly.map _
  | prioritize => exact apart_prioritize.evenly.map _

theorem evenly_perform (hhandling : Indifferent handling) {operation : Operation η}
    (hmodest : operation.Modest) : Evenly fun engine => operation.perform handling engine := by
  cases operation with
  | rules call => exact (evenly_rules call).map _
  | setCondition name definition => exact (evenly_setCondition name definition).map _
  | setConditionTo name condition =>
      refine (apart_given (setConditionTo · name) (.ok condition) fun engine registry _ => ?_).evenly
      unfold setConditionTo
      split
      · rfl
      · split <;> rfl
  | removeCondition name =>
      refine (apart_tried fun engine registry => ?_).evenly
      unfold removeCondition
      split <;> rfl
  | addFact fact => exact (apart_given addFact (.ok fact) addFact_withRegistry).evenly
  | addFactOf id source options =>
      exact (apart_given addFact (Fact.define id source options) addFact_withRegistry).evenly
  | addFactWith id source options =>
      exact (apart_given addFact (Fact.defineWith id source options) addFact_withRegistry).evenly
  | removeFact id =>
      refine (apart_tried fun engine registry => ?_).evenly
      unfold removeFact
      split <;> rfl
  | getFact id =>
      refine (apart_tried fun engine registry => ?_).evenly
      unfold fact?
      split <;> rfl
  | addOperator operator =>
      refine (fairly_addOperator fun added hadded => ?_).evenly _
      exact hmodest added (congrArg Except.toOption hadded)
  | addOperatorOf name compare guard =>
      refine (fairly_addOperator fun added hadded => ?_).evenly _
      exact hmodest added (congrArg Except.toOption hadded)
  | removeOperator name =>
      refine Fairly.evenly (fun registry other h => ⟨?_, ?_⟩) _
      · exact congrArg Except.ok (h.removeOperator_eq name)
      · have hact : (Act.removeOperator name).Modest := trivial
        exact h.apply hact
  | addDecorator decorator => exact (fairly_addDecorator (.ok decorator)).evenly _
  | addDecoratorOf name wrap guard =>
      exact (fairly_addDecorator (Decorator.define name wrap guard)).evenly _
  | removeDecorator name =>
      refine Fairly.evenly (fun registry other h => ⟨?_, ?_⟩) _
      · exact congrArg Except.ok (h.removeDecorator_eq name)
      · have hact : (Act.removeDecorator name).Modest := trivial
        exact h.apply hact
  | getOperator name => exact Fairly.evenly (fun registry other h => h.getValue name) _
  | hasOperator name =>
      refine Fairly.evenly (fun registry other h => ?_) _
      rw [hasValue_eq, hasValue_eq]
      exact ⟨congrArg known (h.getValue name).1, (h.getValue name).2⟩
  | evaluateOperator name fact value =>
      have hfairly : Fairly (evaluateValue · name fact value) := fun registry other h =>
        ⟨congrArg (Except.bind · fun operator : Operator => operator.evaluate fact value)
          (h.getValue name).1, (h.getValue name).2⟩
      exact hfairly.evenly _
  | applyDecorator decorator operator =>
      exact Fairly.evenly (fun registry other h => ⟨h.applyValue_eq decorator operator, h⟩) _
  | subscribe event handler =>
      refine (apart_given (fun engine _ => engine.subscribe event handler) (.ok ())
        fun engine registry _ => ?_).evenly
      unfold subscribe
      split <;> rfl
  | stop => exact Apart.evenly fun _ _ => rfl
  | run entries reused =>
      intro engine other h
      obtain ⟨hended, hlater⟩ := h.run hhandling entries reused
      exact ⟨congrArg (Except.ok ∘ Reply.ended) hended, hlater⟩

/-! ### What comes after a rejected call -/

open Operation

/-- Operations, one after the other, come to the same on level engines. -/
theorem Level.performEach (h : Level engine other) (hhandling : Indifferent handling)
    {operations : List (Operation η)} (hmodest : ∀ operation ∈ operations, operation.Modest) :
    (Operation.performEach handling other operations).1 =
        (Operation.performEach handling engine operations).1 ∧
      Level (Operation.performEach handling engine operations).2
        (Operation.performEach handling other operations).2 := by
  induction operations generalizing engine other with
  | nil => exact ⟨rfl, h⟩
  | cons operation rest ih =>
      obtain ⟨hfirst, hrest⟩ := List.forall_mem_cons.1 hmodest
      obtain ⟨hreply, hlater⟩ := evenly_perform hhandling hfirst engine other h
      obtain ⟨hreplies, hend⟩ := ih hlater hrest
      exact ⟨congrArg₂ List.cons hreply hreplies, hend⟩

theorem level_create (config : Config) : Level (create config : Engine η) (create config) :=
  ⟨_, .refl tidy_withDefaults, rfl⟩

/-- The operators of an engine that was created are tidy, whatever was asked of it. -/
theorem tidy_performEach (hhandling : Indifferent handling) (config : Config)
    {history : List (Operation η)} (hmodest : ∀ operation ∈ history, operation.Modest) :
    Tidy (Operation.performEach handling (create config) history).2.registry :=
  let ⟨_, hpeers, _⟩ := ((level_create config).performEach hhandling hmodest).2
  hpeers.tidy

/-- A call that is rejected leaves an engine as it was, but for look-ups, so that the same operators
and decorators are registered.  As long as no operator gets a name of several parts, whatever is
asked later comes to the same as without the call, and leaves engines that cannot be told apart. -/
theorem rejected_unnoticed (call : Operation η) (e : Error) :
    (∀ engine, (call.perform handling engine).1 = .error e →
      ∃ registry, SameRegistered registry engine.registry ∧
        (call.perform handling engine).2 = engine.withRegistry registry) ∧
    (Indifferent handling → ∀ config history, (∀ operation ∈ history, Modest operation) →
      let engine := (performEach handling (create config) history).2
      (call.perform handling engine).1 = .error e →
        ∀ later, (∀ operation ∈ later, Modest operation) →
          let without := performEach handling engine later
          let after := performEach handling (call.perform handling engine).2 later
          after.1 = without.1 ∧ Level without.2 after.2) := by
  constructor
  · intro engine hrejected
    obtain ⟨registry, hconsulted, hlater⟩ := unmoved_perform hrejected
    exact ⟨registry, hconsulted.sameRegistered, hlater⟩
  · intro hhandling config history hhistory engine hrejected later hlater
    have htidy := tidy_performEach hhandling config hhistory
    exact ((unmoved_perform hrejected).level htidy).performEach hhandling hlater

/-! ### Handlers of the catalogue -/

theorem twins_withEngine {change : Engine η → Except Error α × Engine η} (h : Evenly change) :
    Twins Even (Act.withEngine change) (Act.withEngine change) := by
  refine .get_bind fun seen seen' hseen => ?_
  obtain ⟨hresult, hlater⟩ := h seen.engine seen'.engine hseen.engine
  refine Twins.bind (.modify fun scene scene' hscene => ?_) fun _ => ?_
  · obtain ⟨registry, _, rfl⟩ := hscene
    obtain ⟨found, hpeers, heq⟩ := hlater
    exact ⟨found, hpeers, congrArg (fun engine => { scene with engine }) heq⟩
  · rw [hresult]
    exact .outcome _

theorem twins_onEngine_even {change : Engine η → Engine η}
    (h : Evenly fun engine => (.ok (), change engine)) :
    Twins Even (Act.onEngine change) (Act.onEngine change) := by
  refine .modify fun scene scene' hscene => ?_
  obtain ⟨found, hpeers, heq⟩ := (h scene.engine scene'.engine hscene.engine).2
  obtain ⟨registry, _, rfl⟩ := hscene
  exact ⟨found, hpeers, congrArg (fun engine => { scene with engine }) heq⟩

theorem twins_onAlmanac_even (change : Almanac → Except Error Almanac) :
    Twins Even (Act.onAlmanac change : Act η Unit) (Act.onAlmanac change) := by
  refine .get_bind fun seen seen' hseen => ?_
  rw [hseen.run]
  exact (Twins.outcome (change seen.run.almanac)).bind fun _ => twins_onRun_even _

open Catalogue in
theorem twins_perform_even (call : Call Handler) (deed : Deed) :
    Twins Even (deed.perform call) (deed.perform call) := by
  cases deed with
  | nothing => exact .outcome _
  | stop => exact twins_onEngine_even (Apart.evenly fun _ _ => rfl)
  | addRuntimeFact id value =>
      exact twins_onAlmanac_even fun almanac => almanac.addRuntimeFact id value
  | addFact fact => exact twins_onAlmanac_even fun almanac => fact.bind almanac.addFact
  | fail message => exact .outcome _
  | addRule definition =>
      exact (twins_withEngine (evenly_addRuleOf definition)).bind fun _ => .outcome _
  | updateRule definition =>
      exact (twins_withEngine (evenly_updateRuleOf definition)).bind fun _ => .outcome _
  | removeRule name => exact twins_onEngine_even ((apart_removeRule name).evenly.map fun _ => ())
  | setCondition name definition =>
      exact (twins_withEngine (evenly_setCondition name definition)).bind fun _ => .outcome _
  | mark =>
      rw [Deed.perform, leaveMark]
      split
      · exact .outcome _
      · exact twins_onRun_even _
      · exact twins_onRun_even _

/-- What the handlers of the catalogue do is the same on level engines. -/
theorem indifferent_handle : Indifferent Catalogue.handle := by
  intro call
  have hperform := twins_perform_even call call.handler.deed
  unfold Catalogue.handle
  split
  · exact Twins.pause.bind fun _ => hperform
  · exact hperform

/-- A fact, a rule and a handler that adds another one. -/
def furnishing : List (Operation Catalogue.Handler) := [
  .addFactOf (.str "x") (.constant (.int 1)) .null, .rules (.addOf (unconditional "a" 1)),
  .subscribe Journal.success ⟨.null, .addRule (unconditional "b" 2), false⟩]

/-- A condition with an operator that can be put together, and one that nobody knows. -/
def halfKnown : Operation Catalogue.Handler :=
  let leaf (operator : String) : Value := .object [
    ("fact", .str "x"), ("operator", .str operator), ("value", .int 1)]
  .setCondition (.str "c") (.object [("all", .list [leaf "not:equal", leaf "nearly"])])

/-- What was put together is looked up, taken apart and looked up again. -/
def lookingUp : List (Operation Catalogue.Handler) := [
  .evaluateOperator (.str "not:equal") (.int 1) (.int 2), .removeOperator "equal",
  .hasOperator (.str "not:equal"), .run [] none]

open Operation in
theorem rejected_unnoticed_halfKnown :
    let engine := (performEach Catalogue.handle (create []) furnishing).2
    let refused := (halfKnown.perform Catalogue.handle engine).2
    (Indifferent Catalogue.handle ∧ (∀ operation ∈ furnishing, Modest operation) ∧
      (∀ operation ∈ lookingUp, Modest operation)) ∧
    engine.registry.composed.keys = [] ∧ refused.registry.composed.keys = ["not:equal"] ∧
    ∃ e, (halfKnown.perform Catalogue.handle engine).1 = .error e ∧
      (∃ registry, SameRegistered registry engine.registry ∧
        refused = engine.withRegistry registry) ∧
      (performEach Catalogue.handle refused lookingUp).1 =
        (performEach Catalogue.handle engine lookingUp).1 := by
  intro engine refused
  have hfurnishing : ∀ operation ∈ furnishing, Modest operation := by
    simp [furnishing, Modest, registers?]
  have hlookingUp : ∀ operation ∈ lookingUp, Modest operation := by
    simp [lookingUp, Modest, registers?]
  have hclass : (errorOf? (halfKnown.perform Catalogue.handle engine).1).map Error.className =
      some "ConditionBuildError" := by decide +kernel
  obtain ⟨e, hfailure, _⟩ := Option.map_eq_some_iff.1 hclass
  have herror := errorOf?_eq_some.1 hfailure
  obtain ⟨hunmoved, hunnoticed⟩ := rejected_unnoticed halfKnown e
  exact ⟨⟨indifferent_handle, hfurnishing, hlookingUp⟩, by decide +kernel, by decide +kernel, e,
    herror, hunmoved engine herror,
    (hunnoticed indifferent_handle [] furnishing hfurnishing herror lookingUp hlookingUp).1⟩

end Rulebook.Engine
