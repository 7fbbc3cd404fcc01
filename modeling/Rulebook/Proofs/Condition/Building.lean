import Rulebook.Condition.Build
import Rulebook.Proofs.Operator.Known

/-!
What it takes to build a condition.

`Gives` says that a step of building succeeds.  Each reader has a rule that tells from which members
it gives which result, and `Made` tells which condition a whole definition gives, by its shape
(`Gives.build_iff`).
-/

namespace Rulebook

/-- A step goes on with what the step before it came to, unless that one was refused. -/
theorem Build.run_bind {α β : Type} (step : Build α) (next : α → Build β)
    (before : Option Registry) : (step >>= next).run before = match step.run before with
      | (.ok a, between) => (next a).run between
      | (.error e, between) => (.error e, between) := by
  change (ExceptT.bindCont next (step.run before).1).run (step.run before).2 = _
  rcases step.run before with ⟨_ | _, _⟩ <;> rfl

namespace Condition

open Build Registry

variable {before between after : Option Registry} {members : Members} {place : String}

/-- A step of building succeeds. -/
def Gives {α : Type} (step : Build α) (before : Option Registry) (a : α)
    (after : Option Registry) : Prop :=
  (step.run before : Except Error α × Option Registry) = (.ok a, after)

namespace Gives

@[simp]
theorem pure_iff {α : Type} {a b : α} :
    Gives (pure a : Build α) before b after ↔ a = b ∧ after = before := by
  constructor
  · intro h
    cases h
    exact ⟨rfl, rfl⟩
  · rintro ⟨rfl, rfl⟩
    rfl

@[simp]
theorem not_throw {α : Type} {e : Error} {a : α} : ¬ Gives (throw e : Build α) before a after := by
  intro h
  cases h

@[simp]
theorem not_refuse {α : Type} {cause : BuildCause} {a : α} :
    ¬ Gives (refuse cause place : Build α) before a after :=
  not_throw

/-- Steps one after the other succeed if both do. -/
theorem bind_iff {α β : Type} {step : Build α} {next : α → Build β} {b : β} :
    Gives (step >>= next) before b after ↔
      ∃ a between, Gives step before a between ∧ Gives (next a) between b after := by
  unfold Gives
  rw [Build.run_bind]
  constructor
  · intro h
    rcases hstep : step.run before with ⟨e | a, between⟩
    · rw [hstep] at h
      cases h
    · rw [hstep] at h
      exact ⟨a, between, rfl, h⟩
  · rintro ⟨a, between, hstep, hnext⟩
    rw [hstep]
    exact hnext

@[simp]
theorem require_iff {holds : Bool} {cause : BuildCause} {u : Unit} :
    Gives (require holds cause place) before u after ↔ holds = true ∧ after = before := by
  cases holds with
  | true => simp [require]
  | false => simp [require]

end Gives

/-! ### Members -/

/-- A path that is given can be read. -/
def Readable (path : Option String) : Prop := ∀ text, path = some text → Path.isPath text = true

/-- A value that is a reference to a fact names one, and its path can be read. -/
def SoundReference (value : Value) : Prop :=
  ∀ request, FactRequest.ofValue? value = some request →
    request.fact.truthy = true ∧ ∃ path, request.path = Value.ofText? path ∧ Readable path

/-- What a comparison has passed when it was built. -/
structure SoundLeaf (checked : Option Registry) (leaf : Leaf) : Prop where
  fact_ne : leaf.fact ≠ ""
  operator_ne : leaf.operator ≠ ""
  passes : Passes checked leaf.operator
  value : SoundReference leaf.value
  path : Readable leaf.path

namespace Gives

theorem readName_iff {name : Option String} : Gives (readName members place) before name after ↔
    (Table.find? members "name").getD .null = Value.ofText? name ∧ after = before := by
  unfold readName
  split
  · cases name <;> simp [Value.ofText?, *]
  · cases name <;> simp [Value.ofText?, *]
  · cases name <;> simp [Value.ofText?, *]
  · cases name <;> simp_all [Value.ofText?]

theorem readPriority_iff {priority : Option Priority} :
    Gives (readPriority members place) before priority after ↔
      Priority.ofValue ((Table.find? members "priority").getD .null) = .ok priority ∧
        after = before := by
  unfold readPriority
  cases Table.find? members "priority" with
  | none => simp [Priority.ofValue]
  | some value => cases h : Priority.ofValue value <;> simp [h]

theorem readText_iff {value : Value} {cause : BuildCause} {text : String} :
    Gives (readText value cause place) before text after ↔
      value = .str text ∧ text ≠ "" ∧ after = before := by
  cases value with
  | str given =>
      rw [readText, Value.str.injEq]
      by_cases hgiven : given = ""
      · rw [if_pos (String.isEmpty_iff.2 hgiven)]
        simp only [not_refuse, false_iff, not_and]
        exact fun heq hne _ => hne (heq ▸ hgiven)
      · rw [if_neg fun hempty => hgiven (String.isEmpty_iff.1 hempty), pure_iff]
        constructor
        · rintro ⟨rfl, hafter⟩
          exact ⟨rfl, hgiven, hafter⟩
        · rintro ⟨rfl, _, hafter⟩
          exact ⟨rfl, hafter⟩
  | _ => simp [readText]

theorem readPath_text_iff {text : String} {path : Option String} :
    Gives (readPath (some (.str text)) place) before path after ↔
      path = some text ∧ Path.isPath text = true ∧ after = before := by
  rw [readPath, Path.isPath]
  rcases Path.parse text with (_ | _) | steps
  · simp
  · simp
  · simp [eq_comm]

theorem readPath_iff {given : Option Value} {path : Option String} :
    Gives (readPath given place) before path after ↔
      given.getD .null = Value.ofText? path ∧ Readable path ∧ after = before := by
  rcases given with _ | value
  · cases path <;> simp [readPath, Value.ofText?, Readable]
  · cases value with
    | str text =>
        rw [readPath_text_iff]
        cases path with
        | none => simp [Value.ofText?]
        | some path =>
            simp only [Option.some.injEq, Option.getD_some, Value.ofText?, Value.str.injEq,
              Readable, forall_eq']
            constructor
            · rintro ⟨rfl, hpath, hafter⟩
              exact ⟨rfl, hpath, hafter⟩
            · rintro ⟨rfl, hpath, hafter⟩
              exact ⟨rfl, hpath, hafter⟩
    | null => cases path <;> simp [readPath, Value.ofText?, Readable]
    | _ => cases path <;> simp [readPath, Value.ofText?]

theorem readParams_iff {params : Option Members} :
    Gives (readParams members place) before params after ↔
      (Table.find? members "params").getD .null = params.elim .null .object ∧
        after = before := by
  unfold readParams
  cases params <;> split <;> simp_all

theorem isKnown_iff {operator : String} {known : Bool} :
    Gives (isKnown operator) before known after ↔
      (known = true ↔ Passes before operator) ∧ after = consult before operator := by
  cases before with
  | none =>
      have hstep : (isKnown operator).run none = (.ok true, none) := rfl
      rw [Gives, hstep, Prod.mk.injEq, Except.ok.injEq]
      simp [Passes, consult, eq_comm]
  | some registry =>
      have hstep : (isKnown operator).run (some registry) =
          (.ok (registry.has operator).1, some (registry.lookup operator).2) := rfl
      rw [Gives, hstep, Prod.mk.injEq, Except.ok.injEq]
      simp only [Passes, consult, Knows, Option.some.injEq, forall_eq', Option.map_some,
        ← Bool.eq_iff_iff]
      exact and_congr eq_comm eq_comm

theorem checkValue_iff {value : Value} {u : Unit} :
    Gives (checkValue value place) before u after ↔ SoundReference value ∧ after = before := by
  rw [checkValue, SoundReference]
  cases FactRequest.ofValue? value with
  | none => simp
  | some request =>
      simp only [bind_iff, require_iff, readPath_iff, pure_iff, Option.getD_some,
        Option.some.injEq, forall_eq']
      constructor
      · rintro ⟨_, _, ⟨htruthy, rfl⟩, path, _, ⟨hpath, hreadable, rfl⟩, _, rfl⟩
        exact ⟨⟨htruthy, path, hpath, hreadable⟩, rfl⟩
      · rintro ⟨⟨htruthy, path, hpath, hreadable⟩, rfl⟩
        exact ⟨(), _, ⟨htruthy, rfl⟩, path, _, ⟨hpath, hreadable, rfl⟩, trivial, rfl⟩

/-- What a comparison is read from. -/
theorem readLeaf_iff {leaf : Leaf} : Gives (readLeaf members place) before leaf after ↔
    Table.find? members "fact" = some (.str leaf.fact) ∧
    Table.find? members "operator" = some (.str leaf.operator) ∧
    Table.find? members "value" = some leaf.value ∧
    (Table.find? members "params").getD .null = leaf.params.elim .null .object ∧
    (Table.find? members "path").getD .null = Value.ofText? leaf.path ∧
    SoundLeaf before leaf ∧ after = consult before leaf.operator := by
  unfold readLeaf
  split
  · next fact operator value hfact hoperator hvalue =>
      simp only [bind_iff, readText_iff, isKnown_iff, require_iff, readParams_iff, readPath_iff,
        checkValue_iff, pure_iff, hfact, hoperator, hvalue, Option.some.injEq]
      constructor
      · rintro ⟨fact, _, ⟨rfl, hfactNe, rfl⟩, operator, _, ⟨rfl, hoperatorNe, rfl⟩, known, _,
          ⟨hknown, rfl⟩, _, _, ⟨htrue, rfl⟩, params, _, ⟨hparams, rfl⟩, path, _,
          ⟨hpath, hreadable, rfl⟩, _, _, ⟨hsound, rfl⟩, rfl, rfl⟩
        exact ⟨rfl, rfl, rfl, hparams, hpath,
          ⟨hfactNe, hoperatorNe, hknown.1 htrue, hsound, hreadable⟩, rfl⟩
      · rintro ⟨rfl, rfl, rfl, hparams, hpath, hsound, rfl⟩
        refine ⟨_, _, ⟨rfl, hsound.fact_ne, rfl⟩, _, _, ⟨rfl, hsound.operator_ne, rfl⟩, true, _,
          ⟨iff_of_true rfl hsound.passes, rfl⟩, (), _, ⟨rfl, rfl⟩, _, _, ⟨hparams, rfl⟩, _, _,
          ⟨hpath, hsound.path, rfl⟩, (), _, ⟨hsound.value, rfl⟩, rfl, rfl⟩
  · next hmissing =>
      simp only [not_refuse, false_iff]
      rintro ⟨hfact, hoperator, hvalue, _⟩
      exact hmissing _ _ _ hfact hoperator hvalue

end Gives

/-! ### Whole definitions -/

/-- The condition that a definition of these members gives, by its shape, with the name and the
priority that were read. -/
inductive Made (members : Members) (place : String) (before : Option Registry)
    (name : Option String) (priority : Option Priority) : Condition → Option Registry → Prop where
  | all {children : Value} {items : List Value} {conditions : List Condition}
      {after : Option Registry} (shape : Shape.of members = .all children)
      (array : children.array? = some items)
      (each : Gives (buildEach items (place ++ ".all") 0) before conditions after) :
      Made members place before name priority
        (.all conditions name (priority.getD Priority.first)) after
  | any {children : Value} {items : List Value} {conditions : List Condition}
      {after : Option Registry} (shape : Shape.of members = .any children)
      (array : children.array? = some items)
      (each : Gives (buildEach items (place ++ ".any") 0) before conditions after) :
      Made members place before name priority
        (.any conditions name (priority.getD Priority.first)) after
  | not {child : Value} {condition : Condition} {after : Option Registry}
      (shape : Shape.of members = .not child) (single : child.isArray = false)
      (built : Gives (build child (place ++ ".not")) before condition after) :
      Made members place before name priority
        (.not condition name (priority.getD Priority.first)) after
  | reference {target : String} (shape : Shape.of members = .reference (.str target))
      (nonempty : target ≠ "") :
      Made members place before name priority (.reference target name priority) before
  | never (shape : Shape.of members = .leaf) (never : isNever members = true) :
      Made members place before name priority (.never name) before
  | comparison {leaf : Leaf} {after : Option Registry} (shape : Shape.of members = .leaf)
      (compares : isNever members = false)
      (read : Gives (readLeaf members place) before leaf after) :
      Made members place before name priority (.comparison leaf name priority) after

/-- A definition gives what it is made by its shape, once its name and its priority are read. -/
theorem Gives.build_iff {condition : Condition} :
    Gives (build (.object members) place) before condition after ↔
      ∃ name priority, (Table.find? members "name").getD .null = Value.ofText? name ∧
        Priority.ofValue ((Table.find? members "priority").getD .null) = .ok priority ∧
          Made members place before name priority condition after := by
  rw [build]
  simp only [bind_iff, readName_iff, readPriority_iff]
  constructor
  · rintro ⟨name, _, ⟨hname, rfl⟩, priority, _, ⟨hpriority, rfl⟩, h⟩
    refine ⟨name, priority, hname, hpriority, ?_⟩
    split at h
    · next children hshape =>
        split at h
        · next items hitems =>
            simp only [bind_iff, pure_iff] at h
            obtain ⟨conditions, _, heach, rfl, rfl⟩ := h
            exact .all hshape hitems heach
        · exact absurd h not_refuse
    · next children hshape =>
        split at h
        · next items hitems =>
            simp only [bind_iff, pure_iff] at h
            obtain ⟨conditions, _, heach, rfl, rfl⟩ := h
            exact .any hshape hitems heach
        · exact absurd h not_refuse
    · next child hshape =>
        simp only [bind_iff, pure_iff, require_iff] at h
        obtain ⟨_, _, ⟨hsingle, rfl⟩, built, _, hbuilt, rfl, rfl⟩ := h
        exact .not hshape (by simpa using hsingle) hbuilt
    · next target hshape =>
        simp only [bind_iff, pure_iff, readText_iff] at h
        obtain ⟨text, _, ⟨rfl, hnonempty, rfl⟩, rfl, rfl⟩ := h
        exact .reference hshape hnonempty
    · next hshape =>
        split at h
        · next hnever =>
            obtain ⟨rfl, rfl⟩ := pure_iff.1 h
            exact .never hshape hnever
        · next hcompares =>
            simp only [bind_iff, pure_iff] at h
            obtain ⟨leaf, _, hleaf, rfl, rfl⟩ := h
            exact .comparison hshape (by simpa using hcompares) hleaf
    · exact absurd h not_refuse
  · rintro ⟨name, priority, hname, hpriority, h⟩
    refine ⟨name, _, ⟨hname, rfl⟩, priority, _, ⟨hpriority, rfl⟩, ?_⟩
    cases h with
    | all hshape hitems heach =>
        split <;> rename_i heq <;> cases hshape.symm.trans heq
        split <;> rename_i hother <;> cases hitems.symm.trans hother
        simp only [bind_iff, pure_iff]
        exact ⟨_, _, heach, rfl, rfl⟩
    | any hshape hitems heach =>
        split <;> rename_i heq <;> cases hshape.symm.trans heq
        split <;> rename_i hother <;> cases hitems.symm.trans hother
        simp only [bind_iff, pure_iff]
        exact ⟨_, _, heach, rfl, rfl⟩
    | not hshape hsingle hbuilt =>
        split <;> rename_i heq <;> cases hshape.symm.trans heq
        simp only [bind_iff, pure_iff, require_iff, Bool.not_eq_true']
        exact ⟨(), _, ⟨hsingle, rfl⟩, _, _, hbuilt, rfl, rfl⟩
    | reference hshape hnonempty =>
        split <;> rename_i heq <;> cases hshape.symm.trans heq
        simp only [bind_iff, pure_iff, readText_iff]
        exact ⟨_, _, ⟨rfl, hnonempty, rfl⟩, rfl, rfl⟩
    | never hshape hnever =>
        split <;> rename_i heq <;> cases hshape.symm.trans heq
        rw [if_pos hnever]
        exact pure_iff.2 ⟨rfl, rfl⟩
    | comparison hshape hcompares hleaf =>
        split <;> rename_i heq <;> cases hshape.symm.trans heq
        simp only [hcompares, Bool.false_eq_true, if_false, bind_iff, pure_iff]
        exact ⟨_, _, hleaf, rfl, rfl⟩

theorem Gives.exists_object {definition : Value} {condition : Condition}
    (h : Gives (build definition place) before condition after) :
    ∃ members, definition = .object members := by
  cases definition with
  | object members => exact ⟨members, rfl⟩
  | _ => simp [build] at h

theorem Gives.exists_made {definition : Value} {condition : Condition}
    (h : Gives (build definition place) before condition after) :
    ∃ members name priority, Made members place before name priority condition after := by
  obtain ⟨members, rfl⟩ := h.exists_object
  obtain ⟨name, priority, _, _, hmade⟩ := Gives.build_iff.1 h
  exact ⟨members, name, priority, hmade⟩

@[simp]
theorem Gives.buildEach_nil {index : Nat} {conditions : List Condition} :
    Gives (buildEach [] place index) before conditions after ↔
      conditions = [] ∧ after = before := by
  rw [buildEach, pure_iff, eq_comm]

theorem Gives.buildEach_cons {definition : Value} {rest : List Value} {index : Nat}
    {conditions : List Condition} :
    Gives (buildEach (definition :: rest) place index) before conditions after ↔
      ∃ condition others between, conditions = condition :: others ∧
        Gives (build definition (place ++ "[" ++ toString index ++ "]")) before condition between ∧
          Gives (buildEach rest place (index + 1)) between others after := by
  rw [buildEach]
  simp only [bind_iff, pure_iff]
  constructor
  · rintro ⟨condition, between, hfirst, others, _, hrest, rfl, rfl⟩
    exact ⟨condition, others, between, rfl, hfirst, hrest⟩
  · rintro ⟨condition, others, between, rfl, hfirst, hrest⟩
    exact ⟨condition, between, hfirst, others, after, hrest, rfl, rfl⟩

end Condition

end Rulebook
