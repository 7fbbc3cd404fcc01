import Rulebook.Proofs.Condition.Building
import Rulebook.Proofs.Condition.Induction

/-!
Definitions of conditions that were built.

A condition that was built is built again from its own definition (`Gives.again`).  That stays so
while operators are only looked up: `Buildable` collects the checks that a condition has passed when
it was built (`Gives.buildable`), and they are all it takes to build it (`Buildable.gives`).
-/

namespace Rulebook.Condition

open Registry

variable {before between after : Option Registry} {condition : Condition} {place : String}

/-- Everything that is checked when a condition is built holds of it. -/
inductive Buildable (checked : Option Registry) : Condition → Prop where
  | all {children : List Condition} (name : Option String) (priority : Priority)
      (each : ∀ child ∈ children, Buildable checked child) :
      Buildable checked (.all children name priority)
  | any {children : List Condition} (name : Option String) (priority : Priority)
      (each : ∀ child ∈ children, Buildable checked child) :
      Buildable checked (.any children name priority)
  | not {child : Condition} (name : Option String) (priority : Priority)
      (buildable : Buildable checked child) : Buildable checked (.not child name priority)
  | never (name : Option String) : Buildable checked (.never name)
  | reference {target : String} (name : Option String) (priority : Option Priority)
      (nonempty : target ≠ "") : Buildable checked (.reference target name priority)
  | comparison {leaf : Leaf} (name : Option String) (priority : Option Priority)
      (sound : SoundLeaf checked leaf) : Buildable checked (.comparison leaf name priority)

theorem Buildable.consulted (h : Buildable before condition) (hlater : Consulted before after) :
    Buildable after condition := by
  induction h with
  | all name priority _ ih => exact .all name priority ih
  | any name priority _ ih => exact .any name priority ih
  | not name priority _ ih => exact .not name priority ih
  | never name => exact .never name
  | reference name priority hnonempty => exact .reference name priority hnonempty
  | comparison name priority hsound =>
      exact .comparison name priority { hsound with passes := hlater.passes hsound.passes }

/-! ### What building checks -/

theorem SoundLeaf.of_gives {members : Members} {leaf : Leaf}
    (h : Gives (readLeaf members place) before leaf after) :
    Consulted before after ∧ SoundLeaf after leaf := by
  obtain ⟨_, _, _, _, _, hsound, rfl⟩ := Gives.readLeaf_iff.1 h
  have hlater : Consulted before (consult before leaf.operator) := (Consulted.refl _).consult _
  exact ⟨hlater, { hsound with passes := hlater.passes hsound.passes }⟩

/-- If building each of the conditions checks it, then building them all checks them all. -/
theorem buildable_of_each {conditions : List Condition} {definitions : List Value} {index : Nat}
    (heach : ∀ condition ∈ conditions, ∀ {before after : Option Registry} {place : String}
      {definition : Value}, Gives (build definition place) before condition after →
        Consulted before after ∧ Buildable after condition)
    (h : Gives (buildEach definitions place index) before conditions after) :
    Consulted before after ∧ ∀ condition ∈ conditions, Buildable after condition := by
  induction conditions generalizing definitions index before with
  | nil =>
      cases definitions with
      | nil =>
          obtain ⟨_, rfl⟩ := Gives.buildEach_nil.1 h
          exact ⟨.refl _, fun _ hmem => nomatch hmem⟩
      | cons definition rest =>
          obtain ⟨_, _, _, hcons, _⟩ := Gives.buildEach_cons.1 h
          cases hcons
  | cons condition others ih =>
      cases definitions with
      | nil => cases (Gives.buildEach_nil.1 h).1
      | cons definition rest =>
          obtain ⟨_, _, between, hcons, hfirst, hrest⟩ := Gives.buildEach_cons.1 h
          cases hcons
          obtain ⟨hconsulted, hbuildable⟩ := heach condition List.mem_cons_self hfirst
          obtain ⟨hlater, hothers⟩ :=
            ih (fun other hother => heach other (List.mem_cons_of_mem _ hother)) hrest
          refine ⟨hconsulted.trans hlater, fun built hmem => ?_⟩
          rcases List.mem_cons.1 hmem with rfl | hother
          · exact hbuildable.consulted hlater
          · exact hothers built hother

/-- A condition that was built has passed every check, and building it did nothing but look
operators up. -/
theorem Gives.buildable {definition : Value}
    (h : Gives (build definition place) before condition after) :
    Consulted before after ∧ Buildable after condition := by
  induction condition generalizing definition place before after with
  | all children name priority ih =>
      obtain ⟨_, _, _, hmade⟩ := h.exists_made
      cases hmade with
      | all _ _ heach =>
          obtain ⟨hconsulted, hchildren⟩ := buildable_of_each ih heach
          exact ⟨hconsulted, .all _ _ hchildren⟩
  | any children name priority ih =>
      obtain ⟨_, _, _, hmade⟩ := h.exists_made
      cases hmade with
      | any _ _ heach =>
          obtain ⟨hconsulted, hchildren⟩ := buildable_of_each ih heach
          exact ⟨hconsulted, .any _ _ hchildren⟩
  | not child name priority ih =>
      obtain ⟨_, _, _, hmade⟩ := h.exists_made
      cases hmade with
      | not _ _ hbuilt => exact ⟨(ih hbuilt).1, .not _ _ (ih hbuilt).2⟩
  | never name =>
      obtain ⟨_, _, _, hmade⟩ := h.exists_made
      cases hmade with
      | never => exact ⟨.refl _, .never _⟩
  | reference target name priority =>
      obtain ⟨_, _, _, hmade⟩ := h.exists_made
      cases hmade with
      | reference _ hnonempty => exact ⟨.refl _, .reference _ _ hnonempty⟩
  | comparison leaf name priority =>
      obtain ⟨_, _, _, hmade⟩ := h.exists_made
      cases hmade with
      | comparison _ _ hleaf =>
          obtain ⟨hconsulted, hsound⟩ := SoundLeaf.of_gives hleaf
          exact ⟨hconsulted, .comparison _ _ hsound⟩

/-- What a definition gives is built from it, or from the data that it is the text of. -/
theorem exists_build_of_ofDefinition {definition : Value}
    (h : Gives (ofDefinition definition) before condition after) :
    ∃ data, Gives (build data "$") before condition after := by
  unfold ofDefinition at h
  split at h
  · split at h
    · exact ⟨_, h⟩
    · exact absurd h Gives.not_throw
  · exact ⟨_, h⟩

/-! ### Definitions of conditions -/

theorem ofValue_toValue (priority : Priority) :
    Priority.ofValue priority.toValue = .ok (some priority) := by
  obtain ⟨level, hlevel⟩ := priority
  simp [Priority.toValue, Priority.ofValue, Priority.ofInt, Priority.ofInt?, hlevel, Except.map]

section Head

variable {name : Option String} {priority : Option Priority} {extra : Members}

/-- Behind the head, a definition has the members that come after it. -/
theorem find?_head {key : String} (hname : key ≠ "name") (hpriority : key ≠ "priority") :
    Table.find? (headMembers priority name ++ extra) key = Table.find? extra key := by
  cases name <;> cases priority <;>
    simp [headMembers, Table.find?, hname.symm, hpriority.symm]

theorem name_head (h : Table.find? extra "name" = none) :
    (Table.find? (headMembers priority name ++ extra) "name").getD .null =
      Value.ofText? name := by
  cases name <;> cases priority <;> simp [headMembers, Table.find?, Value.ofText?, h]

theorem priority_head (h : Table.find? extra "priority" = none) :
    Priority.ofValue ((Table.find? (headMembers priority name ++ extra) "priority").getD .null) =
      .ok priority := by
  cases priority with
  | some priority => simp [headMembers, Table.find?, ofValue_toValue]
  | none => cases name <;> simp [headMembers, Table.find?, Priority.ofValue, h]

theorem presentKeys_head :
    presentKeys kindKeys (headMembers priority name ++ extra) = presentKeys kindKeys extra := by
  refine List.filter_congr fun key hkey => ?_
  rw [Table.has, Table.has, find?_head]
  · rintro rfl
    exact absurd hkey (by decide)
  · rintro rfl
    exact absurd hkey (by decide)

/-- The head does not matter to the shape. -/
theorem shape_head : Shape.of (headMembers priority name ++ extra) = Shape.of extra := by
  simp [Shape.of, find?_head, presentKeys_head]

theorem isNever_head : isNever (headMembers priority name ++ extra) = isNever extra := by
  simp [isNever, Table.has, find?_head]

/-- The head is read from a definition, and the rest makes the condition. -/
theorem Gives.of_head (hname : Table.find? extra "name" = none)
    (hpriority : Table.find? extra "priority" = none)
    (hmade : Made (headMembers priority name ++ extra) place before name priority condition
      after) :
    Gives (build (.object (headMembers priority name ++ extra)) place) before condition after :=
  Gives.build_iff.2 ⟨name, priority, name_head hname, priority_head hpriority, hmade⟩

end Head

theorem isArray_toDefinition (condition : Condition) :
    condition.toDefinition.isArray = false := by
  cases condition <;> simp [toDefinition, Value.isArray, Value.array?]

theorem find?_leafMembers (leaf : Leaf) :
    Table.find? (leafMembers leaf) "fact" = some (.str leaf.fact) ∧
    Table.find? (leafMembers leaf) "operator" = some (.str leaf.operator) ∧
    Table.find? (leafMembers leaf) "value" = some leaf.value ∧
    (Table.find? (leafMembers leaf) "params").getD .null = leaf.params.elim .null .object ∧
    (Table.find? (leafMembers leaf) "path").getD .null = Value.ofText? leaf.path := by
  obtain ⟨fact, operator, value, params, path⟩ := leaf
  cases params <;> cases path <;> simp [leafMembers, Table.find?, Value.ofText?]

theorem find?_leafMembers_eq_none (leaf : Leaf) {key : String}
    (hkey : key ∈ ["name", "priority", "all", "any", "not", "condition"]) :
    Table.find? (leafMembers leaf) key = none := by
  obtain ⟨fact, operator, value, params, path⟩ := leaf
  simp only [List.mem_cons, List.not_mem_nil, or_false] at hkey
  rcases hkey with rfl | rfl | rfl | rfl | rfl | rfl <;> cases params <;> cases path <;> rfl

theorem shape_leafMembers (leaf : Leaf) : Shape.of (leafMembers leaf) = .leaf := by
  simp [Shape.of, find?_leafMembers_eq_none]

/-! ### Building from the definition of a condition

One rule for each kind: the definition of a condition gives it, if the definitions of its children
give them. -/

section Rules

variable {children : List Condition} {child : Condition} {name : Option String}

theorem Gives.all_toDefinition {priority : Priority}
    (heach : Gives (buildEach (toDefinitions children) (place ++ ".all") 0) before children after) :
    Gives (build (Condition.all children name priority).toDefinition place) before
      (.all children name priority) after :=
  Gives.of_head rfl rfl (.all (shape_head.trans rfl) rfl heach)

theorem Gives.any_toDefinition {priority : Priority}
    (heach : Gives (buildEach (toDefinitions children) (place ++ ".any") 0) before children after) :
    Gives (build (Condition.any children name priority).toDefinition place) before
      (.any children name priority) after :=
  Gives.of_head rfl rfl (.any (shape_head.trans rfl) rfl heach)

theorem Gives.not_toDefinition {priority : Priority}
    (hbuilt : Gives (build child.toDefinition (place ++ ".not")) before child after) :
    Gives (build (Condition.not child name priority).toDefinition place) before
      (.not child name priority) after :=
  Gives.of_head rfl rfl (.not (shape_head.trans rfl) (isArray_toDefinition child) hbuilt)

theorem Gives.never_toDefinition :
    Gives (build (Condition.never name).toDefinition place) before (.never name) before :=
  Gives.of_head rfl rfl (.never (shape_head.trans rfl) (isNever_head.trans rfl))

theorem Gives.reference_toDefinition {target : String} {priority : Option Priority}
    (hnonempty : target ≠ "") :
    Gives (build (Condition.reference target name priority).toDefinition place) before
      (.reference target name priority) before :=
  Gives.of_head rfl rfl (.reference (shape_head.trans rfl) hnonempty)

theorem Gives.comparison_toDefinition {leaf : Leaf} {priority : Option Priority}
    (hsound : SoundLeaf before leaf) :
    Gives (build (Condition.comparison leaf name priority).toDefinition place) before
      (.comparison leaf name priority) (consult before leaf.operator) := by
  obtain ⟨hfact, hoperator, hvalue, hparams, hpath⟩ := find?_leafMembers leaf
  have hread : Gives (readLeaf (headMembers priority name ++ leafMembers leaf) place) before leaf
      (consult before leaf.operator) := by
    simp only [Gives.readLeaf_iff, find?_head, ne_eq, String.reduceEq, not_false_eq_true]
    exact ⟨hfact, hoperator, hvalue, hparams, hpath, hsound, trivial⟩
  have hcompares : isNever (leafMembers leaf) = false := by simp [isNever, Table.has, hfact]
  exact Gives.of_head (find?_leafMembers_eq_none leaf (by decide))
    (find?_leafMembers_eq_none leaf (by decide))
    (.comparison (shape_head.trans (shape_leafMembers leaf)) (isNever_head.trans hcompares) hread)

end Rules

/-- If each of the conditions that were built is given by its own definition, then so are they all,
one after the other. -/
theorem again_of_each {conditions : List Condition} {definitions : List Value} {index : Nat}
    {elsewhere : String}
    (heach : ∀ condition ∈ conditions, ∀ {before after : Option Registry} {place : String}
      {definition : Value}, Gives (build definition place) before condition after →
        ∀ elsewhere, Gives (build condition.toDefinition elsewhere) before condition after)
    (h : Gives (buildEach definitions place index) before conditions after) :
    Gives (buildEach (toDefinitions conditions) elsewhere index) before conditions after := by
  induction conditions generalizing definitions index before with
  | nil =>
      cases definitions with
      | nil => exact Gives.buildEach_nil.2 (Gives.buildEach_nil.1 h)
      | cons definition rest =>
          obtain ⟨_, _, _, hcons, _⟩ := Gives.buildEach_cons.1 h
          cases hcons
  | cons condition others ih =>
      cases definitions with
      | nil => cases (Gives.buildEach_nil.1 h).1
      | cons definition rest =>
          obtain ⟨_, _, between, hcons, hfirst, hrest⟩ := Gives.buildEach_cons.1 h
          cases hcons
          exact Gives.buildEach_cons.2 ⟨_, _, between, rfl, heach _ List.mem_cons_self hfirst _,
            ih (fun other hother => heach other (List.mem_cons_of_mem _ hother)) hrest⟩

/-- What was built is built again from its own definition, with the same look-ups. -/
theorem Gives.again {definition : Value}
    (h : Gives (build definition place) before condition after) (elsewhere : String) :
    Gives (build condition.toDefinition elsewhere) before condition after := by
  induction condition generalizing definition place before after elsewhere with
  | all children name priority ih =>
      obtain ⟨_, _, _, hmade⟩ := h.exists_made
      cases hmade with
      | all _ _ heach => exact Gives.all_toDefinition (again_of_each ih heach)
  | any children name priority ih =>
      obtain ⟨_, _, _, hmade⟩ := h.exists_made
      cases hmade with
      | any _ _ heach => exact Gives.any_toDefinition (again_of_each ih heach)
  | not child name priority ih =>
      obtain ⟨_, _, _, hmade⟩ := h.exists_made
      cases hmade with
      | not _ _ hbuilt => exact Gives.not_toDefinition (ih hbuilt _)
  | never name =>
      obtain ⟨_, _, _, hmade⟩ := h.exists_made
      cases hmade with
      | never => exact Gives.never_toDefinition
  | reference target name priority =>
      obtain ⟨_, _, _, hmade⟩ := h.exists_made
      cases hmade with
      | reference _ hnonempty => exact Gives.reference_toDefinition hnonempty
  | comparison leaf name priority =>
      obtain ⟨_, _, _, hmade⟩ := h.exists_made
      cases hmade with
      | comparison _ _ hleaf =>
          obtain ⟨_, _, _, _, _, hsound, rfl⟩ := Gives.readLeaf_iff.1 hleaf
          exact Gives.comparison_toDefinition hsound

theorem toDefinitions_eq_map (conditions : List Condition) :
    toDefinitions conditions = conditions.map toDefinition := by
  induction conditions with
  | nil => rfl
  | cons condition rest ih => rw [toDefinitions, ih, List.map_cons]

/-- If a condition is built from each of some definitions, whatever was looked up before, then they
all are, one after the other. -/
theorem gives_each {α : Type} {items : List α} {definition : α → Value} {built : α → Condition}
    {index : Nat} (heach : ∀ item ∈ items, ∀ later, Consulted before later → ∀ place,
      ∃ after, Gives (build (definition item) place) later (built item) after) :
    ∃ after, Gives (buildEach (items.map definition) place index) before (items.map built) after := by
  induction items generalizing before index with
  | nil => exact ⟨before, Gives.buildEach_nil.2 ⟨rfl, rfl⟩⟩
  | cons item others ih =>
      obtain ⟨between, hfirst⟩ := heach item List.mem_cons_self before (.refl before)
        (place ++ "[" ++ toString index ++ "]")
      obtain ⟨after, hrest⟩ := @ih between (index + 1) fun other hother later hlater =>
        heach other (List.mem_cons_of_mem _ hother) later (hfirst.buildable.1.trans hlater)
      exact ⟨after, Gives.buildEach_cons.2 ⟨_, _, between, rfl, hfirst, hrest⟩⟩

theorem gives_toDefinitions {children : List Condition}
    (heach : ∀ child ∈ children, ∀ {before : Option Registry}, Buildable before child →
      ∀ place, ∃ after, Gives (build child.toDefinition place) before child after)
    (hbuildable : ∀ child ∈ children, Buildable before child) :
    ∃ after, Gives (buildEach (toDefinitions children) place 0) before children after := by
  have hgives : ∃ after, Gives (buildEach (children.map toDefinition) place 0) before
      (children.map id) after :=
    gives_each fun child hchild later hlater =>
      heach child hchild ((hbuildable child hchild).consulted hlater)
  rwa [List.map_id, ← toDefinitions_eq_map] at hgives

/-- A condition that has passed every check is built from its own definition. -/
theorem Buildable.gives (h : Buildable before condition) (place : String) :
    ∃ after, Gives (build condition.toDefinition place) before condition after := by
  induction condition generalizing before place with
  | all children name priority ih =>
      cases h with
      | all _ _ hchildren =>
          obtain ⟨after, heach⟩ := gives_toDefinitions ih hchildren
          exact ⟨after, Gives.all_toDefinition heach⟩
  | any children name priority ih =>
      cases h with
      | any _ _ hchildren =>
          obtain ⟨after, heach⟩ := gives_toDefinitions ih hchildren
          exact ⟨after, Gives.any_toDefinition heach⟩
  | not child name priority ih =>
      cases h with
      | not _ _ hchild =>
          obtain ⟨after, hbuilt⟩ := ih hchild (place ++ ".not")
          exact ⟨after, Gives.not_toDefinition hbuilt⟩
  | never name => exact ⟨before, Gives.never_toDefinition⟩
  | reference target name priority =>
      cases h with
      | reference _ _ hnonempty => exact ⟨before, Gives.reference_toDefinition hnonempty⟩
  | comparison leaf name priority =>
      cases h with
      | comparison _ _ hsound => exact ⟨_, Gives.comparison_toDefinition hsound⟩

/-! ### Kinds -/

/-- The members of the definition of a condition. -/
def definitionMembers (condition : Condition) : Members :=
  (condition.toDefinition.members?).getD []

theorem toDefinition_eq (condition : Condition) :
    condition.toDefinition = .object condition.definitionMembers := by
  cases condition <;> rfl

/-- The members that make a kind of their own, by the shape. -/
def Shape.keys : Shape → List String
  | .all _ => ["all"]
  | .any _ => ["any"]
  | .not _ => ["not"]
  | .reference _ => ["condition"]
  | .leaf => []
  | .mixed keys => keys

theorem presentKeys_eq_keys (members : Members) :
    presentKeys kindKeys members = (Shape.of members).keys := by
  unfold Shape.of
  split <;> simp_all [presentKeys, kindKeys, Table.has, Shape.keys]

/-- The member that makes a kind, if one does. -/
def Kind.keys : Kind → List String
  | .all => ["all"]
  | .any => ["any"]
  | .not => ["not"]
  | .reference => ["condition"]
  | .never | .comparison => []

theorem Made.presentKeys {members : Members} {name : Option String} {priority : Option Priority}
    (h : Made members place before name priority condition after) :
    presentKeys kindKeys members = Kind.keys condition.kind := by
  rw [presentKeys_eq_keys]
  cases h with
  | all hshape | any hshape | not hshape | reference hshape | never hshape | comparison hshape =>
      rw [hshape]
      rfl

/-- The definition of a condition has the members that made its kind. -/
theorem Gives.presentKeys {members : Members}
    (h : Gives (build (.object members) place) before condition after) :
    presentKeys kindKeys condition.definitionMembers = presentKeys kindKeys members := by
  have hagain := h.again place
  rw [toDefinition_eq] at hagain
  obtain ⟨_, _, _, _, hmade⟩ := Gives.build_iff.1 h
  obtain ⟨_, _, _, _, hsame⟩ := Gives.build_iff.1 hagain
  rw [hmade.presentKeys, hsame.presentKeys]

end Rulebook.Condition
