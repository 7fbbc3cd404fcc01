import Rulebook.Proofs.Condition.Plain
import Rulebook.Proofs.Condition.RoundTrip

/-!
Results as definitions.

A result tells of its condition whatever a definition would tell, but for parameters and paths that
are empty and for priorities, which are those that were found (`ConditionResult.condition`).  What
else it tells is of no concern to building, so the result of a condition without references is the
definition of a condition that passes every check that its own has passed
(`Buildable.gives_toValue`).
-/

namespace Rulebook

open Registry

/-- The comparison as results tell of it: without parameters and without a path that are empty. -/
def Leaf.tidy (leaf : Leaf) : Leaf :=
  { leaf with
    params := leaf.params.filter fun members => !members.isEmpty
    path := leaf.path.filter fun path => !path.isEmpty }

theorem Leaf.tidy_tidy (leaf : Leaf) : leaf.tidy.tidy = leaf.tidy := by
  simp [Leaf.tidy, Option.filter_filter]

namespace ConditionResult

mutual

/-- The condition that a result is a definition of. -/
def condition : ConditionResult → Condition
  | .all head children => .all (conditions children) head.name (head.priority.getD Priority.first)
  | .any head children => .any (conditions children) head.name (head.priority.getD Priority.first)
  | .not head child => .not child.condition head.name (head.priority.getD Priority.first)
  | .never head => .never head.name
  | .reference head => .reference (head.reference.getD "") head.name head.priority
  | .comparison head leaf _ => .comparison leaf.tidy head.name head.priority

/-- The conditions that results are definitions of. -/
def conditions : List ConditionResult → List Condition
  | [] => []
  | result :: rest => result.condition :: conditions rest

end

mutual

/-- The result with its comparisons as it tells of them. -/
def tidy : ConditionResult → ConditionResult
  | .all head children => .all head (tidyEach children)
  | .any head children => .any head (tidyEach children)
  | .not head child => .not head child.tidy
  | .never head => .never head
  | .reference head => .reference head
  | .comparison head leaf sides => .comparison head leaf.tidy sides

/-- Results with their comparisons as they tell of them. -/
def tidyEach : List ConditionResult → List ConditionResult
  | [] => []
  | result :: rest => result.tidy :: tidyEach rest

end

theorem conditions_eq_map (results : List ConditionResult) :
    conditions results = results.map condition := by
  induction results with
  | nil => rfl
  | cons result rest ih => rw [conditions, ih, List.map_cons]

theorem tidyEach_eq_map (results : List ConditionResult) :
    tidyEach results = results.map tidy := by
  induction results with
  | nil => rfl
  | cons result rest ih => rw [tidyEach, ih, List.map_cons]

theorem toValues_eq_map (results : List ConditionResult) :
    toValues results = results.map toValue := by
  induction results with
  | nil => rfl
  | cons result rest ih => rw [toValues, ih, List.map_cons]

@[simp]
theorem head_tidy (result : ConditionResult) : result.tidy.head = result.head := by
  cases result <;> rfl

/-- The members that tell which values were compared. -/
def sideMembers : Option Sides → Members
  | some sides => [("factResult", sides.fact), ("valueResult", sides.value)]
  | none => []

/-- A result tells of a comparison what its definition does, and which values were compared. -/
theorem comparisonMembers_eq (leaf : Leaf) (sides : Option Sides) :
    comparisonMembers leaf sides = Condition.leafMembers leaf.tidy ++ sideMembers sides := by
  obtain ⟨fact, operator, value, params, path⟩ := leaf
  rcases params with _ | _ | ⟨member, members⟩ <;> rcases path with _ | path <;>
    rcases sides with _ | sides
  case none.some.none | none.some.some | some.nil.some.none | some.nil.some.some |
      some.cons.some.none | some.cons.some.some =>
    by_cases hempty : path = "" <;>
      simp [comparisonMembers, Condition.leafMembers, Leaf.tidy, sideMembers, Option.filter, hempty]
  all_goals rfl

/-- Nothing else is told of a result that is tidy. -/
theorem toValue_tidy (result : ConditionResult) : result.tidy.toValue = result.toValue := by
  have heach : ∀ children : List ConditionResult,
      (∀ child ∈ children, child.tidy.toValue = child.toValue) →
        toValues (tidyEach children) = toValues children := by
    intro children hchildren
    rw [tidyEach_eq_map, toValues_eq_map, toValues_eq_map, List.map_map]
    exact List.map_congr_left hchildren
  induction result with
  | all head children ih => rw [tidy, toValue, toValue, heach children ih]
  | any head children ih => rw [tidy, toValue, toValue, heach children ih]
  | not head child ih => rw [tidy, toValue, toValue, ih]
  | never head => rfl
  | reference head => rfl
  | comparison head leaf sides =>
      rw [tidy, toValue, toValue, comparisonMembers_eq, comparisonMembers_eq, Leaf.tidy_tidy]

end ConditionResult

namespace Condition

open ConditionResult

/-! ### Skipping -/

/-- Skipping what a skipped condition is told as is to skip it again. -/
theorem skip_condition_skip (condition : Condition) :
    condition.skip.condition.skip = condition.skip.tidy := by
  have heach : ∀ children : List Condition,
      (∀ child ∈ children, child.skip.condition.skip = child.skip.tidy) →
        skips (conditions (skips children)) = tidyEach (skips children) := by
    intro children hchildren
    rw [skips_eq_map, conditions_eq_map, tidyEach_eq_map, skips_eq_map, List.map_map, List.map_map,
      List.map_map]
    exact List.map_congr_left hchildren
  induction condition with
  | all children name priority ih =>
      rw [skip, ConditionResult.condition, skip, ConditionResult.tidy, heach children ih]
      rfl
  | any children name priority ih =>
      rw [skip, ConditionResult.condition, skip, ConditionResult.tidy, heach children ih]
      rfl
  | not child name priority ih =>
      rw [skip, ConditionResult.condition, skip, ConditionResult.tidy, ih]
      rfl
  | never name => rfl
  | reference target name priority => rfl
  | comparison leaf name priority => rfl

/-- A skipped condition is told with the priority by which it is scheduled. -/
theorem effectivePriority_condition_skip (almanac : Almanac) (condition : Condition) :
    condition.skip.condition.effectivePriority almanac = condition.effectivePriority almanac := by
  cases condition with
  | comparison leaf name priority => cases priority <;> rfl
  | _ => rfl

/-! ### References -/

/-- There is no reference in the condition. -/
def ReferenceFree (condition : Condition) : Prop :=
  ∀ target name priority, Condition.reference target name priority ∉ condition.parts

namespace ReferenceFree

variable {children : List Condition} {child : Condition} {name : Option String}
  {priority : Priority}

theorem of_all (h : (Condition.all children name priority).ReferenceFree) (hchild : child ∈ children) :
    child.ReferenceFree :=
  fun target name priority hmem => h target name priority
    (.tail _ (mem_partsEach.2 ⟨child, hchild, hmem⟩))

theorem of_any (h : (Condition.any children name priority).ReferenceFree) (hchild : child ∈ children) :
    child.ReferenceFree :=
  fun target name priority hmem => h target name priority
    (.tail _ (mem_partsEach.2 ⟨child, hchild, hmem⟩))

theorem of_not (h : (Condition.not child name priority).ReferenceFree) : child.ReferenceFree :=
  fun target name priority hmem => h target name priority (.tail _ hmem)

end ReferenceFree

/-- There is no reference in the condition, and this holds of every comparison in it. -/
inductive Every (good : Leaf → Prop) : Condition → Prop where
  | all {children : List Condition} (name : Option String) (priority : Priority)
      (each : ∀ child ∈ children, Every good child) : Every good (.all children name priority)
  | any {children : List Condition} (name : Option String) (priority : Priority)
      (each : ∀ child ∈ children, Every good child) : Every good (.any children name priority)
  | not {child : Condition} (name : Option String) (priority : Priority)
      (one : Every good child) : Every good (.not child name priority)
  | never (name : Option String) : Every good (.never name)
  | comparison {leaf : Leaf} (name : Option String) (priority : Option Priority)
      (compared : good leaf) : Every good (.comparison leaf name priority)

namespace Every

variable {good : Leaf → Prop} {condition : Condition} {checked : Option Registry}

/-- What is so of every part is so. -/
theorem of_parts (hfree : condition.ReferenceFree)
    (h : ∀ leaf name priority, Condition.comparison leaf name priority ∈ condition.parts →
      good leaf) : Every good condition := by
  induction condition with
  | all children name priority ih =>
      exact .all name priority fun child hchild => ih child hchild (hfree.of_all hchild)
        fun leaf name priority hleaf =>
          h leaf name priority (.tail _ (mem_partsEach.2 ⟨child, hchild, hleaf⟩))
  | any children name priority ih =>
      exact .any name priority fun child hchild => ih child hchild (hfree.of_any hchild)
        fun leaf name priority hleaf =>
          h leaf name priority (.tail _ (mem_partsEach.2 ⟨child, hchild, hleaf⟩))
  | not child name priority ih =>
      exact .not name priority (ih hfree.of_not fun leaf name priority hleaf =>
        h leaf name priority (.tail _ hleaf))
  | never name => exact .never name
  | reference target name priority => exact absurd (mem_parts_self _) (hfree target name priority)
  | comparison leaf name priority =>
      exact .comparison name priority (h leaf name priority (mem_parts_self _))

theorem of_mem_parts (h : Every good condition) {part : Condition}
    (hpart : part ∈ condition.parts) : Every good part := by
  have hself := h
  induction h with
  | all name priority _ ih =>
      rcases List.mem_cons.1 hpart with rfl | hmem
      · exact hself
      · obtain ⟨child, hchild, hpart⟩ := mem_partsEach.1 hmem
        cases hself with
        | all _ _ heach => exact ih child hchild hpart (heach child hchild)
  | any name priority _ ih =>
      rcases List.mem_cons.1 hpart with rfl | hmem
      · exact hself
      · obtain ⟨child, hchild, hpart⟩ := mem_partsEach.1 hmem
        cases hself with
        | any _ _ heach => exact ih child hchild hpart (heach child hchild)
  | not name priority _ ih =>
      rcases List.mem_cons.1 hpart with rfl | hmem
      · exact hself
      · cases hself with
        | not _ _ hone => exact ih hmem hone
  | never name =>
      obtain rfl := List.mem_singleton.1 hpart
      exact hself
  | comparison name priority _ =>
      obtain rfl := List.mem_singleton.1 hpart
      exact hself

theorem buildable (h : Every (SoundLeaf checked) condition) : Buildable checked condition := by
  induction h with
  | all name priority _ ih => exact .all name priority ih
  | any name priority _ ih => exact .any name priority ih
  | not name priority _ ih => exact .not name priority ih
  | never name => exact .never name
  | comparison name priority hleaf => exact .comparison name priority hleaf

end Every

theorem Buildable.every {condition : Condition} {checked : Option Registry}
    (h : Buildable checked condition) (hfree : condition.ReferenceFree) :
    Every (SoundLeaf checked) condition := by
  induction h with
  | all name priority _ ih =>
      exact .all name priority fun child hchild => ih child hchild (hfree.of_all hchild)
  | any name priority _ ih =>
      exact .any name priority fun child hchild => ih child hchild (hfree.of_any hchild)
  | not name priority _ ih => exact .not name priority (ih hfree.of_not)
  | never name => exact .never name
  | reference name priority _ => exact absurd (mem_parts_self _) (hfree _ name priority)
  | comparison name priority hleaf => exact .comparison name priority hleaf

end Condition

/-! ### Building from results -/

/-- The result tells of no reference, and of the priorities of its combinators. -/
inductive ConditionResult.Plain : ConditionResult → Prop where
  | all {results : List ConditionResult} (verdict : Option Bool) (name : Option String)
      (priority : Priority) (each : ∀ result ∈ results, Plain result) :
      Plain (.all ⟨verdict, some priority, name, none⟩ results)
  | any {results : List ConditionResult} (verdict : Option Bool) (name : Option String)
      (priority : Priority) (each : ∀ result ∈ results, Plain result) :
      Plain (.any ⟨verdict, some priority, name, none⟩ results)
  | not {result : ConditionResult} (verdict : Option Bool) (name : Option String)
      (priority : Priority) (one : Plain result) :
      Plain (.not ⟨verdict, some priority, name, none⟩ result)
  | never (verdict : Option Bool) (name : Option String) :
      Plain (.never ⟨verdict, some Priority.first, name, none⟩)
  | comparison (leaf : Leaf) (verdict : Option Bool) (name : Option String)
      (shown : Option Priority) (sides : Option Sides) :
      Plain (.comparison ⟨verdict, shown, name, none⟩ leaf sides)

namespace Condition

open ConditionResult

variable {before : Option Registry} {place : String} {verdict : Option Bool} {name : Option String}
  {priority : Priority} {children : List Condition} {results : List ConditionResult}
  {child : Condition} {result : ConditionResult}

/-- What else a result tells is of no concern to building. -/
theorem find?_tailMembers (head : ResultHead) (hreference : head.reference = none) {key : String}
    (hresult : key ≠ "result") (hskipped : key ≠ "skipped") :
    Table.find? (tailMembers head) key = none := by
  obtain ⟨verdict, priority, name, _⟩ := head
  obtain rfl := hreference
  cases verdict <;> simp [tailMembers, Table.find?, hresult.symm, hskipped.symm]

theorem find?_sideMembers (sides : Option Sides) {key : String} (hfact : key ≠ "factResult")
    (hvalue : key ≠ "valueResult") : Table.find? (sideMembers sides) key = none := by
  cases sides <;> simp [sideMembers, Table.find?, hfact.symm, hvalue.symm]

theorem SoundLeaf.tidy {leaf : Leaf} (h : SoundLeaf before leaf) : SoundLeaf before leaf.tidy where
  fact_ne := h.fact_ne
  operator_ne := h.operator_ne
  passes := h.passes
  value := h.value
  path text htext := h.path text (Option.eq_some_of_filter_eq_some htext)

/-- A condition is built from a result with its name and its priority, if its kind is. -/
theorem Gives.of_assemble {head : ResultHead} {members : Members} {condition : Condition}
    {after : Option Registry} (hreference : head.reference = none)
    (hname : Table.find? members "name" = none)
    (hpriority : Table.find? members "priority" = none)
    (hmade : Made (headMembers head.priority head.name ++ (members ++ tailMembers head)) place
      before head.name head.priority condition after) :
    Gives (build (assemble head members) place) before condition after := by
  have hnone : ∀ key ∈ ["name", "priority"], Table.find? members key = none →
      Table.find? (members ++ tailMembers head) key = none := by
    intro key hkey hmembers
    rw [Table.find?_append, hmembers, Option.none_or]
    apply find?_tailMembers head hreference
    · rintro rfl
      exact absurd hkey (by decide)
    · rintro rfl
      exact absurd hkey (by decide)
  rw [assemble, List.append_assoc]
  exact Gives.of_head (hnone "name" (by decide) hname) (hnone "priority" (by decide) hpriority) hmade

/-! One rule for each kind of result. -/

section Rules

variable {after : Option Registry} {priority : Priority} {results : List ConditionResult}
  {result : ConditionResult}

theorem Gives.all_toValue
    (heach : Gives (buildEach (toValues results) (place ++ ".all") 0) before (conditions results)
      after) :
    Gives (build (ConditionResult.all ⟨verdict, some priority, name, none⟩ results).toValue place)
      before (.all (conditions results) name priority) after := by
  have hshape : Shape.of ([("all", .list (toValues results)), ("operator", .str "all")] ++
      tailMembers ⟨verdict, some priority, name, none⟩) = .all (.list (toValues results)) := by
    simp [Shape.of, Table.find?, find?_tailMembers]
  exact Gives.of_assemble rfl rfl rfl (.all (shape_head.trans hshape) rfl heach)

theorem Gives.any_toValue
    (heach : Gives (buildEach (toValues results) (place ++ ".any") 0) before (conditions results)
      after) :
    Gives (build (ConditionResult.any ⟨verdict, some priority, name, none⟩ results).toValue place)
      before (.any (conditions results) name priority) after := by
  have hshape : Shape.of ([("any", .list (toValues results)), ("operator", .str "any")] ++
      tailMembers ⟨verdict, some priority, name, none⟩) = .any (.list (toValues results)) := by
    simp [Shape.of, Table.find?, find?_tailMembers]
  exact Gives.of_assemble rfl rfl rfl (.any (shape_head.trans hshape) rfl heach)

theorem isArray_toValue (result : ConditionResult) : result.toValue.isArray = false := by
  cases result <;> rfl

theorem Gives.not_toValue
    (hbuilt : Gives (build result.toValue (place ++ ".not")) before result.condition after) :
    Gives (build (ConditionResult.not ⟨verdict, some priority, name, none⟩ result).toValue place)
      before (.not result.condition name priority) after := by
  refine Gives.of_assemble rfl rfl rfl (.not (shape_head.trans ?_) (isArray_toValue result) hbuilt)
  simp [Shape.of, Table.find?, find?_tailMembers]

theorem Gives.never_toValue :
    Gives (build (ConditionResult.never ⟨verdict, some priority, name, none⟩).toValue place)
      before (.never name) before := by
  refine Gives.of_assemble rfl rfl rfl
    (.never (shape_head.trans ?_) (isNever_head.trans ?_))
  · simp [Shape.of, Table.find?, find?_tailMembers]
  · simp [isNever, Table.has, Table.find?, find?_tailMembers]

theorem Gives.comparison_toValue {leaf : Leaf} {shown : Option Priority} {sides : Option Sides}
    (hsound : SoundLeaf before leaf.tidy) :
    Gives (build (ConditionResult.comparison ⟨verdict, shown, name, none⟩ leaf sides).toValue place)
      before (.comparison leaf.tidy name shown) (consult before leaf.operator) := by
  obtain ⟨hfact, hoperator, hvalue, hparams, hpath⟩ := find?_leafMembers leaf.tidy
  have hnone : ∀ key ∈ ["name", "priority"],
      Table.find? (comparisonMembers leaf sides) key = none := by
    intro key hkey
    rw [comparisonMembers_eq, Table.find?_append]
    simp only [List.mem_cons, List.not_mem_nil, or_false] at hkey
    rcases hkey with rfl | rfl <;> simp [find?_leafMembers_eq_none, find?_sideMembers]
  refine Gives.of_assemble rfl (hnone "name" (by decide)) (hnone "priority" (by decide))
    (.comparison (shape_head.trans ?_) (isNever_head.trans ?_) ?_)
  all_goals rw [comparisonMembers_eq]
  · simp [Shape.of, Table.find?_append, find?_leafMembers_eq_none, find?_sideMembers,
      find?_tailMembers]
  · simp [isNever, Table.has, Table.find?_append, hfact]
  · simp only [Gives.readLeaf_iff, find?_head, ne_eq, String.reduceEq, not_false_eq_true]
    refine ⟨?_, ?_, ?_, ?_, ?_, hsound, rfl⟩
    all_goals simp [Table.find?_append, *, find?_sideMembers, find?_tailMembers]

end Rules

/-- What a result tells of its condition is built again, if the condition that it is a definition of
passes every check. -/
theorem Buildable.gives_toValue {result : ConditionResult} (hplain : result.Plain)
    (h : Buildable before result.condition) (place : String) :
    ∃ after, Gives (build result.toValue place) before result.condition after := by
  have heach : ∀ {results : List ConditionResult} {before : Option Registry} {place : String},
      (∀ result ∈ results, ∀ {before : Option Registry}, Buildable before result.condition →
        ∀ place, ∃ after, Gives (build result.toValue place) before result.condition after) →
      (∀ condition ∈ conditions results, Buildable before condition) →
        ∃ after, Gives (buildEach (toValues results) place 0) before (conditions results) after := by
    intro results before place hresults hbuildable
    rw [conditions_eq_map] at hbuildable ⊢
    rw [toValues_eq_map]
    exact gives_each fun result hresult later hlater => hresults result hresult
      ((hbuildable _ (List.mem_map_of_mem hresult)).consulted hlater)
  induction hplain generalizing before place with
  | all verdict name priority _ ih =>
      cases h with
      | all _ _ hchildren =>
          obtain ⟨after, hgives⟩ := heach (fun result hresult => ih result hresult) hchildren
          exact ⟨after, Gives.all_toValue hgives⟩
  | any verdict name priority _ ih =>
      cases h with
      | any _ _ hchildren =>
          obtain ⟨after, hgives⟩ := heach (fun result hresult => ih result hresult) hchildren
          exact ⟨after, Gives.any_toValue hgives⟩
  | not verdict name priority _ ih =>
      cases h with
      | not _ _ hchild =>
          obtain ⟨after, hgives⟩ := ih hchild (place ++ ".not")
          exact ⟨after, Gives.not_toValue hgives⟩
  | never verdict name => exact ⟨before, Gives.never_toValue⟩
  | comparison leaf verdict name shown sides =>
      cases h with
      | comparison _ _ hsound => exact ⟨_, Gives.comparison_toValue hsound⟩

/-! ### Results of conditions -/

/-- The result tells of the condition, and not of a reference: whatever holds of the comparisons in the
condition holds of those in what the result is a definition of, if it holds of them as they are told. -/
structure Retells (condition : Condition) (result : ConditionResult) : Prop where
  plain : result.Plain
  every : ∀ good : Leaf → Prop, (∀ leaf, good leaf → good leaf.tidy) → Every good condition →
    Every good result.condition

namespace Retells

variable {children : List Condition} {results : List ConditionResult} {child : Condition}
  {result : ConditionResult}

theorem all (name : Option String) (priority : Priority) (verdict : Option Bool)
    (h : ∀ result ∈ results, ∃ child ∈ children, Retells child result) :
    Retells (.all children name priority) (.all ⟨verdict, some priority, name, none⟩ results) where
  plain := by
    refine .all verdict name priority fun result hresult => ?_
    obtain ⟨_, _, hretells⟩ := h result hresult
    exact hretells.plain
  every good htidy hgood := by
    cases hgood with
    | all _ _ hchildren =>
        refine .all name priority fun condition hcondition => ?_
        rw [conditions_eq_map] at hcondition
        obtain ⟨result, hresult, rfl⟩ := List.mem_map.1 hcondition
        obtain ⟨child, hchild, hretells⟩ := h result hresult
        exact hretells.every good htidy (hchildren child hchild)

theorem any (name : Option String) (priority : Priority) (verdict : Option Bool)
    (h : ∀ result ∈ results, ∃ child ∈ children, Retells child result) :
    Retells (.any children name priority) (.any ⟨verdict, some priority, name, none⟩ results) where
  plain := by
    refine .any verdict name priority fun result hresult => ?_
    obtain ⟨_, _, hretells⟩ := h result hresult
    exact hretells.plain
  every good htidy hgood := by
    cases hgood with
    | any _ _ hchildren =>
        refine .any name priority fun condition hcondition => ?_
        rw [conditions_eq_map] at hcondition
        obtain ⟨result, hresult, rfl⟩ := List.mem_map.1 hcondition
        obtain ⟨child, hchild, hretells⟩ := h result hresult
        exact hretells.every good htidy (hchildren child hchild)

theorem not (name : Option String) (priority : Priority) (verdict : Option Bool)
    (h : Retells child result) :
    Retells (.not child name priority) (.not ⟨verdict, some priority, name, none⟩ result) where
  plain := .not verdict name priority h.plain
  every good htidy hgood := by
    cases hgood with
    | not _ _ hchild => exact .not name priority (h.every good htidy hchild)

theorem never (name : Option String) (verdict : Option Bool) :
    Retells (.never name) (.never ⟨verdict, some Priority.first, name, none⟩) where
  plain := .never verdict name
  every _ _ _ := .never name

theorem comparison (leaf : Leaf) (name : Option String) (priority shown : Option Priority)
    (verdict : Option Bool) (sides : Option Sides) :
    Retells (.comparison leaf name priority)
      (.comparison ⟨verdict, shown, name, none⟩ leaf sides) where
  plain := .comparison leaf verdict name shown sides
  every good htidy hgood := by
    cases hgood with
    | comparison _ _ hleaf => exact .comparison name shown (htidy leaf hleaf)

/-- What retells a condition that passes every check passes every check. -/
theorem buildable {condition : Condition} (h : Retells condition result)
    (hfree : condition.ReferenceFree) (hbuildable : Buildable before condition) :
    Buildable before result.condition :=
  (h.every (SoundLeaf before) (fun _ => SoundLeaf.tidy) (hbuildable.every hfree)).buildable

end Retells

/-- Skipping a condition without references retells it. -/
theorem retells_skip (condition : Condition) (hfree : condition.ReferenceFree) :
    Retells condition condition.skip := by
  induction condition with
  | all children name priority ih =>
      rw [skip, skips_eq_map]
      refine .all name priority none fun result hresult => ?_
      obtain ⟨child, hchild, rfl⟩ := List.mem_map.1 hresult
      exact ⟨child, hchild, ih child hchild (hfree.of_all hchild)⟩
  | any children name priority ih =>
      rw [skip, skips_eq_map]
      refine .any name priority none fun result hresult => ?_
      obtain ⟨child, hchild, rfl⟩ := List.mem_map.1 hresult
      exact ⟨child, hchild, ih child hchild (hfree.of_any hchild)⟩
  | not child name priority ih => exact .not name priority none (ih hfree.of_not)
  | never name => exact .never name none
  | reference target name priority => exact absurd (mem_parts_self _) (hfree target name priority)
  | comparison leaf name priority => exact .comparison leaf name priority priority none none

end Condition

end Rulebook
