import Rulebook.Proofs.Condition.Trail
import Rulebook.Proofs.Table

/-!
Verdicts that are determined.

A condition may be determined although some of its comparisons fail: a false child determines `all`
whatever the others come to.  `Determined` says what the verdict of a condition is as far as it is
determined; there is at most one (`Determined.unique`), it does not depend on priorities
(`Determined.unranked`), and every evaluation that leaves a trail has found it
(`Trail.determined`).
-/

namespace Rulebook.Condition

/-! ### Conditions without priorities -/

mutual

/-- A condition with the same priority everywhere. -/
def unranked : Condition → Condition
  | .all children name _ => .all (unrankedEach children) name Priority.first
  | .any children name _ => .any (unrankedEach children) name Priority.first
  | .not child name _ => .not child.unranked name Priority.first
  | .never name => .never name
  | .reference target name _ => .reference target name none
  | .comparison leaf name _ => .comparison leaf name none

/-- Conditions with the same priority everywhere. -/
def unrankedEach : List Condition → List Condition
  | [] => []
  | condition :: rest => condition.unranked :: unrankedEach rest

end

/-- Named conditions with the same priority everywhere. -/
def unrankedNames (named : Table Value Condition) : Table Value Condition :=
  named.map fun entry => (entry.1, entry.2.unranked)

theorem unrankedEach_eq_map (conditions : List Condition) :
    unrankedEach conditions = conditions.map unranked := by
  induction conditions with
  | nil => rfl
  | cons condition rest ih => rw [unrankedEach, ih, List.map_cons]

theorem find?_unrankedNames (named : Table Value Condition) (key : Value) :
    (unrankedNames named).find? key = (named.find? key).map unranked :=
  Table.find?_map named unranked key

/-! ### Determined verdicts -/

variable {named : Table Value Condition} {outcome : Leaf → Option Bool} {condition : Condition}

/-- The verdict of a condition follows from the outcomes of its comparisons; those without an
outcome fail. -/
inductive Determined (named : Table Value Condition) (outcome : Leaf → Option Bool) :
    Condition → Bool → Prop where
  | allTrue {children : List Condition} (name : Option String) (priority : Priority)
      (each : ∀ child ∈ children, Determined named outcome child true) :
      Determined named outcome (.all children name priority) true
  | allFalse {children : List Condition} {child : Condition} (name : Option String)
      (priority : Priority) (mem : child ∈ children) (one : Determined named outcome child false) :
      Determined named outcome (.all children name priority) false
  | anyNone (name : Option String) (priority : Priority) :
      Determined named outcome (.any [] name priority) true
  | anyTrue {children : List Condition} {child : Condition} (name : Option String)
      (priority : Priority) (mem : child ∈ children) (one : Determined named outcome child true) :
      Determined named outcome (.any children name priority) true
  | anyFalse {children : List Condition} (name : Option String) (priority : Priority)
      (some : children ≠ []) (each : ∀ child ∈ children, Determined named outcome child false) :
      Determined named outcome (.any children name priority) false
  | not {child : Condition} {verdict : Bool} (name : Option String) (priority : Priority)
      (one : Determined named outcome child verdict) :
      Determined named outcome (.not child name priority) !verdict
  | never (name : Option String) : Determined named outcome (.never name) false
  | reference {target : String} {condition : Condition} {verdict : Bool} (name : Option String)
      (priority : Option Priority) (found : named.find? (.str target) = some condition)
      (one : Determined named outcome condition verdict) :
      Determined named outcome (.reference target name priority) verdict
  | undefined {target : String} (name : Option String) (priority : Option Priority)
      (missing : named.find? (.str target) = none) :
      Determined named outcome (.reference target name priority) false
  | comparison {leaf : Leaf} {verdict : Bool} (name : Option String) (priority : Option Priority)
      (compared : outcome leaf = some verdict) :
      Determined named outcome (.comparison leaf name priority) verdict

/-- A condition is not determined in two ways. -/
theorem Determined.unique {verdict other : Bool} (h : Determined named outcome condition verdict)
    (hother : Determined named outcome condition other) : verdict = other := by
  induction h generalizing other with
  | allTrue name priority _ ih =>
      cases hother with
      | allTrue => rfl
      | allFalse _ _ hmem hone => exact ih _ hmem hone
  | allFalse name priority hmem _ ih =>
      cases hother with
      | allTrue _ _ heach => exact ih (heach _ hmem)
      | allFalse => rfl
  | anyNone name priority =>
      cases hother with
      | anyNone => rfl
      | anyTrue => rfl
      | anyFalse _ _ hsome => exact absurd rfl hsome
  | anyTrue name priority hmem _ ih =>
      cases hother with
      | anyNone => rfl
      | anyTrue => rfl
      | anyFalse _ _ _ heach => exact ih (heach _ hmem)
  | anyFalse name priority hsome _ ih =>
      cases hother with
      | anyNone => exact absurd rfl hsome
      | anyTrue _ _ hmem hone => exact ih _ hmem hone
      | anyFalse => rfl
  | not name priority _ ih =>
      cases hother with
      | not _ _ hone => rw [ih hone]
  | never name =>
      cases hother
      rfl
  | reference name priority hfound _ ih =>
      cases hother with
      | reference _ _ hfound' hone =>
          rw [hfound, Option.some.injEq] at hfound'
          exact ih (hfound' ▸ hone)
      | undefined _ _ hmissing =>
          rw [hfound] at hmissing
          cases hmissing
  | undefined name priority hmissing =>
      cases hother with
      | reference _ _ hfound _ =>
          rw [hfound] at hmissing
          cases hmissing
      | undefined => rfl
  | comparison name priority hcompared =>
      cases hother with
      | comparison _ _ hcompared' =>
          rw [hcompared, Option.some.injEq] at hcompared'
          exact hcompared'

/-- Priorities do not matter to what is determined. -/
theorem Determined.unranked {verdict : Bool} (h : Determined named outcome condition verdict) :
    Determined (unrankedNames named) outcome condition.unranked verdict := by
  induction h with
  | allTrue name priority _ ih =>
      rw [Condition.unranked, unrankedEach_eq_map]
      apply Determined.allTrue name Priority.first
      intro child hchild
      obtain ⟨child, hmem, rfl⟩ := List.mem_map.1 hchild
      exact ih child hmem
  | allFalse name priority hmem _ ih =>
      rw [Condition.unranked, unrankedEach_eq_map]
      exact .allFalse name Priority.first (List.mem_map_of_mem hmem) ih
  | anyNone name priority => exact .anyNone name Priority.first
  | anyTrue name priority hmem _ ih =>
      rw [Condition.unranked, unrankedEach_eq_map]
      exact .anyTrue name Priority.first (List.mem_map_of_mem hmem) ih
  | anyFalse name priority hsome _ ih =>
      rw [Condition.unranked, unrankedEach_eq_map]
      apply Determined.anyFalse name Priority.first (by simpa using hsome)
      intro child hchild
      obtain ⟨child, hmem, rfl⟩ := List.mem_map.1 hchild
      exact ih child hmem
  | not name priority _ ih => exact .not name Priority.first ih
  | never name => exact .never name
  | reference name priority hfound _ ih =>
      exact .reference name none (by rw [find?_unrankedNames, hfound, Option.map_some]) ih
  | undefined name priority hmissing =>
      exact .undefined name none (by rw [find?_unrankedNames, hmissing, Option.map_none])
  | comparison name priority hcompared => exact .comparison name none hcompared

/-! ### Trails -/

/-- The reading of a condition in which each comparison has a fixed outcome. -/
def fixedReading (named : Table Value Condition) (lenient : Bool) (outcome : Leaf → Option Bool) :
    Reading where
  named := named
  lenient := lenient
  compares leaf result := result.toOption.map (·.1) = outcome leaf

/-- What is found of a child is determined. -/
abbrev Finds (named : Table Value Condition) (outcome : Leaf → Option Bool) (child : Condition)
    (result : ConditionResult) : Prop :=
  ∀ verdict, result.head.verdict = some verdict → Determined named outcome child verdict

section Joined

variable {children : List Condition} {results : List ConditionResult} {verdict : Bool}

theorem determined_all (name : Option String) (priority : Priority)
    (hjoined : Schedule.Joined .all verdict results)
    (hresults : ∀ result ∈ results, ∃ child ∈ children, Finds named outcome child result)
    (hchildren : ∀ child ∈ children, ∃ result ∈ results, Finds named outcome child result) :
    Determined named outcome (.all children name priority) verdict := by
  rcases hjoined with ⟨rfl, rfl⟩ | ⟨_, ⟨rfl, result, hresult, hfalse⟩ | ⟨rfl, htrue⟩⟩
  · apply Determined.allTrue name priority
    intro child hchild
    obtain ⟨_, hresult, _⟩ := hchildren child hchild
    cases hresult
  · obtain ⟨child, hchild, hfinds⟩ := hresults result hresult
    exact .allFalse name priority hchild (hfinds false hfalse)
  · apply Determined.allTrue name priority
    intro child hchild
    obtain ⟨result, hresult, hfinds⟩ := hchildren child hchild
    exact hfinds true (htrue result hresult)

theorem determined_any (name : Option String) (priority : Priority)
    (hjoined : Schedule.Joined .any verdict results)
    (hresults : ∀ result ∈ results, ∃ child ∈ children, Finds named outcome child result)
    (hchildren : ∀ child ∈ children, ∃ result ∈ results, Finds named outcome child result) :
    Determined named outcome (.any children name priority) verdict := by
  rcases hjoined with ⟨rfl, rfl⟩ | ⟨hsome, ⟨rfl, result, hresult, htrue⟩ | ⟨rfl, hfalse⟩⟩
  · cases children with
    | nil => exact .anyNone name priority
    | cons child rest =>
        obtain ⟨_, hresult, _⟩ := hchildren child List.mem_cons_self
        cases hresult
  · obtain ⟨child, hchild, hfinds⟩ := hresults result hresult
    exact .anyTrue name priority hchild (hfinds true htrue)
  · refine .anyFalse name priority ?_ fun child hchild => ?_
    · obtain ⟨result, hresult⟩ := List.exists_mem_of_ne_nil results hsome
      obtain ⟨child, hchild, _⟩ := hresults result hresult
      exact List.ne_nil_of_mem hchild
    · obtain ⟨result, hresult, hfinds⟩ := hchildren child hchild
      exact hfinds false (hfalse result hresult)

end Joined

/-- What an evaluation has found is determined. -/
theorem Trail.determined {lenient : Bool} {result : ConditionResult}
    (h : Trail (fixedReading named lenient outcome) condition result) {verdict : Bool}
    (hverdict : result.head.verdict = some verdict) :
    Determined named outcome condition verdict := by
  induction h generalizing verdict with
  | skipped condition =>
      rw [verdict_skip] at hverdict
      cases hverdict
  | all name priority hlength _ hjoined ih =>
      obtain rfl := Option.some.inj hverdict
      have hfinds := fun place child result hchild hresult verdict =>
        @ih place child result hchild hresult verdict
      exact determined_all name priority hjoined
        (fun _ => exists_child_of_mem hlength hfinds) fun _ => exists_result_of_mem hlength hfinds
  | any name priority hlength _ hjoined ih =>
      obtain rfl := Option.some.inj hverdict
      have hfinds := fun place child result hchild hresult verdict =>
        @ih place child result hchild hresult verdict
      exact determined_any name priority hjoined
        (fun _ => exists_child_of_mem hlength hfinds) fun _ => exists_result_of_mem hlength hfinds
  | not name priority hevaluated _ ih =>
      obtain rfl := Option.some.inj hverdict
      exact .not name priority (ih (Schedule.verdict_eq_some_holds hevaluated))
  | never name =>
      obtain rfl := Option.some.inj hverdict
      exact .never name
  | reference name priority hfound _ _ ih =>
      rw [head_withHead] at hverdict
      exact .reference name priority hfound (ih hverdict)
  | undefined name priority hmissing _ =>
      obtain rfl := Option.some.inj hverdict
      exact .undefined name priority hmissing
  | comparison name hcompared _ =>
      obtain rfl := Option.some.inj hverdict
      exact .comparison name _ hcompared.symm

end Rulebook.Condition
