import Rulebook.Proofs.Condition.Trail
import Rulebook.Proofs.Fact.Lookup
import Rulebook.Proofs.Table

/-!
Results as an audit of the evaluation.

`evaluate_audit` says that a result is a trail of the condition, node by node, and that it can be
relied on: every result in it agrees with the results of its parts, and its data form tells a
verdict exactly if it was evaluated.
-/

namespace Rulebook

namespace ConditionResult

/-- The results of the parts of a condition. -/
def parts : ConditionResult → List ConditionResult
  | .all _ children => children
  | .any _ children => children
  | .not _ child => [child]
  | .never _ => []
  | .reference _ => []
  | .comparison _ _ _ => []

/-- A result, or one in it. -/
inductive Within : ConditionResult → ConditionResult → Prop where
  | self (result : ConditionResult) : Within result result
  | part {node part result : ConditionResult} (mem : part ∈ result.parts)
      (within : Within node part) : Within node result

/-- A result agrees with the results of its parts: those are skipped if it is, and otherwise its
verdict is what follows from theirs.  Below something that was evaluated, only children of `all` and
`any` are skipped. -/
def Consistent : ConditionResult → Prop
  | .all ⟨none, _, _, _⟩ children => ∀ child ∈ children, child.head.verdict = none
  | .all ⟨some verdict, _, _, _⟩ children =>
      (verdict = true ↔ ∀ child ∈ children, child.head.verdict = some true) ∧
        (verdict = false ↔ ∃ child ∈ children, child.head.verdict = some false)
  | .any ⟨none, _, _, _⟩ children => ∀ child ∈ children, child.head.verdict = none
  | .any ⟨some verdict, _, _, _⟩ children =>
      (children = [] → verdict = true) ∧
        (children ≠ [] →
          (verdict = true ↔ ∃ child ∈ children, child.head.verdict = some true) ∧
            (verdict = false ↔ ∀ child ∈ children, child.head.verdict = some false))
  | .not ⟨none, _, _, _⟩ child => child.head.verdict = none
  | .not ⟨some verdict, _, _, _⟩ child => child.head.verdict = some (!verdict)
  | .never head => head.verdict ≠ some true
  | .reference head => head.verdict ≠ some true
  | .comparison head _ sides => head.verdict.isSome = sides.isSome

/-- Every result in a result agrees with the results of its parts. -/
def ConsistentWithin (result : ConditionResult) : Prop :=
  ∀ node, Within node result → node.Consistent

theorem ConsistentWithin.of_parts {result : ConditionResult} (h : result.Consistent)
    (hparts : ∀ part ∈ result.parts, part.ConsistentWithin) : result.ConsistentWithin := by
  intro node hnode
  cases hnode with
  | self => exact h
  | part hmem hwithin => exact hparts _ hmem node hwithin

theorem ConsistentWithin.part {result part : ConditionResult} (h : result.ConsistentWithin)
    (hpart : part ∈ result.parts) : part.ConsistentWithin :=
  fun node hnode => h node (.part hpart hnode)

/-- Under another name a result tells the same. -/
theorem ConsistentWithin.withHead {result : ConditionResult} (h : result.ConsistentWithin)
    {head : ResultHead} (hverdict : head.verdict = result.head.verdict) :
    (result.withHead head).ConsistentWithin := by
  have hself := h result (.self result)
  have hparts : (result.withHead head).parts = result.parts := by
    cases result <;> rfl
  refine .of_parts ?_ fun part hpart => h.part (hparts ▸ hpart)
  obtain ⟨verdict, priority, name, reference⟩ := head
  cases result with
  | all own children =>
      obtain ⟨own, _, _, _⟩ := own
      cases own <;> cases hverdict <;> exact hself
  | any own children =>
      obtain ⟨own, _, _, _⟩ := own
      cases own <;> cases hverdict <;> exact hself
  | not own child =>
      obtain ⟨own, _, _, _⟩ := own
      cases own <;> cases hverdict <;> exact hself
  | never own => cases hverdict; exact hself
  | reference own => cases hverdict; exact hself
  | comparison own leaf sides => cases hverdict; exact hself

/-! ### Data -/

/-- The data form of a result has a verdict if the result was evaluated, and is marked as skipped
otherwise. -/
def Told (result : ConditionResult) : Prop :=
  ∃ members, result.toValue = .object members ∧
    Table.find? members "result" = result.head.verdict.map Value.bool ∧
    Table.find? members "skipped" =
      if result.head.verdict = none then some (.bool true) else none

theorem find?_headMembers (priority : Option Priority) (name : Option String) {key : String}
    (hpriority : ("priority" == key) = false) (hname : ("name" == key) = false) :
    Table.find? (Condition.headMembers priority name) key = none := by
  unfold Condition.headMembers
  cases priority <;> cases name <;> simp [Table.find?, hpriority, hname]

theorem find?_comparisonMembers (leaf : Leaf) (sides : Option Sides) {key : String}
    (hkey : ∀ member ∈ ["fact", "operator", "value", "params", "path", "factResult", "valueResult"],
      (member == key) = false) : Table.find? (comparisonMembers leaf sides) key = none := by
  simp only [List.forall_mem_cons] at hkey
  obtain ⟨hfact, hoperator, hvalue, hparams, hpath, hfactResult, hvalueResult, _⟩ := hkey
  unfold comparisonMembers
  simp only [Table.find?_append, Option.or_eq_none_iff]
  refine ⟨⟨⟨?_, ?_⟩, ?_⟩, ?_⟩
  · simp [Table.find?, hfact, hoperator, hvalue]
  · split <;> simp [Table.find?, hparams]
  · split
    · split <;> simp [Table.find?, hpath]
    · rfl
  · split <;> simp [Table.find?, hfactResult, hvalueResult]

theorem find?_tailMembers (head : ResultHead) :
    Table.find? (tailMembers head) "result" = head.verdict.map Value.bool ∧
      Table.find? (tailMembers head) "skipped" =
        if head.verdict = none then some (.bool true) else none := by
  obtain ⟨verdict, priority, name, reference⟩ := head
  cases verdict <;> cases reference <;> simp [tailMembers, Table.find?]

theorem told_assemble {result : ConditionResult} {members : Members}
    (hvalue : result.toValue = assemble result.head members)
    (hresult : Table.find? members "result" = none)
    (hskipped : Table.find? members "skipped" = none) : result.Told := by
  refine ⟨_, hvalue, ?_⟩
  rw [Table.find?_append, Table.find?_append, find?_headMembers _ _ rfl rfl, hresult]
  rw [Table.find?_append, Table.find?_append, find?_headMembers _ _ rfl rfl, hskipped]
  exact find?_tailMembers result.head

/-- Every result tells what it is. -/
theorem told (result : ConditionResult) : result.Told := by
  cases result with
  | all head children => exact told_assemble rfl rfl rfl
  | any head children => exact told_assemble rfl rfl rfl
  | not head child => exact told_assemble rfl rfl rfl
  | never head => exact told_assemble rfl rfl rfl
  | reference head => exact told_assemble rfl rfl rfl
  | comparison head leaf sides =>
      exact told_assemble rfl (find?_comparisonMembers leaf sides (by decide))
        (find?_comparisonMembers leaf sides (by decide))

/-! ### Joint verdicts -/

theorem consistent_all {verdict : Bool} {priority : Option Priority} {name : Option String}
    {reference : Option String} {results : List ConditionResult}
    (h : Schedule.Joined .all verdict results) :
    (ConditionResult.all ⟨some verdict, priority, name, reference⟩ results).Consistent := by
  rcases h with ⟨rfl, rfl⟩ | ⟨_, ⟨rfl, result, hresult, hverdict⟩ | ⟨rfl, hall⟩⟩
  · simp [Consistent]
  · refine ⟨⟨nofun, fun h => ?_⟩, ⟨fun _ => ⟨result, hresult, hverdict⟩, fun _ => rfl⟩⟩
    exact nomatch (h result hresult).symm.trans hverdict
  · refine ⟨⟨fun _ => hall, fun _ => rfl⟩, ⟨nofun, fun ⟨result, hresult, h⟩ => ?_⟩⟩
    exact nomatch h.symm.trans (hall result hresult)

theorem consistent_any {verdict : Bool} {priority : Option Priority} {name : Option String}
    {reference : Option String} {results : List ConditionResult}
    (h : Schedule.Joined .any verdict results) :
    (ConditionResult.any ⟨some verdict, priority, name, reference⟩ results).Consistent := by
  rcases h with ⟨rfl, rfl⟩ | ⟨hsome, hdecided⟩
  · exact ⟨fun _ => rfl, fun h => absurd rfl h⟩
  · refine ⟨fun hnil => absurd hnil hsome, fun _ => ?_⟩
    rcases hdecided with ⟨rfl, result, hresult, hverdict⟩ | ⟨rfl, hall⟩
    · refine ⟨⟨fun _ => ⟨result, hresult, hverdict⟩, fun _ => rfl⟩, ⟨nofun, fun h => ?_⟩⟩
      exact nomatch (h result hresult).symm.trans hverdict
    · refine ⟨⟨nofun, fun ⟨result, hresult, h⟩ => ?_⟩, ⟨fun _ => hall, fun _ => rfl⟩⟩
      exact nomatch h.symm.trans (hall result hresult)

end ConditionResult

namespace Condition

open ConditionResult Eval Strand

theorem verdict_skips (conditions : List Condition) :
    ∀ result ∈ skips conditions, result.head.verdict = none := by
  rw [skips_eq_map]
  intro result hresult
  obtain ⟨condition, _, rfl⟩ := List.mem_map.1 hresult
  exact verdict_skip condition

theorem consistentWithin_skips {conditions : List Condition}
    (h : ∀ condition ∈ conditions, condition.skip.ConsistentWithin) :
    ∀ result ∈ skips conditions, result.ConsistentWithin := by
  rw [skips_eq_map]
  intro result hresult
  obtain ⟨condition, hcondition, rfl⟩ := List.mem_map.1 hresult
  exact h condition hcondition

/-- Everything in a condition that is skipped is skipped. -/
theorem consistentWithin_skip (condition : Condition) : condition.skip.ConsistentWithin := by
  induction condition with
  | all children name priority ih =>
      exact .of_parts (verdict_skips children) (consistentWithin_skips ih)
  | any children name priority ih =>
      exact .of_parts (verdict_skips children) (consistentWithin_skips ih)
  | not child name priority ih =>
      exact .of_parts (verdict_skip child) fun part hpart => List.mem_singleton.1 hpart ▸ ih
  | never name => exact .of_parts nofun nofun
  | reference target name priority => exact .of_parts nofun nofun
  | comparison leaf name priority => exact .of_parts rfl nofun

/-- A trail agrees with itself all the way down. -/
theorem Trail.consistentWithin {reading : Reading} {condition : Condition}
    {result : ConditionResult} (h : Trail reading condition result) : result.ConsistentWithin := by
  induction h with
  | skipped condition => exact consistentWithin_skip condition
  | all name priority hlength _ hjoined ih =>
      apply ConsistentWithin.of_parts (consistent_all hjoined)
      intro result hresult
      obtain ⟨child, _, hconsistent⟩ := exists_child_of_mem hlength ih hresult
      exact hconsistent
  | any name priority hlength _ hjoined ih =>
      apply ConsistentWithin.of_parts (consistent_any hjoined)
      intro result hresult
      obtain ⟨child, _, hconsistent⟩ := exists_child_of_mem hlength ih hresult
      exact hconsistent
  | @not child result name priority hevaluated _ ih =>
      refine .of_parts ?_ fun part hpart => List.mem_singleton.1 hpart ▸ ih
      have hverdict := Schedule.verdict_eq_some_holds hevaluated
      rw [Consistent, hverdict, Bool.not_not]
  | never name => exact .of_parts nofun nofun
  | reference name priority _ _ _ ih => exact ih.withHead rfl
  | undefined name priority _ _ => exact .of_parts nofun nofun
  | comparison name _ _ => exact .of_parts rfl nofun

/-! ### Evaluation -/

variable {σ : Type} [HasSession σ]

/-- What is allowed to be undefined does not change while conditions are evaluated. -/
def permits (lenient : Bool) : Invariant σ Ending :=
  .ofWorld fun world => (HasSession.session world).almanac.allowUndefinedConditions = lenient

theorem lookupFree_permits (lenient : Bool) :
    LookupFree (permits lenient : Invariant σ Ending) := by
  intro pledges world cache registry tally notes h
  change (HasSession.session (HasSession.withSession _ world)).almanac.allowUndefinedConditions = _
  rw [HasSession.session_withSession]
  exact h

/-- The reading of a condition in which comparisons may come to anything. -/
def openReading (named : Table Value Condition) (lenient : Bool) : Reading where
  named := named
  lenient := lenient
  compares := fun _ _ => True

theorem reads_openReading (named : Table Value Condition) (lenient : Bool) (depth : Nat) :
    Reads (permits lenient) ⊤ (⟨Leaf.compare depth, fun _ => named⟩ : Meaning σ)
      (openReading named lenient) where
  tallyFree := (lookupFree_permits lenient).tolerant.tallyFree
  named _ _ _ := rfl
  lenient _ _ h := h
  compare leaf := (lookupFree_permits lenient).tolerant.preserves_compare depth leaf

/-- Evaluating a condition leaves an audit: the result is a trail of the condition, every result in
it agrees with the results of its parts, and its data form tells a verdict exactly if it was
evaluated. -/
theorem evaluate_audit (world : σ) (named : Table Value Condition) (condition : Condition)
    (result : ConditionResult)
    (h : (Eval.run world (condition.evaluate fun _ => named)).1 = .ok result) :
    result.isSkipped = false ∧
      Trail (openReading named (HasSession.session world).almanac.allowUndefinedConditions)
        condition result ∧
      ∀ node, Within node result → node.Consistent ∧ node.Told := by
  obtain ⟨waits, hensures⟩ := ensures_evaluateIn (reads_openReading (σ := σ) named
    (HasSession.session world).almanac.allowUndefinedConditions depthLimit) depthLimit condition
  obtain ⟨hevaluated, htrail⟩ := hensures.post_of_yields rfl (yields_of_run rfl hensures h)
  exact ⟨hevaluated, htrail, fun node hnode => ⟨htrail.consistentWithin node hnode, told node⟩⟩

/-- A session in which references may lead nowhere. -/
def lenientSession : Session :=
  ⟨{ Almanac.empty with allowUndefinedConditions := true }, Registry.empty, none, []⟩

/-- A condition whose first child is skipped, as the third decides. -/
def decidedLast : Condition :=
  .any [.all [.never none] none ⟨2, Nat.le_succ 1⟩, .reference "gone" (some "mine") none,
    .not (.never none) none Priority.first] none Priority.first

/-- The result of `decidedLast`. -/
def decidedLastResult : ConditionResult :=
  .any ⟨some true, some Priority.first, none, none⟩ [
    .all ⟨none, some ⟨2, Nat.le_succ 1⟩, none, none⟩
      [.never ⟨none, some Priority.first, none, none⟩],
    .reference ⟨some false, none, some "mine", some "gone"⟩,
    .not ⟨some true, some Priority.first, none, none⟩
      (.never ⟨some false, some Priority.first, none, none⟩)]

theorem evaluate_decidedLast :
    (Eval.run lenientSession (decidedLast.evaluate fun _ => [])).1 = .ok decidedLastResult ∧
      decidedLastResult.isSkipped = false ∧
        Trail (openReading [] true) decidedLast decidedLastResult ∧
          ∀ node, Within node decidedLastResult → node.Consistent ∧ node.Told := by
  have hrun : (Eval.run lenientSession (decidedLast.evaluate fun _ => [])).1 =
      .ok decidedLastResult := by
    rfl
  exact ⟨hrun, evaluate_audit lenientSession [] decidedLast decidedLastResult hrun⟩

end Condition

end Rulebook
