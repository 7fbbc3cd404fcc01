import Mathlib.Data.List.Flatten
import Rulebook.Proofs.Condition.Audit
import Rulebook.Proofs.Condition.Transcript

/-!
The nodes of conditions and of results.

A result has a node for each node of its condition, at the same address, unless a reference was
followed (`Trail.labels_eq`).  Every node of a result was evaluated or belongs to exactly one of the
largest parts that were skipped (`evaluated_append_skipped_perm`).
-/

namespace Rulebook

/-- Where a node stands in a tree: its number among its siblings, that of its parent among its
siblings, and so on up to the root. -/
abbrev Address := List Nat

/-! ### Conditions -/

namespace Condition

mutual

/-- The nodes of a condition that stands at an address, each with its own. -/
def nodes (address : Address) : Condition → List (Address × Condition)
  | .all children name priority =>
      (address, .all children name priority) :: nodesFrom address 0 children
  | .any children name priority =>
      (address, .any children name priority) :: nodesFrom address 0 children
  | .not child name priority => (address, .not child name priority) :: child.nodes (0 :: address)
  | .never name => [(address, .never name)]
  | .reference target name priority => [(address, .reference target name priority)]
  | .comparison leaf name priority => [(address, .comparison leaf name priority)]

/-- The nodes of siblings, which are numbered from `number` on. -/
def nodesFrom (parent : Address) (number : Nat) : List Condition → List (Address × Condition)
  | [] => []
  | child :: rest => child.nodes (number :: parent) ++ nodesFrom parent (number + 1) rest

end

/-- Address and kind of nodes. -/
def labels (nodes : List (Address × Condition)) : List (Address × Kind) :=
  nodes.map (Prod.map id kind)

theorem nodesFrom_eq (parent : Address) (number : Nat) (children : List Condition) :
    nodesFrom parent number children =
      (children.zipIdx number).flatMap fun child => child.1.nodes (child.2 :: parent) := by
  induction children generalizing number with
  | nil => rfl
  | cons child rest ih => rw [nodesFrom, ih, List.zipIdx_cons, List.flatMap_cons]

/-- The conditions that a condition is made of. -/
def operands : Condition → List Condition
  | .all children _ _ => children
  | .any children _ _ => children
  | .not child _ _ => [child]
  | .never _ => []
  | .reference _ _ _ => []
  | .comparison _ _ _ => []

theorem nodes_eq (address : Address) (condition : Condition) : condition.nodes address =
    (address, condition) ::
      condition.operands.zipIdx.flatMap fun child => child.1.nodes (child.2 :: address) := by
  cases condition with
  | all children name priority => rw [nodes, nodesFrom_eq, operands]
  | any children name priority => rw [nodes, nodesFrom_eq, operands]
  | not child name priority => simp [nodes, operands]
  | never name => rfl
  | reference target name priority => rfl
  | comparison leaf name priority => rfl

theorem operands_induction {motive : Condition → Prop}
    (h : ∀ condition, (∀ child ∈ condition.operands, motive child) → motive condition)
    (condition : Condition) : motive condition := by
  induction condition with
  | all children name priority ih => exact h _ ih
  | any children name priority ih => exact h _ ih
  | not child name priority ih => exact h _ (List.forall_mem_singleton.2 ih)
  | never name => exact h _ nofun
  | reference target name priority => exact h _ nofun
  | comparison leaf name priority => exact h _ nofun

/-- A node stands at the address of the condition or below. -/
theorem suffix_of_mem_nodes {condition : Condition} {address : Address} {node : Address × Condition}
    (h : node ∈ condition.nodes address) : address <:+ node.1 := by
  induction condition using operands_induction generalizing address with
  | h condition ih =>
      rw [nodes_eq] at h
      rcases List.mem_cons.1 h with rfl | hrest
      · exact List.suffix_rfl
      · obtain ⟨child, hchild, hnode⟩ := List.mem_flatMap.1 hrest
        exact (List.suffix_cons _ _).trans (ih child.1 (List.fst_mem_of_mem_zipIdx hchild) hnode)

/-- No two nodes of a condition have the same address. -/
theorem nodup_addresses (address : Address) (condition : Condition) :
    ((condition.nodes address).map Prod.fst).Nodup := by
  induction condition using operands_induction generalizing address with
  | h condition ih =>
      rw [nodes_eq, List.map_cons, List.nodup_cons, List.map_flatMap, List.nodup_flatMap]
      refine ⟨fun hmem => ?_, fun child hchild => ?_, ?_⟩
      · -- a node of a child stands below
        obtain ⟨child, _, hnode⟩ := List.mem_flatMap.1 hmem
        obtain ⟨node, hnode, hsame⟩ := List.mem_map.1 hnode
        have hlength := (suffix_of_mem_nodes hnode).length_le
        rw [hsame] at hlength
        exact Nat.not_succ_le_self _ hlength
      · exact ih child.1 (List.fst_mem_of_mem_zipIdx hchild) _
      · -- nodes of different children stand below different addresses
        have hnumbers : (condition.operands.zipIdx.map Prod.snd).Nodup := by
          rw [List.zipIdx_map_snd]
          exact List.nodup_range'
        refine (List.pairwise_map.1 hnumbers).imp fun hne => ?_
        intro found hleft hright
        obtain ⟨left, hleftmem, rfl⟩ := List.mem_map.1 hleft
        obtain ⟨right, hrightmem, hsame⟩ := List.mem_map.1 hright
        have hbelow := suffix_of_mem_nodes hrightmem
        rw [hsame] at hbelow
        have hsuffix := List.suffix_of_suffix_length_le (suffix_of_mem_nodes hleftmem) hbelow
          (Nat.le_refl _)
        exact hne (List.cons.inj (hsuffix.eq_of_length rfl)).1

end Condition

/-! ### Results -/

namespace ConditionResult

mutual

/-- The nodes of a result that stands at an address, each with its own. -/
def nodes (address : Address) : ConditionResult → List (Address × ConditionResult)
  | .all head children => (address, .all head children) :: nodesFrom address 0 children
  | .any head children => (address, .any head children) :: nodesFrom address 0 children
  | .not head child => (address, .not head child) :: child.nodes (0 :: address)
  | .never head => [(address, .never head)]
  | .reference head => [(address, .reference head)]
  | .comparison head leaf sides => [(address, .comparison head leaf sides)]

/-- The nodes of siblings, which are numbered from `number` on. -/
def nodesFrom (parent : Address) (number : Nat) :
    List ConditionResult → List (Address × ConditionResult)
  | [] => []
  | child :: rest => child.nodes (number :: parent) ++ nodesFrom parent (number + 1) rest

end

mutual

/-- The largest parts of a result that were skipped, each with its address. -/
def skippedParts (address : Address) (result : ConditionResult) : List (Address × ConditionResult) :=
  if result.isSkipped then [(address, result)]
  else match result with
    | .all _ children => skippedFrom address 0 children
    | .any _ children => skippedFrom address 0 children
    | .not _ child => child.skippedParts (0 :: address)
    | .never _ => []
    | .reference _ => []
    | .comparison _ _ _ => []

/-- The largest skipped parts of siblings, which are numbered from `number` on. -/
def skippedFrom (parent : Address) (number : Nat) :
    List ConditionResult → List (Address × ConditionResult)
  | [] => []
  | child :: rest => child.skippedParts (number :: parent) ++ skippedFrom parent (number + 1) rest

end

/-- The nodes of a result that were evaluated. -/
def evaluatedNodes (address : Address) (result : ConditionResult) :
    List (Address × ConditionResult) :=
  (result.nodes address).filter fun node => !node.2.isSkipped

/-- The nodes of a result that belong to parts that were skipped. -/
def skippedNodes (address : Address) (result : ConditionResult) :
    List (Address × ConditionResult) :=
  (result.skippedParts address).flatMap fun part => part.2.nodes part.1

/-- Address and kind of nodes. -/
def labels (nodes : List (Address × ConditionResult)) : List (Address × Kind) :=
  nodes.map (Prod.map id kind)

theorem nodesFrom_eq (parent : Address) (number : Nat) (children : List ConditionResult) :
    nodesFrom parent number children =
      (children.zipIdx number).flatMap fun child => child.1.nodes (child.2 :: parent) := by
  induction children generalizing number with
  | nil => rfl
  | cons child rest ih => rw [nodesFrom, ih, List.zipIdx_cons, List.flatMap_cons]

theorem skippedFrom_eq (parent : Address) (number : Nat) (children : List ConditionResult) :
    skippedFrom parent number children =
      (children.zipIdx number).flatMap fun child => child.1.skippedParts (child.2 :: parent) := by
  induction children generalizing number with
  | nil => rfl
  | cons child rest ih => rw [skippedFrom, ih, List.zipIdx_cons, List.flatMap_cons]

theorem nodes_eq (address : Address) (result : ConditionResult) : result.nodes address =
    (address, result) ::
      result.parts.zipIdx.flatMap fun part => part.1.nodes (part.2 :: address) := by
  cases result with
  | all head children => rw [nodes, nodesFrom_eq, parts]
  | any head children => rw [nodes, nodesFrom_eq, parts]
  | not head child => simp [nodes, parts]
  | never head => rfl
  | reference head => rfl
  | comparison head leaf sides => rfl

theorem skippedParts_eq {result : ConditionResult} (h : result.isSkipped = false)
    (address : Address) : result.skippedParts address =
      result.parts.zipIdx.flatMap fun part => part.1.skippedParts (part.2 :: address) := by
  have hopen : ¬ result.isSkipped = true := Bool.eq_false_iff.1 h
  cases result with
  | all head children => rw [skippedParts, if_neg hopen, skippedFrom_eq, parts]
  | any head children => rw [skippedParts, if_neg hopen, skippedFrom_eq, parts]
  | not head child => rw [skippedParts, if_neg hopen, parts]; simp
  | never head => rw [skippedParts, if_neg hopen]; rfl
  | reference head => rw [skippedParts, if_neg hopen]; rfl
  | comparison head leaf sides => rw [skippedParts, if_neg hopen]; rfl

theorem skippedParts_of_isSkipped {result : ConditionResult} (h : result.isSkipped = true)
    (address : Address) : result.skippedParts address = [(address, result)] := by
  rw [skippedParts.eq_def, if_pos h]

theorem parts_induction {motive : ConditionResult → Prop}
    (h : ∀ result, (∀ part ∈ result.parts, motive part) → motive result)
    (result : ConditionResult) : motive result := by
  induction result with
  | all head children ih => exact h _ ih
  | any head children ih => exact h _ ih
  | not head child ih => exact h _ (List.forall_mem_singleton.2 ih)
  | never head => exact h _ nofun
  | reference head => exact h _ nofun
  | comparison head leaf sides => exact h _ nofun

theorem evaluatedNodes_eq {result : ConditionResult} (h : result.isSkipped = false)
    (address : Address) : result.evaluatedNodes address = (address, result) ::
      result.parts.zipIdx.flatMap fun part => part.1.evaluatedNodes (part.2 :: address) := by
  rw [evaluatedNodes, nodes_eq, List.filter_cons_of_pos (by rw [h]; rfl), List.filter_flatMap]
  rfl

/-- The parts of something that was skipped were skipped. -/
theorem ConsistentWithin.isSkipped_part {result part : ConditionResult} (h : result.ConsistentWithin)
    (hskipped : result.isSkipped = true) (hpart : part ∈ result.parts) : part.isSkipped = true := by
  have hverdict : result.head.verdict = none := Option.isNone_iff_eq_none.1 hskipped
  have hself := h result (.self result)
  have hnone : part.head.verdict = none := by
    cases result with
    | all head children =>
        obtain ⟨verdict, _, _, _⟩ := head
        cases hverdict
        exact hself part hpart
    | any head children =>
        obtain ⟨verdict, _, _, _⟩ := head
        cases hverdict
        exact hself part hpart
    | not head child =>
        obtain ⟨verdict, _, _, _⟩ := head
        cases hverdict
        exact List.mem_singleton.1 hpart ▸ hself
    | never head => cases hpart
    | reference head => cases hpart
    | comparison head leaf sides => cases hpart
  exact Option.isNone_iff_eq_none.2 hnone

theorem evaluatedNodes_of_isSkipped {result : ConditionResult} (h : result.ConsistentWithin)
    (hskipped : result.isSkipped = true) (address : Address) : result.evaluatedNodes address = [] := by
  induction result using parts_induction generalizing address with
  | h result ih =>
      rw [evaluatedNodes, nodes_eq, List.filter_cons_of_neg (by rw [hskipped]; simp),
        List.filter_flatMap, List.flatMap_eq_nil_iff]
      intro part hpart
      have hmem := List.fst_mem_of_mem_zipIdx hpart
      exact ih part.1 hmem (h.part hmem) (h.isSkipped_part hskipped hmem) _

/-- Every node was evaluated, or belongs to exactly one of the largest parts that were skipped. -/
theorem evaluated_append_skipped_perm {result : ConditionResult} (h : result.ConsistentWithin)
    (address : Address) :
    (result.evaluatedNodes address ++ result.skippedNodes address).Perm (result.nodes address) := by
  induction result using parts_induction generalizing address with
  | h result ih =>
      cases hskipped : result.isSkipped with
      | true =>
          rw [evaluatedNodes_of_isSkipped h hskipped, skippedNodes,
            skippedParts_of_isSkipped hskipped, List.flatMap_singleton, List.nil_append]
      | false =>
          rw [evaluatedNodes_eq hskipped, skippedNodes, skippedParts_eq hskipped, nodes_eq,
            List.flatMap_assoc, List.cons_append]
          refine ((List.flatMap_append_perm _ _ _).trans ?_).cons _
          refine List.Perm.flatMap_left _ fun part hpart => ?_
          have hmem := List.fst_mem_of_mem_zipIdx hpart
          exact ih part.1 hmem (h.part hmem) _

end ConditionResult

/-! ### Trails -/

theorem flatMap_zipIdx_congr {α β γ : Type} {items : List α} {others : List β}
    {f : α × Nat → List γ} {g : β × Nat → List γ} (hlength : items.length = others.length)
    (h : ∀ (place : Nat) (item : α) (other : β), items[place]? = some item →
      others[place]? = some other → f (item, place) = g (other, place)) :
    items.zipIdx.flatMap f = others.zipIdx.flatMap g := by
  have hmap : items.zipIdx.map f = others.zipIdx.map g := by
    refine List.ext_getElem (by simpa using hlength) fun place hitem hother => ?_
    rw [List.length_map, List.length_zipIdx] at hitem hother
    rw [List.getElem_map, List.getElem_map, List.getElem_zipIdx, List.getElem_zipIdx, Nat.zero_add]
    exact h place _ _ (List.getElem?_eq_getElem hitem) (List.getElem?_eq_getElem hother)
  rw [List.flatMap_def, hmap, ← List.flatMap_def]

namespace Condition

open ConditionResult

/-- A result has the nodes of a condition if its parts have those of the parts of the condition. -/
theorem labels_eq_of_operands {condition : Condition} {result : ConditionResult}
    (hkind : result.kind = condition.kind) (hlength : result.parts.length = condition.operands.length)
    (hparts : ∀ (place : Nat) (part : ConditionResult) (child : Condition),
      result.parts[place]? = some part → condition.operands[place]? = some child →
        ∀ address, ConditionResult.labels (part.nodes address) = labels (child.nodes address))
    (address : Address) :
    ConditionResult.labels (result.nodes address) = labels (condition.nodes address) := by
  rw [ConditionResult.labels, labels, ConditionResult.nodes_eq, nodes_eq, List.map_cons,
    List.map_cons, List.map_flatMap, List.map_flatMap]
  refine congrArg₂ List.cons (congrArg (Prod.mk address) hkind)
    (flatMap_zipIdx_congr hlength fun place part child hpart hchild => ?_)
  exact hparts place part child hpart hchild _

theorem kind_skip (condition : Condition) : condition.skip.kind = condition.kind := by
  cases condition <;> rfl

theorem parts_skip (condition : Condition) :
    condition.skip.parts = condition.operands.map skip := by
  cases condition with
  | all children name priority => exact skips_eq_map children
  | any children name priority => exact skips_eq_map children
  | not child name priority => rfl
  | never name => rfl
  | reference target name priority => rfl
  | comparison leaf name priority => rfl

/-- A condition that is skipped has all its nodes in the result. -/
theorem labels_skip (condition : Condition) (address : Address) :
    ConditionResult.labels (condition.skip.nodes address) = labels (condition.nodes address) := by
  induction condition using operands_induction generalizing address with
  | h condition ih =>
      have hparts := parts_skip condition
      refine labels_eq_of_operands (kind_skip condition) (by rw [hparts, List.length_map])
        (fun place part child hpart hchild address => ?_) address
      rw [hparts, List.getElem?_map, hchild, Option.map_some, Option.some.injEq] at hpart
      exact hpart ▸ ih child (List.mem_of_getElem? hchild) address

/-- The result of a condition without references has the nodes of the condition. -/
theorem Trail.labels_eq {reading : Reading} {condition : Condition} {result : ConditionResult}
    (h : Trail reading condition result) (hfree : condition.ReferenceFree) (address : Address) :
    ConditionResult.labels (result.nodes address) = labels (condition.nodes address) := by
  induction h generalizing address with
  | skipped condition => exact labels_skip condition address
  | all name priority hlength _ _ ih =>
      refine labels_eq_of_operands rfl ?_ (fun place part child hpart hchild => ?_) address
      · exact hlength.symm
      · exact ih place child part hchild hpart (hfree.of_all (List.mem_of_getElem? hchild))
  | any name priority hlength _ _ ih =>
      refine labels_eq_of_operands rfl ?_ (fun place part child hpart hchild => ?_) address
      · exact hlength.symm
      · exact ih place child part hchild hpart (hfree.of_any (List.mem_of_getElem? hchild))
  | not name priority _ _ ih =>
      refine labels_eq_of_operands rfl rfl (fun place part child hpart hchild => ?_) address
      cases place with
      | zero =>
          cases hpart
          cases hchild
          exact ih hfree.of_not
      | succ place => cases hpart
  | never name => rfl
  | reference name priority _ _ _ _ => exact absurd (mem_parts_self _) (hfree _ name priority)
  | undefined name priority _ _ => exact absurd (mem_parts_self _) (hfree _ name priority)
  | comparison name _ _ => rfl

end Condition

end Rulebook
