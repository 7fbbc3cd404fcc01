import Rulebook.Proofs.Condition.Nodes
import Rulebook.Proofs.Fact.Changes
import Rulebook.Proofs.Spending

/-!
What is counted while a condition is evaluated.

`evaluate_accounted` says by how much the counters of evaluations and of skips have gone up when an
evaluation has returned a result, whatever else was counted, in whichever order things happened and
whatever was skipped: it can be read off the result, but for the references that were followed.
-/

namespace Rulebook

open Session Eval

/-! ### What a result tells -/

namespace ConditionResult

/-- How many nodes of a kind were evaluated. -/
def evaluations (result : ConditionResult) (kind : Kind) : Nat :=
  (result.evaluatedNodes []).countP fun node => node.2.kind = kind

/-- How many of the largest parts that were skipped are of a kind. -/
def skips (result : ConditionResult) (kind : Kind) : Nat :=
  (result.skippedParts []).countP fun part => part.2.kind = kind

/-- What is counted of a kind for a result: evaluations, and skips. -/
def price (kind : Kind) (result : ConditionResult) : ℕ × ℕ :=
  (result.evaluations kind, result.skips kind)

theorem map_snd_nodes (result : ConditionResult) (address : Address) :
    (result.nodes address).map Prod.snd = (result.nodes []).map Prod.snd := by
  induction result using parts_induction generalizing address with
  | h result ih =>
      rw [nodes_eq, nodes_eq [], List.map_cons, List.map_cons, List.map_flatMap, List.map_flatMap]
      refine congrArg (List.cons result) (List.flatMap_congr fun part hpart => ?_)
      have hmem := List.fst_mem_of_mem_zipIdx hpart
      rw [ih part.1 hmem (part.2 :: address), ih part.1 hmem [part.2]]

theorem map_snd_skippedParts (result : ConditionResult) (address : Address) :
    (result.skippedParts address).map Prod.snd = (result.skippedParts []).map Prod.snd := by
  induction result using parts_induction generalizing address with
  | h result ih =>
      cases hskipped : result.isSkipped with
      | true =>
          rw [skippedParts_of_isSkipped hskipped, skippedParts_of_isSkipped hskipped,
            List.map_singleton, List.map_singleton]
      | false =>
          rw [skippedParts_eq hskipped, skippedParts_eq hskipped, List.map_flatMap, List.map_flatMap]
          refine List.flatMap_congr fun part hpart => ?_
          have hmem := List.fst_mem_of_mem_zipIdx hpart
          rw [ih part.1 hmem (part.2 :: address), ih part.1 hmem [part.2]]

/-- It does not matter for what is counted where a result stands. -/
theorem evaluations_at (kind : Kind) (result : ConditionResult) (address : Address) :
    ((result.evaluatedNodes address).countP fun node => node.2.kind = kind) =
      result.evaluations kind := by
  have hcount : ∀ address, ((result.evaluatedNodes address).countP fun node => node.2.kind = kind) =
      ((result.nodes address).map Prod.snd).countP fun node => node.kind = kind ∧ !node.isSkipped := by
    intro address
    rw [evaluatedNodes, List.countP_filter, List.countP_map]
    simp [Function.comp_def]
  rw [evaluations, hcount, hcount, map_snd_nodes]

theorem skips_at (kind : Kind) (result : ConditionResult) (address : Address) :
    ((result.skippedParts address).countP fun part => part.2.kind = kind) = result.skips kind := by
  have hcount : ∀ address, ((result.skippedParts address).countP fun part => part.2.kind = kind) =
      ((result.skippedParts address).map Prod.snd).countP fun part => part.kind = kind := by
    intro address
    rw [List.countP_map]
    rfl
  rw [skips, hcount, hcount, map_snd_skippedParts]

theorem price_of_isSkipped {result : ConditionResult} (h : result.ConsistentWithin)
    (hskipped : result.isSkipped = true) (kind : Kind) :
    price kind result = (0, if result.kind = kind then 1 else 0) := by
  rw [price, evaluations, skips, evaluatedNodes_of_isSkipped h hskipped,
    skippedParts_of_isSkipped hskipped, List.countP_nil, List.countP_singleton]
  simp

/-- What is counted below siblings is what is counted for each of them. -/
theorem sum_countP_zipIdx {α β : Type} {items : List α} {f : α × Nat → List β} {p : β → Bool}
    {n : α → ℕ} (h : ∀ item number, (f (item, number)).countP p = n item) :
    (items.zipIdx.flatMap f).countP p = (items.map n).sum := by
  rw [List.countP_flatMap, ← List.zipIdx_map_fst 0 items, List.map_map, List.zipIdx_map_fst]
  exact congrArg List.sum (List.map_congr_left fun item _ => h item.1 item.2)

theorem price_eq {result : ConditionResult} (h : result.isSkipped = false) (kind : Kind) :
    price kind result = (if result.kind = kind then 1 else 0, 0) +
      (result.parts.map (price kind)).sum := by
  have hevaluations : result.evaluations kind = (if result.kind = kind then 1 else 0) +
      (result.parts.map fun part => part.evaluations kind).sum := by
    rw [evaluations, evaluatedNodes_eq h, List.countP_cons, Nat.add_comm,
      sum_countP_zipIdx fun part number => evaluations_at kind part [number]]
    simp
  have hskips : result.skips kind = (result.parts.map fun part => part.skips kind).sum := by
    rw [skips, skippedParts_eq h, sum_countP_zipIdx fun part number => skips_at kind part [number]]
  refine Prod.ext ?_ ?_
  · rw [Prod.fst_add, ← AddMonoidHom.coe_fst, map_list_sum, List.map_map]
    exact hevaluations
  · rw [Prod.snd_add, ← AddMonoidHom.coe_snd, map_list_sum, List.map_map]
    exact hskips.trans (Nat.zero_add _).symm

/-- Under another name the same is counted. -/
theorem price_withHead {result : ConditionResult} (h : result.isSkipped = false) {head : ResultHead}
    (hverdict : head.verdict = result.head.verdict) (kind : Kind) :
    price kind (result.withHead head) = price kind result := by
  have hopen : (result.withHead head).isSkipped = false := by
    rw [isSkipped, Condition.head_withHead, hverdict]
    exact h
  rw [price_eq hopen, price_eq h]
  cases result <;> rfl

end ConditionResult

namespace Condition

open ConditionResult

theorem price_skip (condition : Condition) (kind : Kind) :
    price kind condition.skip = (0, if condition.kind = kind then 1 else 0) := by
  rw [price_of_isSkipped (consistentWithin_skip condition), kind_skip]
  rw [isSkipped, verdict_skip]
  rfl

/-! ### References -/

mutual

/-- How many references were followed to come from a condition to its result; `inner` tells that of
what a reference names. -/
def followedWith (named : Table Value Condition) (inner : Condition → ConditionResult → Nat) :
    Condition → ConditionResult → Nat
  | .all children _ _, .all _ results => followedEach named inner children results
  | .any children _ _, .any _ results => followedEach named inner children results
  | .not child _ _, .not _ result => child.followedWith named inner result
  | .reference target _ _, result =>
      match named.find? (.str target) with
      | some condition => if result.isSkipped then 0 else inner condition result + 1
      | none => 0
  | _, _ => 0

/-- How many references were followed in children. -/
def followedEach (named : Table Value Condition) (inner : Condition → ConditionResult → Nat) :
    List Condition → List ConditionResult → Nat
  | child :: children, result :: results =>
      child.followedWith named inner result + followedEach named inner children results
  | _, _ => 0

end

/-- How many references were followed to come from a condition to its result, references inside
references at most `depth` deep. -/
def followedIn (named : Table Value Condition) : (depth : Nat) → Condition → ConditionResult → Nat
  | 0 => followedWith named fun _ _ => 0
  | depth + 1 => followedWith named (followedIn named depth)

variable {named : Table Value Condition} {inner : Condition → ConditionResult → Nat}

theorem followedEach_eq (children : List Condition) (results : List ConditionResult) :
    followedEach named inner children results =
      (List.zipWith (followedWith named inner) children results).sum := by
  induction children generalizing results with
  | nil => rw [followedEach.eq_def]; rfl
  | cons child rest ih =>
      cases results with
      | nil => rw [followedEach.eq_def]; rfl
      | cons result results => rw [followedEach, ih, List.zipWith_cons_cons, List.sum_cons]

/-- Nothing is followed where nothing is evaluated. -/
theorem followedWith_skip (condition : Condition) :
    condition.followedWith named inner condition.skip = 0 := by
  have heach : ∀ children : List Condition,
      (∀ child ∈ children, child.followedWith named inner child.skip = 0) →
        followedEach named inner children (skips children) = 0 := by
    intro children hchildren
    rw [followedEach_eq, skips_eq_map, List.zipWith_map_right, List.zipWith_self]
    exact List.sum_eq_zero (List.forall_mem_map.2 hchildren)
  induction condition with
  | all children name priority ih => exact heach children ih
  | any children name priority ih => exact heach children ih
  | not child name priority ih => exact ih
  | never name => rfl
  | reference target name priority =>
      rw [followedWith]
      split
      · rfl
      · rfl
  | comparison leaf name priority => rfl

/-- Under another name nothing else was followed. -/
theorem followedWith_withHead {head : ResultHead}
    (hinner : ∀ condition result, head.verdict = result.head.verdict →
      inner condition (result.withHead head) = inner condition result)
    (condition : Condition) {result : ConditionResult} (hverdict : head.verdict = result.head.verdict) :
    condition.followedWith named inner (result.withHead head) =
      condition.followedWith named inner result := by
  cases condition with
  | reference target name priority =>
      have hsame : (result.withHead head).isSkipped = result.isSkipped := by
        rw [isSkipped, head_withHead, hverdict, isSkipped]
      rw [followedWith, followedWith, hsame]
      split
      · rw [hinner _ result hverdict]
      · rfl
  | _ => cases result <;> rfl

theorem followedIn_withHead (depth : Nat) (condition : Condition) {result : ConditionResult}
    {head : ResultHead} (hverdict : head.verdict = result.head.verdict) :
    condition.followedIn named depth (result.withHead head) =
      condition.followedIn named depth result := by
  induction depth generalizing condition result with
  | zero => exact followedWith_withHead (fun _ _ _ => rfl) condition hverdict
  | succ depth ih => exact followedWith_withHead (fun condition _ => ih condition) condition hverdict

end Condition

/-! ### Scheduling -/

namespace Schedule

variable {σ M : Type} [AddCommMonoid M] {meter : σ → Option M} {post : Outcomes σ}
  {weight : Placed → M}

theorem sum_allOk {batch : Batch σ} {paid : List (Except Error ConditionResult × M)}
    {results : List ConditionResult}
    (h : List.Forall₂ (fun entry outcome => post entry.1 outcome.1 ∧
      ∀ result, outcome.1 = .ok result → outcome.2 = weight (result, entry.2)) batch paid)
    (hok : allOk (paid.map Prod.fst) = .ok results) :
    (paid.map Prod.snd).sum = ((results.zip (batch.map (·.2))).map weight).sum := by
  induction h generalizing results with
  | nil => cases hok; rfl
  | @cons entry outcome batch paid hentry _ ih =>
      obtain ⟨outcome, amount⟩ := outcome
      cases outcome with
      | error e => cases hok
      | ok result =>
          rw [List.map_cons, allOk] at hok
          cases hrest : allOk (paid.map Prod.fst) with
          | error e => rw [hrest] at hok; cases hok
          | ok others =>
              rw [hrest] at hok
              cases hok
              rw [List.map_cons, List.sum_cons, ih hrest, hentry.2 result rfl]
              rfl

/-- A child comes to what `post` says, and a result costs as much as it weighs at the place of the
child. -/
def Costs (post : Outcomes σ) (weight : Placed → M) (entry : Branch σ × Nat)
    (outcome : Except Error ConditionResult) (more : M) : Prop :=
  post entry.1 outcome ∧ ∀ result, outcome = .ok result → more = weight (result, entry.2)

/-- A batch spends what its children do. -/
theorem spends_runBatch {batch : Batch σ}
    (h : ∀ entry ∈ batch, Spends meter entry.1.run (Costs post weight entry)) :
    Spends meter (runBatch batch) fun outcome more => BatchRun post batch outcome ∧
      ∀ results, outcome = .ok results → more = (results.map weight).sum := by
  refine (Spends.each h).bind (fun outcomes more hpaid => ?_) fun e more hpaid => ?_
  · obtain ⟨paid, houtcomes, rfl, hpaid⟩ := hpaid
    obtain rfl := Except.ok.inj houtcomes
    have hrun : BatchRun post batch ((allOk (paid.map Prod.fst)).map fun results =>
        results.zip (batch.map (·.2))) :=
      batchRun_allOk (List.forall₂_map_right_iff.2 (hpaid.imp fun _ _ hentry => hentry.1))
    have houtcome : Spends meter (Eval.outcome (allOk (paid.map Prod.fst))) fun outcome more =>
        outcome = allOk (paid.map Prod.fst) ∧ more = 0 := .outcome ⟨rfl, rfl⟩
    refine houtcome.bind (fun results none hresults => ?_) fun e none he => ?_
    · obtain ⟨hresults, rfl⟩ := hresults
      rw [← hresults] at hrun
      refine .pure ⟨hrun, fun placed hplaced => ?_⟩
      rw [add_zero, add_zero, sum_allOk hpaid hresults.symm]
      exact Except.ok.inj hplaced ▸ rfl
    · rw [← he.1] at hrun
      exact ⟨hrun, nofun⟩
  · obtain ⟨paid, houtcomes, _⟩ := hpaid
    cases houtcomes

variable [HasSession σ]

/-- The results of children that are skipped. -/
def skipped (batch : Batch σ) : List Placed :=
  batch.map fun entry => (entry.1.condition.skip, entry.2)

/-- Counting that a condition is skipped costs so much. -/
def SkipCosts (meter : σ → Option M) (condition : Condition) (cost : M) : Prop :=
  Spends meter (count .skips condition.kind.name) fun outcome more => outcome = .ok () ∧ more = cost

/-- Skipping children spends what the results of skipping them weigh. -/
theorem spends_skipEach {batch : Batch σ} (h : ∀ entry ∈ batch,
      SkipCosts meter entry.1.condition (weight (entry.1.condition.skip, entry.2))) :
    Spends meter (skipEach batch) fun outcome more =>
      outcome = .ok (skipped batch) ∧ more = ((skipped batch).map weight).sum := by
  induction batch with
  | nil => exact .pure ⟨rfl, rfl⟩
  | cons entry rest ih =>
      rw [List.forall_mem_cons] at h
      refine h.1.bind (fun _ first hfirst => ?_) fun e first hfirst => nomatch hfirst.1
      refine (ih h.2).bind (fun results others hothers => ?_) fun e others hothers => nomatch hothers.1
      obtain ⟨hresults, rfl⟩ := hothers
      obtain rfl := Except.ok.inj hresults
      refine .pure ⟨rfl, ?_⟩
      rw [add_zero, hfirst.2]
      exact List.sum_cons.symm

/-- Batches spend what those children do that are evaluated, and what skipping the others does. -/
theorem spends_runBatches (post : Outcomes σ) (weight : Placed → M) (join : Join)
    (heval : ∀ branch result, post branch (.ok result) → result.isSkipped = false)
    {batches : List (Batch σ)}
    (h : ∀ batch ∈ batches, ∀ entry ∈ batch, Spends meter entry.1.run (Costs post weight entry))
    (hskip : ∀ batch ∈ batches, ∀ entry ∈ batch,
      SkipCosts meter entry.1.condition (weight (entry.1.condition.skip, entry.2))) :
    Spends meter (runBatches join batches) fun outcome more =>
      BatchesRun post join batches.flatten outcome ∧
        ∀ verdict results, outcome = .ok (verdict, results) → more = (results.map weight).sum := by
  induction batches with
  | nil =>
      refine .pure ⟨⟨.nil, .inr ⟨rfl, by simp⟩⟩, fun verdict results hresults => ?_⟩
      cases hresults
      rfl
  | cons batch rest ih =>
      rw [List.forall_mem_cons] at h hskip
      rw [List.flatten_cons]
      refine (spends_runBatch h.1).bind (fun results more hresults => ?_) fun e more he => ?_
      · obtain ⟨hrun, hmore⟩ := hresults
        obtain rfl := hmore results rfl
        split
        · next hdecides =>
            have hskipped : ∀ entry ∈ rest.flatten,
                SkipCosts meter entry.1.condition (weight (entry.1.condition.skip, entry.2)) := by
              intro entry hentry
              obtain ⟨batch, hbatch, hentry⟩ := List.mem_flatten.1 hentry
              exact hskip.2 batch hbatch entry hentry
            refine (spends_skipEach hskipped).bind (fun others more hothers => ?_)
              fun e more he => nomatch he.1
            obtain ⟨hothers, rfl⟩ := hothers
            obtain rfl := Except.ok.inj hothers
            refine .pure ⟨batchesRun_skip heval hrun hdecides, fun verdict found hfound => ?_⟩
            cases hfound
            rw [add_zero, List.map_append, List.sum_append]
        · next hdecides =>
            refine (ih h.2 hskip.2).bind (fun found more hfound => ?_) fun e more he => ?_
            · obtain ⟨hothers, hmore⟩ := hfound
              obtain ⟨verdict, others⟩ := found
              obtain rfl := hmore verdict others rfl
              refine .pure ⟨batchesRun_append heval hrun (Bool.eq_false_of_not_eq_true hdecides) hothers,
                fun verdict found hfound => ?_⟩
              cases hfound
              rw [add_zero, List.map_append, List.sum_append]
            · obtain ⟨⟨entry, hentry, hpost⟩, _⟩ := he
              exact ⟨⟨entry, List.mem_append_right _ hentry, hpost⟩, nofun⟩
      · obtain ⟨⟨entry, hentry, hpost⟩, _⟩ := he
        exact ⟨⟨entry, List.mem_append_left _ hentry, hpost⟩, nofun⟩

/-- Results in the order of the definition weigh the same. -/
theorem sum_inOrder {α : Type} (price : α → ConditionResult → M) {items : List α}
    {results : List Placed} (hplaces : (results.map (·.2)).Perm (List.range items.length)) :
    (results.map fun placed => (items[placed.2]?.map fun item => price item placed.1).getD 0).sum =
      (List.zipWith price items (inOrder items.length results)).sum := by
  have hlength := length_inOrder hplaces
  rw [← ((zipIdx_inOrder_perm hplaces).map _).sum_eq]
  refine congrArg List.sum (List.ext_getElem (by simp [hlength]) fun place hplace hitem => ?_)
  rw [List.length_map, List.length_zipIdx, hlength] at hplace
  rw [List.getElem_map, List.getElem_zipWith, List.getElem_zipIdx, Nat.zero_add,
    List.getElem?_eq_getElem hplace, Option.map_some, Option.getD_some]

/-- The children of a combinator spend what is due for each of them and its result. -/
theorem spends_run (join : Join) (due : Condition → ConditionResult → M) {branches : List (Branch σ)}
    (h : ∀ branch ∈ branches, Spends meter branch.run fun outcome more => ∀ result,
      outcome = .ok result → result.isSkipped = false ∧ more = due branch.condition result)
    (hskip : ∀ branch ∈ branches,
      SkipCosts meter branch.condition (due branch.condition branch.condition.skip)) :
    Spends meter (run join branches) fun outcome more => ∀ verdict results,
      outcome = .ok (verdict, results) → results.length = branches.length ∧
        more = (List.zipWith (fun branch => due branch.condition) branches results).sum := by
  unfold run
  split
  · refine .pure fun verdict results hresults => ?_
    cases hresults
    exact ⟨rfl, rfl⟩
  · next branch =>
      refine (h branch List.mem_cons_self).bind (fun result more hresult => ?_)
        fun e more he => nofun
      refine .pure fun verdict results hresults => ?_
      cases hresults
      refine ⟨rfl, ?_⟩
      rw [add_zero, (hresult result rfl).2]
      exact (add_zero _).symm
  · refine .get_bind fun seen => ?_
    have hperm := batchesBy_perm (fun entry : Branch σ × Nat =>
      entry.1.condition.effectivePriority (HasSession.session seen).almanac) branches.zipIdx
    have hentry : ∀ batch ∈ batches (HasSession.session seen).almanac branches, ∀ entry ∈ batch,
        branches[entry.2]? = some entry.1 := fun batch hbatch entry hentry =>
      getElem?_of_mem_batch hbatch hentry
    let weight : Placed → M := fun placed =>
      (branches[placed.2]?.map fun branch => due branch.condition placed.1).getD 0
    have hweight : ∀ {entry : Branch σ × Nat}, branches[entry.2]? = some entry.1 →
        ∀ result, weight (result, entry.2) = due entry.1.condition result := by
      intro entry hentry result
      change (branches[entry.2]?.map _).getD 0 = _
      rw [hentry, Option.map_some, Option.getD_some]
    refine (spends_runBatches (fun _ outcome => ∀ result, outcome = .ok result →
        result.isSkipped = false) weight join (fun _ result hresult => hresult result rfl)
      (fun batch hbatch entry hmem => ?_) fun batch hbatch entry hmem => ?_).bind
        (fun found more hfound => ?_) fun e more he => nofun
    · have hbranch := hentry batch hbatch entry hmem
      refine (h entry.1 (List.mem_of_getElem? hbranch)).imp fun outcome more hmore =>
        ⟨fun result hresult => (hmore result hresult).1, fun result hresult => ?_⟩
      rw [hweight hbranch]
      exact (hmore result hresult).2
    · have hbranch := hentry batch hbatch entry hmem
      rw [hweight hbranch]
      exact hskip entry.1 (List.mem_of_getElem? hbranch)
    · obtain ⟨verdict, results⟩ := found
      obtain ⟨⟨hfits, _⟩, hmore⟩ := hfound
      obtain rfl := hmore verdict results rfl
      have hplaces := places_perm hperm hfits
      refine .pure fun verdict found hfound => ?_
      cases hfound
      exact ⟨length_inOrder hplaces,
        (add_zero _).trans (sum_inOrder (fun branch => due branch.condition) hplaces)⟩

end Schedule

/-! ### Evaluation -/

namespace Condition

open ConditionResult

variable {named : Table Value Condition} {inner : Condition → ConditionResult → Nat} {kind : Kind}

/-- References that were followed count as evaluations of references. -/
def passed (kind : Kind) (followed : Nat) : ℕ × ℕ := (if kind = .reference then followed else 0, 0)

/-- What is counted of a kind for a condition and its result, given how many references were followed
to come to it. -/
def due (kind : Kind) (followed : Condition → ConditionResult → Nat) (condition : Condition)
    (result : ConditionResult) : ℕ × ℕ :=
  price kind result + passed kind (followed condition result)

theorem passed_zero (kind : Kind) : passed kind 0 = 0 := by
  unfold passed
  split <;> rfl

theorem passed_add (kind : Kind) (first others : Nat) :
    passed kind (first + others) = passed kind first + passed kind others := by
  unfold passed
  split <;> simp

/-- What is due for children, if each has a result. -/
theorem sum_due (followed : Condition → ConditionResult → Nat) {children : List Condition}
    {results : List ConditionResult} (h : results.length = children.length) :
    (List.zipWith (due kind followed) children results).sum =
      (results.map (price kind)).sum + passed kind (List.zipWith followed children results).sum := by
  induction children generalizing results with
  | nil =>
      obtain rfl := List.eq_nil_of_length_eq_zero h
      rw [List.zipWith_nil_left, List.zipWith_nil_left, List.map_nil, List.sum_nil, List.sum_nil,
        passed_zero, add_zero]
  | cons child rest ih =>
      cases results with
      | nil => cases h
      | cons result others =>
          rw [List.zipWith_cons_cons, List.sum_cons, ih (Nat.succ.inj h), List.zipWith_cons_cons,
            List.sum_cons, List.map_cons, List.sum_cons, passed_add, due]
          exact add_add_add_comm _ _ _ _

theorem due_skip (condition : Condition) : due kind (followedWith named inner) condition condition.skip =
    (0, if condition.kind = kind then 1 else 0) := by
  rw [due, price_skip, followedWith_skip]
  simp [passed]

/-- What is due for a condition that was evaluated, given what is for its parts. -/
theorem due_eq {followed : Condition → ConditionResult → Nat} {condition : Condition}
    {result : ConditionResult} (h : result.isSkipped = false) :
    due kind followed condition result = (if result.kind = kind then 1 else 0, 0) +
      ((result.parts.map (price kind)).sum + passed kind (followed condition result)) := by
  rw [due, price_eq h, add_assoc]

/-- What is due for a condition without parts. -/
theorem due_leaf {followed : Condition → ConditionResult → Nat} {condition : Condition}
    {result : ConditionResult} (h : result.isSkipped = false) (hparts : result.parts = [])
    (hfollowed : followed condition result = 0) :
    due kind followed condition result = (if result.kind = kind then 1 else 0, 0) := by
  rw [due_eq h, hparts, hfollowed, passed_zero, List.map_nil, List.sum_nil, add_zero, add_zero]

/-- What evaluating a condition spends: what is due for it and its result. -/
def Pays (kind : Kind) (followed : Condition → ConditionResult → Nat) (condition : Condition)
    (outcome : Except Error ConditionResult) (more : ℕ × ℕ) : Prop :=
  ∀ result, outcome = .ok result → result.isSkipped = false ∧ more = due kind followed condition result

/-- Nothing is said of what a failure spends. -/
theorem Pays.error {followed : Condition → ConditionResult → Nat} {condition : Condition} (e : Error)
    (more : ℕ × ℕ) : Pays kind followed condition (.error e) more := by
  intro result hresult
  cases hresult

end Condition

/-! ### The meter -/

section Meter

variable {σ : Type} [HasSession σ]

/-- What was counted of a kind, if anything is counted: evaluations, and skips. -/
def kindMeter (kind : Kind) (world : σ) : Option (ℕ × ℕ) :=
  (HasSession.session world).tally.map fun tally =>
    (tally.amount .evaluations kind.name, tally.amount .skips kind.name)

theorem Kind.name_inj {kind other : Kind} : kind.name = other.name ↔ kind = other := by
  cases kind <;> cases other <;> decide

/-- Counting one under a label adds to the meter what the counter and the label say. -/
theorem kindMeter_count (kind : Kind) (counter : Counter) (label : String) (world : σ) :
    kindMeter kind (HasSession.withSession { HasSession.session world with
        tally := (HasSession.session world).tally.map fun tally => tally.count counter label } world) =
      (kindMeter kind world).map (· +
        (if counter = .evaluations ∧ label = kind.name then 1 else 0,
          if counter = .skips ∧ label = kind.name then 1 else 0)) := by
  rw [kindMeter, HasSession.session_withSession, Option.map_map, kindMeter, Option.map_map]
  refine congrArg (Option.map · _) (funext fun tally => ?_)
  rw [Function.comp_apply, Tally.amount_count, Tally.amount_count]
  rfl

/-- Looking up facts leaves what is counted of conditions. -/
theorem allowsFacts_kindMeter (kind : Kind) :
    AllowsFacts fun world now : σ => kindMeter kind now = kindMeter kind world where
  session world session htally := by
    rw [kindMeter, HasSession.session_withSession, htally, kindMeter]
  counting counter hcounter world label := by
    have hevaluations : ¬ (counter = .evaluations ∧ label = kind.name) := by
      rintro ⟨rfl, _⟩
      cases hcounter
    have hskips : ¬ (counter = .skips ∧ label = kind.name) := by
      rintro ⟨rfl, _⟩
      cases hcounter
    rw [kindMeter_count, if_neg hevaluations, if_neg hskips]
    cases kindMeter kind world <;> rfl

theorem spends_current_bind {M α : Type} [AddCommMonoid M] {meter : σ → Option M}
    {rest : Session → Eval σ α} {cost : Except Error α → M → Prop}
    (h : ∀ session, Spends meter (rest session) cost) : Spends meter (current >>= rest) cost :=
  Spends.get_bind fun world => h (HasSession.session world)

theorem spends_evaluation (kind own : Kind) :
    Spends (kindMeter (σ := σ) kind) (count .evaluations own.name) fun outcome more =>
      outcome = .ok () ∧ more = (if own = kind then 1 else 0, 0) := by
  refine Spends.modify fun world => ?_
  rw [kindMeter_count]
  simp [Kind.name_inj]

theorem skipCosts (kind : Kind) (condition : Condition) :
    Schedule.SkipCosts (kindMeter (σ := σ) kind) condition
      (0, if condition.kind = kind then 1 else 0) := by
  refine Spends.modify fun world => ?_
  rw [kindMeter_count]
  simp [Kind.name_inj]

end Meter

namespace Condition

open ConditionResult

variable {σ : Type} [HasSession σ] {named : Table Value Condition}
  {inner : Condition → ConditionResult → Nat} {kind : Kind} {meaning : Meaning σ}
  {follow : Condition → Eval σ ConditionResult}

/-- The children of a combinator spend what is due for them. -/
theorem spends_children (join : Join) {children : List Condition}
    (h : ∀ child ∈ children, Spends (kindMeter kind) (child.evaluateWith meaning follow)
      (Pays kind (followedWith named inner) child)) :
    Spends (kindMeter kind) (Schedule.run join (branches meaning follow children))
      fun outcome more => ∀ verdict results, outcome = .ok (verdict, results) →
        more = (results.map (price kind)).sum + passed kind (followedEach named inner children results) := by
  rw [branches_eq_map]
  refine (Schedule.spends_run join (due kind (followedWith named inner)) (fun branch hbranch => ?_)
    fun branch hbranch => ?_).imp fun outcome more hmore verdict results hresults => ?_
  · obtain ⟨child, hchild, rfl⟩ := List.mem_map.1 hbranch
    exact h child hchild
  · rw [due_skip]
    exact skipCosts kind branch.condition
  · obtain ⟨hlength, hsum⟩ := hmore verdict results hresults
    rw [List.length_map] at hlength
    rw [List.zipWith_map_left] at hsum
    rw [hsum, sum_due _ hlength, followedEach_eq]

/-- Evaluating a condition spends what is due for it and its result. -/
theorem spends_evaluateWith (hnamed : ∀ world, meaning.named world = named)
    (hcompare : ∀ leaf, Spends (kindMeter kind) (meaning.compare leaf) fun _ more => more = 0)
    (hfollow : ∀ condition, Spends (kindMeter kind) (follow condition) (Pays kind inner condition))
    (hinner : ∀ condition result (head : ResultHead), head.verdict = result.head.verdict →
      inner condition (result.withHead head) = inner condition result) (condition : Condition) :
    Spends (kindMeter kind) (condition.evaluateWith meaning follow)
      (Pays kind (followedWith named inner) condition) := by
  induction condition with
  | all children name priority ih =>
      rw [evaluateWith]
      refine (spends_evaluation kind .all).bind (fun _ own hown => ?_) fun e own _ => .error e own
      refine (spends_children .all ih).bind (fun found more hfound => ?_) fun e more _ => .error e _
      refine .pure fun result hresult => ?_
      obtain rfl := Except.ok.inj hresult
      refine ⟨rfl, Eq.trans ?_ (due_eq rfl).symm⟩
      rw [add_zero, hown.2, hfound _ _ rfl, followedWith]
      rfl
  | any children name priority ih =>
      rw [evaluateWith]
      refine (spends_evaluation kind .any).bind (fun _ own hown => ?_) fun e own _ => .error e own
      refine (spends_children .any ih).bind (fun found more hfound => ?_) fun e more _ => .error e _
      refine .pure fun result hresult => ?_
      obtain rfl := Except.ok.inj hresult
      refine ⟨rfl, Eq.trans ?_ (due_eq rfl).symm⟩
      rw [add_zero, hown.2, hfound _ _ rfl, followedWith]
      rfl
  | not child name priority ih =>
      rw [evaluateWith]
      refine (spends_evaluation kind .not).bind (fun _ own hown => ?_) fun e own _ => .error e own
      refine ih.bind (fun found more hfound => ?_) fun e more _ => .error e _
      refine .pure fun result hresult => ?_
      obtain rfl := Except.ok.inj hresult
      refine ⟨rfl, Eq.trans ?_ (due_eq rfl).symm⟩
      rw [add_zero, hown.2, (hfound found rfl).2, due, followedWith, ConditionResult.parts,
        List.map_singleton, List.sum_singleton]
      rfl
  | never name =>
      rw [evaluateWith]
      refine (spends_evaluation kind .never).bind (fun _ own hown => ?_) fun e own _ => .error e own
      refine .pure fun result hresult => ?_
      obtain rfl := Except.ok.inj hresult
      refine ⟨rfl, Eq.trans ?_ (due_leaf rfl rfl rfl).symm⟩
      rw [add_zero, hown.2]
      rfl
  | reference target name priority =>
      rw [evaluateWith]
      refine (spends_evaluation kind .reference).bind (fun _ own hown => ?_) fun e own _ => .error e own
      refine .get_bind fun seen => ?_
      dsimp only
      rw [hnamed]
      split
      · next condition hfound =>
          refine (hfollow condition).bind (fun result more hmore => ?_) fun e more _ => .error e _
          refine .pure fun referred hreferred => ?_
          obtain rfl := Except.ok.inj hreferred
          obtain ⟨hopen, rfl⟩ := hmore result rfl
          obtain ⟨head, hhead, hverdict⟩ : ∃ head, result.referred target name =
              result.withHead head ∧ head.verdict = result.head.verdict := ⟨_, rfl, rfl⟩
          rw [hhead]
          have hsame : (result.withHead head).isSkipped = false := by
            rw [isSkipped, head_withHead, hverdict]
            exact hopen
          have hfollowed : (Condition.reference target name priority).followedWith named inner
              (result.withHead head) = 1 + inner condition result := by
            simp only [followedWith, hfound, hsame, Bool.false_eq_true, if_false]
            rw [hinner condition result head hverdict, Nat.add_comm]
          have hpassed : (if Kind.reference = kind then 1 else 0, 0) = passed kind 1 := by
            simp only [passed, eq_comm]
          refine ⟨hsame, ?_⟩
          rw [add_zero, hown.2, due, due, hfollowed, passed_add, price_withHead hopen hverdict, hpassed]
          exact add_left_comm _ _ _
      · next hmissing =>
          refine spends_current_bind fun session => ?_
          split
          · refine .pure fun result hresult => ?_
            obtain rfl := Except.ok.inj hresult
            have hfollowed : (Condition.reference target name priority).followedWith named inner
                (.reference ⟨some false, priority, name, some target⟩) = 0 := by
              rw [followedWith, hmissing]
            refine ⟨rfl, Eq.trans ?_ (due_leaf rfl rfl hfollowed).symm⟩
            rw [add_zero, hown.2]
            rfl
          · split
            · exact .outcome (.error _ _)
            · exact .outcome (.error _ _)
  | comparison leaf name priority =>
      rw [evaluateWith]
      refine (spends_evaluation kind .comparison).bind (fun _ own hown => ?_) fun e own _ => .error e own
      refine (hcompare leaf).bind (fun found more hmore => ?_) fun e more _ => .error e _
      refine spends_current_bind fun session => ?_
      refine .pure fun result hresult => ?_
      obtain rfl := Except.ok.inj hresult
      refine ⟨rfl, Eq.trans ?_ (due_leaf rfl rfl rfl).symm⟩
      rw [hmore, add_zero, add_zero, hown.2]
      rfl

/-- Evaluating a condition spends what is due for it and its result.  When a result is returned no
references are left that are followed only by looking deeper. -/
theorem spends_evaluateIn (hnamed : ∀ world, meaning.named world = named)
    (hcompare : ∀ leaf, Spends (kindMeter kind) (meaning.compare leaf) fun _ more => more = 0)
    {depth limit : Nat} (hle : depth ≤ limit) (condition : Condition) :
    Spends (kindMeter kind) (condition.evaluateIn meaning depth)
      (Pays kind (followedIn named limit) condition) := by
  induction depth generalizing limit condition with
  | zero =>
      have hfollow : ∀ (inner : Condition → ConditionResult → Nat) (target : Condition),
          Spends (kindMeter kind) (throw .exhausted : Eval σ ConditionResult) (Pays kind inner target) :=
        fun _ _ => .outcome (.error _ _)
      cases limit with
      | zero => exact spends_evaluateWith hnamed hcompare (hfollow _) (fun _ _ _ _ => rfl) condition
      | succ limit =>
          exact spends_evaluateWith hnamed hcompare (hfollow _)
            (fun condition _ _ hverdict => followedIn_withHead limit condition hverdict) condition
  | succ depth ih =>
      cases limit with
      | zero => cases hle
      | succ limit =>
          exact spends_evaluateWith hnamed hcompare (ih (Nat.le_of_succ_le_succ hle))
            (fun condition _ _ hverdict => followedIn_withHead limit condition hverdict) condition

/-- What was counted while a condition came to a result: for each kind as many evaluations as nodes of
the kind were evaluated, and for references one more for each that was followed, however deep one
looks for them; and as many skips as there are skipped parts of the kind, the largest ones. -/
structure Accounted (named : Table Value Condition) (condition : Condition) (result : ConditionResult)
    (before after : Tally) : Prop where
  evaluations : ∀ (kind : Kind) (depth : Nat), depthLimit ≤ depth →
    after.amount .evaluations kind.name = before.amount .evaluations kind.name +
      (result.evaluatedNodes []).countP (fun node => node.2.kind = kind) +
      if kind = .reference then condition.followedIn named depth result else 0
  skips : ∀ kind : Kind, after.amount .skips kind.name = before.amount .skips kind.name +
    (result.skippedParts []).countP fun part => part.2.kind = kind

/-- The nodes of a condition are the nodes that were evaluated and those of the skipped parts, each of
them once. -/
structure AllTold (condition : Condition) (result : ConditionResult) : Prop where
  nodup : ((condition.nodes []).map Prod.fst).Nodup
  perm : (ConditionResult.labels (result.evaluatedNodes [] ++ result.skippedNodes [])).Perm
    (labels (condition.nodes []))

/-- When an evaluation has returned a result, everything was counted that the result tells to have been
evaluated or skipped, and every reference that was followed, and no more; without references the
result tells of every node of the condition. -/
theorem evaluate_accounted (world : σ) (named : Table Value Condition) (condition : Condition)
    (tally : Tally) (result : ConditionResult) (htally : (HasSession.session world).tally = some tally)
    (h : (Eval.run world (condition.evaluate fun _ => named)).1 = .ok result) :
    (∃ after, (HasSession.session (Eval.run world (condition.evaluate fun _ => named)).2).tally =
        some after ∧ Accounted named condition result tally after) ∧
      (condition.ReferenceFree → AllTold condition result) := by
  have hmeter : ∀ kind depth, depthLimit ≤ depth →
      kindMeter kind (Eval.run world (condition.evaluate fun _ => named)).2 =
        some ((tally.amount .evaluations kind.name, tally.amount .skips kind.name) +
          due kind (followedIn named depth) condition result) := by
    intro kind depth hle
    have hstart : kindMeter kind world =
        some (tally.amount .evaluations kind.name, tally.amount .skips kind.name) := by
      rw [kindMeter, htally, Option.map_some]
    have hcompare : ∀ leaf, Spends (kindMeter kind) (Leaf.compare (σ := σ) depthLimit leaf)
        fun _ more => more = 0 :=
      fun leaf => .of_within ((allowsFacts_kindMeter kind).within_compare depthLimit leaf)
    have hspends : Spends (kindMeter kind) (condition.evaluate fun _ => named : Eval σ ConditionResult)
        (Pays kind (followedIn named depth) condition) :=
      spends_evaluateIn (fun _ => rfl) hcompare hle condition
    rcases hspends.run hstart with hstalled | ⟨more, hpays, hafter⟩
    · cases h.symm.trans hstalled
    · rw [← (hpays result h).2]
      exact hafter
  refine ⟨?_, fun hfree => ⟨nodup_addresses [] condition, ?_⟩⟩
  · cases hafter : (HasSession.session
        (Eval.run world (condition.evaluate fun _ => named)).2).tally with
    | none =>
        have hnone := hmeter .all depthLimit le_rfl
        rw [kindMeter, hafter] at hnone
        cases hnone
    | some after =>
        have hkind : ∀ kind depth, depthLimit ≤ depth →
            (after.amount .evaluations kind.name, after.amount .skips kind.name) =
              (tally.amount .evaluations kind.name, tally.amount .skips kind.name) +
                price kind result + passed kind (condition.followedIn named depth result) := by
          intro kind depth hle
          have hsame := hmeter kind depth hle
          rw [kindMeter, hafter, Option.map_some, Option.some.injEq, due, ← add_assoc] at hsame
          exact hsame
        exact ⟨after, rfl, fun kind depth hle => congrArg Prod.fst (hkind kind depth hle),
          fun kind => congrArg Prod.snd (hkind kind depthLimit le_rfl)⟩
  · obtain ⟨_, htrail, _⟩ := evaluate_audit world named condition result h
    rw [← htrail.labels_eq hfree]
    exact (evaluated_append_skipped_perm htrail.consistentWithin []).map _

/-- A session in which everything is counted. -/
def countedSession : Session := { lenientSession with tally := some Tally.empty }

/-- One name stands for another one, and that for a condition. -/
def relayed : Table Value Condition :=
  [(.str "relay", .reference "end" none none), (.str "end", .never (some "last"))]

/-- A condition whose first child is skipped, as the second one decides. -/
def decidedBy (others : List Condition) : Condition :=
  .any (.all [.never none] none ⟨4, Nat.le_add_left 1 3⟩ :: .not (.never none) none Priority.first :: others)
    none Priority.first

/-- The result of `decidedBy`. -/
def decidedByResult (others : List ConditionResult) : ConditionResult :=
  .any ⟨some true, some Priority.first, none, none⟩
    (.all ⟨none, some ⟨4, Nat.le_add_left 1 3⟩, none, none⟩
        [.never ⟨none, some Priority.first, none, none⟩] ::
      .not ⟨some true, some Priority.first, none, none⟩
        (.never ⟨some false, some Priority.first, none, none⟩) :: others)

/-- With a reference that leads on to another one, and without. -/
theorem evaluate_accounted_decidedBy :
    (HasSession.session countedSession).tally = some Tally.empty ∧
      (let relaying := decidedBy [.reference "relay" none none]
        let result := decidedByResult
          [.never ⟨some false, some Priority.first, some "last", some "relay"⟩]
        (Eval.run countedSession (relaying.evaluate fun _ => relayed)).1 = .ok result ∧
          ∃ after, (Eval.run countedSession (relaying.evaluate fun _ => relayed)).2.tally = some after ∧
            Accounted relayed relaying result Tally.empty after) ∧
      (Eval.run countedSession ((decidedBy []).evaluate fun _ => relayed)).1 =
          .ok (decidedByResult []) ∧
        (decidedBy []).ReferenceFree ∧ AllTold (decidedBy []) (decidedByResult []) := by
  have hrelaying : (Eval.run countedSession
      ((decidedBy [.reference "relay" none none]).evaluate fun _ => relayed)).1 =
        .ok (decidedByResult [.never ⟨some false, some Priority.first, some "last", some "relay"⟩]) := by
    with_unfolding_all rfl
  have hplain : (Eval.run countedSession ((decidedBy []).evaluate fun _ => relayed)).1 =
      .ok (decidedByResult []) := by
    rfl
  have hfree : (decidedBy []).ReferenceFree := by
    intro target name priority hmem
    simp [decidedBy, parts, partsEach] at hmem
  exact ⟨rfl, ⟨hrelaying,
    (evaluate_accounted countedSession relayed _ Tally.empty _ rfl hrelaying).1⟩, hplain, hfree,
    (evaluate_accounted countedSession relayed _ Tally.empty _ rfl hplain).2 hfree⟩

end Condition

end Rulebook
