import Rulebook.Proofs.Condition.Reduction

/-!
Batches as a stable sort.

Whatever the children of a combinator and their priorities are, putting them into batches sorts them
stably by their effective priorities, with a batch for each of these (`stableBatches_batches`).  So
each child stands at its place in exactly one batch, and results that are put into the slots of the
children batch by batch leave no slot empty, whether the children were evaluated or skipped
(`sorts_stably`).
-/

namespace Rulebook

open Session Eval Strand

/-- Whatever the world is and whatever the others do, what the step yields is of a kind. -/
def Eval.Delivers {σ α : Type} (step : Eval σ α) (kind : Except Error α → Prop) : Prop :=
  ∀ (post : Ending → Prop) (next : Except Error α → Strand σ Ending),
    (∀ result, kind result → (next result).Ends post) → (step next).Ends post

namespace Schedule

/-! ### Batches -/

section Batches

variable {α : Type}

/-- Items with their places among all of them, sorted stably by their levels into batches of one
level each. -/
structure StableBatches (level : α → Nat) (items : List α) (batches : List (List (α × Nat))) :
    Prop where
  nonempty : ∀ batch ∈ batches, batch ≠ []
  levels : ∃ levels : List Nat, levels.Pairwise (· < ·) ∧
    List.Forall₂ (fun number batch => ∀ entry ∈ batch, level entry.1 = number) levels batches
  places : ∀ batch ∈ batches, (batch.map (·.2)).Pairwise (· < ·)
  once : ∀ entry ∈ items.zipIdx,
    ∃! number : Nat, ∃ batch : List (α × Nat), batches[number]? = some batch ∧ entry ∈ batch
  only : ∀ batch ∈ batches, ∀ entry ∈ batch, entry ∈ items.zipIdx
  sorted : batches.flatten = items.zipIdx.mergeSort fun entry other => level entry.1 ≤ level other.1

theorem pairwise_zipIdx (items : List α) : (items.zipIdx.map (·.2)).Pairwise (· < ·) := by
  rw [List.zipIdx_map_snd]
  exact List.pairwise_lt_range'

/-- An item is in one batch only, as the other batches are of other priorities. -/
theorem eq_of_mem_batchesBy {priority : α → Nat} {items batch other : List α} {item : α}
    {first second : Nat} (hbatch : (batchesBy priority items)[first]? = some batch)
    (hother : (batchesBy priority items)[second]? = some other) (hitem : item ∈ batch)
    (hagain : item ∈ other) : first = second := by
  have hascending := List.pairwise_iff_getElem.1 (batchesBy_ascending priority items)
  obtain ⟨hfirst, rfl⟩ := List.getElem?_eq_some_iff.1 hbatch
  obtain ⟨hsecond, rfl⟩ := List.getElem?_eq_some_iff.1 hother
  rcases Nat.lt_trichotomy first second with hlt | heq | hgt
  · exact absurd (hascending _ _ hfirst hsecond hlt item hitem item hagain) (Nat.lt_irrefl _)
  · exact heq
  · exact absurd (hascending _ _ hsecond hfirst hgt item hagain item hitem) (Nat.lt_irrefl _)

theorem stableBatches_batchesBy (level : α → Nat) (items : List α) :
    StableBatches level items (batchesBy (fun entry => level entry.1) items.zipIdx) where
  nonempty _ hbatch := batchesBy_ne_nil hbatch
  levels := by
    refine ⟨_, levels_ascending (fun entry : α × Nat => level entry.1) items.zipIdx, ?_⟩
    rw [batchesBy_eq, List.forall₂_map_right_iff, List.forall₂_same]
    exact fun number _ entry hentry => (mem_ofLevel.1 hentry).2
  places _ hbatch := (pairwise_zipIdx items).sublist ((batchesBy_sublist hbatch).map _)
  once entry hentry := by
    obtain ⟨batch, hbatch, hmem⟩ := List.mem_flatten.1 ((batchesBy_perm _ _).mem_iff.2 hentry)
    obtain ⟨number, hnumber⟩ := List.mem_iff_getElem?.1 hbatch
    refine ⟨number, ⟨batch, hnumber, hmem⟩, ?_⟩
    rintro second ⟨other, hother, hagain⟩
    exact eq_of_mem_batchesBy hother hnumber hagain hmem
  only _ hbatch _ hentry := (batchesBy_sublist hbatch).subset hentry
  sorted := (batchesBy_flatten _ _).trans (sortBy_precedes_eq_mergeSort _ _)

end Batches

/-- Putting children into batches is a stable sort by their effective priorities. -/
theorem stableBatches_batches {σ : Type} (almanac : Almanac) (branches : List (Branch σ)) :
    StableBatches (fun branch => branch.condition.effectivePriority almanac) branches
      (batches almanac branches) :=
  stableBatches_batchesBy _ branches

/-! ### Slots -/

section Slots

variable {σ : Type} {join : Join} {almanac : Almanac}

/-- Results that stand for the children of the batches, one batch after the other, leave none of the
slots into which they are put empty; what is in the slots then are the results. -/
def FillsSlots (batches : List (Batch σ)) (size : Nat) (placed : List Placed)
    (results : List ConditionResult) : Prop :=
  placed.map (·.2) = batches.flatten.map (·.2) ∧ slots size placed = results.map some

theorem fillsSlots_inOrder {branches : List (Branch σ)} {placed : List Placed}
    (h : placed.map (·.2) = (batches almanac branches).flatten.map (·.2)) :
    FillsSlots (batches almanac branches) branches.length placed
      (inOrder branches.length placed) := by
  refine ⟨h, slots_eq_map_inOrder ?_⟩
  rw [h]
  exact places_perm_range (batchesBy_perm _ _)

/-- Whatever its children do, a combinator of several yields what has been put into its slots. -/
theorem delivers_run [HasSession σ] (join : Join) (first second : Branch σ)
    (rest : List (Branch σ)) :
    (run join (first :: second :: rest)).Delivers fun result => ∀ verdict results,
      result = .ok (verdict, results) → ∃ almanac placed,
        FillsSlots (batches almanac (first :: second :: rest)) (rest.length + 2) placed results := by
  intro post next hnext
  refine .read fun world => ends_runBatches (fun verdict placed hplaced => hnext _ ?_)
    fun e => hnext _ nofun
  rintro found results ⟨⟩
  exact ⟨_, placed, fillsSlots_inOrder hplaced⟩

/-- Children at their places, without the steps that evaluate them. -/
def conditionsOf (batch : Batch σ) : List (Condition × Nat) :=
  batch.map fun entry => (entry.1.condition, entry.2)

/-- Batches were evaluated until one of them decided, the others were skipped, and the results were
put into slots on the way. -/
def FillsInCourse (join : Join) (batches : List (Batch σ)) (size : Nat)
    (results : List ConditionResult) : Prop :=
  ∃ told kept, told.map spotsOf = batches.map conditionsOf ∧ Course join told kept ∧
    FillsSlots batches size (placedOf told.flatten) results

theorem fillsInCourse_toldIn (run : Condition → Eval σ ConditionResult) {children : List Condition}
    {results : List ConditionResult} {kept : List (List (Told × Nat))}
    (hlength : results.length = children.length)
    (hcourse : Course join (toldIn almanac children results) kept) :
    FillsInCourse join (batches almanac (children.map fun child => ⟨child, run child⟩))
      children.length results := by
  rw [batches_toldIn almanac run hlength]
  refine ⟨_, kept, ?_, hcourse, ?_, ?_⟩
  · simp only [List.map_map, stepsOf, batchOf, conditionsOf, Function.comp_def, List.map_id']
  · rw [flatten_stepsOf, map_snd_stepsOf, placedOf, List.map_map]
    rfl
  · rw [slots_eq_map_inOrder (perm_places_toldIn hlength almanac), inOrder_toldIn hlength]

end Slots

/-- Batching is a stable sort.  Whatever several children do, their combinator yields the results that
were put into the slots of the children, of which none is empty; so does a combinator that is
evaluated, where the batches after one that decides are skipped. -/
theorem sorts_stably :
    (∀ (σ : Type) (almanac : Almanac) (branches : List (Branch σ)),
      StableBatches (fun branch => branch.condition.effectivePriority almanac) branches
        (batches almanac branches)) ∧
    (∀ (σ : Type) [HasSession σ] (join : Join) (first second : Branch σ) (rest : List (Branch σ)),
      (run join (first :: second :: rest)).Delivers fun result => ∀ verdict results,
        result = .ok (verdict, results) → ∃ almanac placed,
          FillsSlots (batches almanac (first :: second :: rest)) (rest.length + 2) placed results) ∧
    ∀ (session : Session) (depth deeper : Nat) (named : Table Value Condition) (join : Join)
      (children : List Condition) (name : Option String) (priority : Priority)
      (result : ConditionResult),
      Yields session ((join.condition children name priority).evaluateIn
        ⟨Leaf.compare depth, fun _ => named⟩ deeper) (.ok result) →
      ∃ verdict results, result = join.result ⟨some verdict, some priority, name, none⟩ results ∧
        FillsInCourse join (batches session.almanac (children.map fun child =>
          (⟨child, child.evaluateIn ⟨Leaf.compare depth, fun _ => named⟩ deeper⟩ : Branch Session)))
          children.length results := by
  refine ⟨fun _ => stableBatches_batches, fun _ => delivers_run, ?_⟩
  intro session depth deeper named join children name priority result hyields
  obtain ⟨verdict, results, kept, hresult, hlength, hcourse⟩ := runs_of_yields hyields result rfl
  exact ⟨verdict, results, hresult, fillsInCourse_toldIn _ hlength hcourse⟩

/-- The first of three children is skipped, as the others are of a lower priority and one of them
decides. -/
theorem sorts_stably_decidedLast :
    Yields Condition.lenientSession (Condition.decidedLast.evaluate fun _ => [])
        (.ok Condition.decidedLastResult) ∧
      ∃ verdict results,
        Condition.decidedLastResult =
            Join.any.result ⟨some verdict, some Priority.first, none, none⟩ results ∧
          FillsInCourse .any
            (batches Condition.lenientSession.almanac ([.all [.never none] none ⟨2, Nat.le_succ 1⟩,
              .reference "gone" (some "mine") none, .not (.never none) none Priority.first].map
                fun child => (⟨child, child.evaluate fun _ => []⟩ : Branch Session)))
            3 results := by
  have hyields : Yields Condition.lenientSession (Condition.decidedLast.evaluate fun _ => [])
      (.ok Condition.decidedLastResult) := ⟨20, rfl⟩
  exact ⟨hyields, sorts_stably.2.2 Condition.lenientSession depthLimit depthLimit [] .any
    [.all [.never none] none ⟨2, Nat.le_succ 1⟩, .reference "gone" (some "mine") none,
      .not (.never none) none Priority.first] none Priority.first _ hyields⟩

end Schedule

end Rulebook
