import Rulebook.Proofs.Condition.Reckoning
import Rulebook.Proofs.Condition.Transcript
import Rulebook.Proofs.Fact.Memoization
import Rulebook.Proofs.Operator.Builtin

/-!
Evaluating what a result tells.

A result is the definition of a condition of its own.  The children that were evaluated stand at the
places and have the priorities that they had, so evaluating that condition skips what was skipped
before, and comes to a result that tells the same (`reckonWith_condition`).
-/

namespace Rulebook

open Eval Session Strand Registry

theorem mapM_eq_some_iff {α β : Type} {f : α → Option β} {items : List α} {others : List β} :
    items.mapM f = some others ↔ List.Forall₂ (fun a b => f a = some b) items others := by
  induction items generalizing others with
  | nil => simp [eq_comm]
  | cons item rest ih =>
      rw [List.mapM_cons, List.forall₂_cons_left_iff]
      simp only [Option.bind_eq_bind, Option.bind_eq_some_iff, ih, Option.pure_def,
        Option.some.injEq]
      constructor
      · rintro ⟨first, hfirst, more, hmore, rfl⟩
        exact ⟨first, more, hfirst, hmore, rfl⟩
      · rintro ⟨first, more, hfirst, hmore, rfl⟩
        exact ⟨first, hfirst, more, hmore, rfl⟩

theorem forall₂_mem {α β : Type} {related : α → β → Prop} {items : List α} {others : List β}
    (h : List.Forall₂ related items others) :
    List.Forall₂ (fun a b => a ∈ items ∧ b ∈ others ∧ related a b) items others := by
  induction h with
  | nil => exact .nil
  | cons hfirst _ ih =>
      exact .cons ⟨List.mem_cons_self, List.mem_cons_self, hfirst⟩ (ih.imp fun _ _ hrest =>
        ⟨List.mem_cons_of_mem _ hrest.1, List.mem_cons_of_mem _ hrest.2.1, hrest.2.2⟩)

namespace Schedule

variable {join : Join} {almanac : Almanac} {verdict : Bool}

/-! ### What children come to -/

/-- The result is what the child comes to, or that of skipping it. -/
def Reaches (child : Prospect) (result : ConditionResult) : Prop :=
  child.2 = some result ∨ result = child.1.skip

/-- A batch comes to what its children come to, at their places. -/
theorem mapM_batch_iff {batch : List (Prospect × Nat)} {results : List Placed} :
    (batch.mapM fun entry => entry.1.2.map fun result => (result, entry.2)) = some results ↔
      List.Forall₂ (fun entry placed => placed.2 = entry.2 ∧ entry.1.2 = some placed.1)
        batch results := by
  rw [mapM_eq_some_iff]
  have hentry : ∀ (entry : Prospect × Nat) (placed : Placed),
      entry.1.2.map (fun result => (result, entry.2)) = some placed ↔
        placed.2 = entry.2 ∧ entry.1.2 = some placed.1 := by
    rintro entry ⟨result, place⟩
    rw [Option.map_eq_some_iff]
    constructor
    · rintro ⟨found, hfound, heq⟩
      cases heq
      exact ⟨rfl, hfound⟩
    · rintro ⟨rfl, hfound⟩
      exact ⟨result, hfound, rfl⟩
  simp only [hentry]

/-- What batches come to when they come to something: the results of a first batch decide, and the
children of the others are skipped, or they do not, and the others come to something. -/
theorem reckonBatches_cons {batch : List (Prospect × Nat)} {rest : List (List (Prospect × Nat))}
    {placed : List Placed} (h : reckonBatches join (batch :: rest) = some (verdict, placed)) :
    ∃ results others, placed = results ++ others ∧
      List.Forall₂ (fun entry placed => placed.2 = entry.2 ∧ entry.1.2 = some placed.1)
        batch results ∧
      (decides join results = true ∧ verdict = join.deciding ∧
          others = rest.flatten.map (fun entry => (entry.1.1.skip, entry.2)) ∨
        decides join results = false ∧ reckonBatches join rest = some (verdict, others)) := by
  rw [reckonBatches, Option.bind_eq_bind, Option.bind_eq_some_iff] at h
  obtain ⟨results, hresults, h⟩ := h
  split at h
  · next hdecides =>
      obtain ⟨rfl, rfl⟩ := Prod.mk.inj (Option.some.inj h)
      exact ⟨results, _, rfl, mapM_batch_iff.1 hresults, .inl ⟨hdecides, rfl, rfl⟩⟩
  · next hdecides =>
      obtain ⟨⟨_, others⟩, hothers, heq⟩ := Option.map_eq_some_iff.1 h
      obtain ⟨rfl, rfl⟩ := Prod.mk.inj heq
      exact ⟨results, others, rfl, mapM_batch_iff.1 hresults,
        .inr ⟨Bool.eq_false_of_not_eq_true hdecides, hothers⟩⟩

theorem forall₂_reaches {batches : List (List (Prospect × Nat))} {placed : List Placed}
    (h : reckonBatches join batches = some (verdict, placed)) :
    List.Forall₂ (fun entry placed => placed.2 = entry.2 ∧ Reaches entry.1 placed.1)
      batches.flatten placed := by
  induction batches generalizing placed with
  | nil =>
      obtain ⟨rfl, rfl⟩ := Prod.mk.inj (Option.some.inj h)
      exact .nil
  | cons batch rest ih =>
      obtain ⟨results, others, rfl, hresults, hrest⟩ := reckonBatches_cons h
      rw [List.flatten_cons]
      refine List.rel_append (hresults.imp fun _ _ hentry => ⟨hentry.1, .inl hentry.2⟩) ?_
      rcases hrest with ⟨_, _, rfl⟩ | ⟨_, hothers⟩
      · rw [List.forall₂_map_right_iff, List.forall₂_same]
        exact fun entry _ => ⟨rfl, .inr rfl⟩
      · exact ih hothers

/-! ### Children told again -/

/-- What a replay makes of a result: a child that is scheduled as the one that the result is of was,
that comes to the result as it is told if it was evaluated, and is skipped as it is told. -/
structure Replays (almanac : Almanac) (again : ConditionResult → Prospect)
    (told : ConditionResult → ConditionResult) (child : Prospect) : Prop where
  priority : ∀ result, Reaches child result →
    (again result).1.effectivePriority almanac = child.1.effectivePriority almanac
  evaluated : ∀ result, child.2 = some result →
    (again result).2 = some (told result) ∧ (told result).holds = result.holds
  skipped : (again child.1.skip).1.skip = told child.1.skip

variable {again : ConditionResult → Prospect} {told : ConditionResult → ConditionResult}

/-- Batches of children that are told again come to what is told of the results, if each child stands
where its result does. -/
theorem reckonBatches_again {batches : List (List (Prospect × Nat))} {placed : List Placed}
    {child : Nat → Prospect} (h : reckonBatches join batches = some (verdict, placed))
    (hreplays : ∀ batch ∈ batches, ∀ entry ∈ batch, Replays almanac again told entry.1)
    (hchild : ∀ entry ∈ placed, child entry.2 = again entry.1) :
    reckonBatches join (batches.map (List.map fun entry => (child entry.2, entry.2))) =
      some (verdict, placed.map (Prod.map told id)) := by
  induction batches generalizing placed with
  | nil =>
      obtain ⟨rfl, rfl⟩ := Prod.mk.inj (Option.some.inj h)
      rfl
  | cons batch rest ih =>
      obtain ⟨results, others, rfl, hresults, hrest⟩ := reckonBatches_cons h
      obtain ⟨hbatch, hbatches⟩ := List.forall_mem_cons.1 hreplays
      obtain ⟨hfirst, hothers⟩ := List.forall_mem_append.1 hchild
      have hagain : ((batch.map fun entry => (child entry.2, entry.2)).mapM fun entry =>
          entry.1.2.map fun result => (result, entry.2)) =
            some (results.map (Prod.map told id)) := by
        rw [mapM_batch_iff, List.forall₂_map_left_iff, List.forall₂_map_right_iff]
        refine (forall₂_mem hresults).imp fun entry found ⟨hentry, hfound, hplace, hcomes⟩ => ?_
        refine ⟨hplace, ?_⟩
        dsimp only
        rw [← hplace, hfirst found hfound]
        exact ((hbatch entry hentry).evaluated found.1 hcomes).1
      have hdecides : decides join (results.map (Prod.map told id)) = decides join results := by
        rw [decides, decides, List.any_map, Bool.eq_iff_iff, List.any_eq_true, List.any_eq_true]
        refine exists_congr fun found => and_congr_right fun hfound => ?_
        obtain ⟨entry, hentry, _, hcomes⟩ := exists_of_mem_right hresults hfound
        rw [Function.comp_apply, Prod.map_fst, ((hbatch entry hentry).evaluated found.1 hcomes).2]
      rw [List.map_cons, reckonBatches, hagain]
      simp only [Option.bind_eq_bind, Option.bind_some, hdecides]
      rcases hrest with ⟨hdecided, rfl, rfl⟩ | ⟨hopen, hrest⟩
      · rw [if_pos hdecided, List.map_append, ← List.map_flatten, List.map_map, List.map_map]
        refine congrArg (fun skipped => some (join.deciding, _ ++ skipped))
          (List.map_congr_left fun entry hentry => ?_)
        obtain ⟨batch, hbatch, hmem⟩ := List.mem_flatten.1 hentry
        have hskipped := hothers _ (List.mem_map_of_mem hentry)
        dsimp only at hskipped
        simp only [Function.comp_apply, Prod.map_apply, id_eq]
        rw [hskipped, (hbatches batch hbatch entry hmem).skipped]
      · rw [if_neg (Bool.eq_false_iff.1 hopen), ih hrest hbatches hothers, List.map_append]
        rfl

theorem slots_map (told : ConditionResult → ConditionResult) (size : Nat) (placed : List Placed) :
    slots size (placed.map (Prod.map told id)) = (slots size placed).map (Option.map told) := by
  induction placed using List.reverseRecOn with
  | nil =>
      rw [List.map_nil, slots, List.foldl_nil, List.map_replicate]
      rfl
  | append_singleton placed last ih =>
      rw [List.map_append, List.map_singleton, slots_concat, slots_concat, ih, fill, fill,
        List.map_set]
      rfl

theorem inOrder_map (told : ConditionResult → ConditionResult) (size : Nat) (placed : List Placed) :
    inOrder size (placed.map (Prod.map told id)) = (inOrder size placed).map told := by
  rw [inOrder, slots_map, inOrder, List.filterMap_map, List.map_filterMap]
  rfl

/-- Several children are put into batches. -/
theorem reckon_of_length (join : Join) (almanac : Almanac) {children : List Prospect}
    (h : 1 < children.length) : reckon join almanac children =
      (reckonBatches join (batchesBy (fun entry => entry.1.1.effectivePriority almanac)
        children.zipIdx)).map fun found => (found.1, inOrder children.length found.2) := by
  match children, h with
  | _ :: _ :: _, _ => rfl

theorem exists_placed {children : List Prospect} {results : List ConditionResult}
    (hseveral : 1 < children.length)
    (h : reckon join almanac children = some (verdict, results)) :
    ∃ placed, reckonBatches join (batchesBy (fun entry => entry.1.1.effectivePriority almanac)
      children.zipIdx) = some (verdict, placed) ∧ results = inOrder children.length placed := by
  rw [reckon_of_length join almanac hseveral, Option.map_eq_some_iff] at h
  obtain ⟨⟨found, placed⟩, hplaced, heq⟩ := h
  obtain ⟨hfound, hresults⟩ := Prod.mk.inj heq
  dsimp only at hfound
  exact ⟨placed, hfound ▸ hplaced, hresults.symm⟩

/-- Whatever the children of a combinator come to, each result is that of its child. -/
theorem forall₂_reckon {children : List Prospect} {results : List ConditionResult}
    (h : reckon join almanac children = some (verdict, results)) :
    List.Forall₂ Reaches children results := by
  match children with
  | [] =>
      obtain ⟨_, rfl⟩ := Prod.mk.inj (Option.some.inj h)
      exact .nil
  | [child] =>
      obtain ⟨result, hresult, heq⟩ := Option.map_eq_some_iff.1 h
      obtain ⟨_, rfl⟩ := Prod.mk.inj heq
      exact .cons (.inl hresult) .nil
  | first :: second :: rest =>
      obtain ⟨placed, hplaced, rfl⟩ := exists_placed (by simp) h
      exact forall₂_inOrder (batchesBy_perm _ _) (forall₂_reaches hplaced)

/-- Other items at the places of some. -/
theorem zipIdx_eq_map {α β : Type} {items : List α} {others : List β}
    (hlength : others.length = items.length) (other : Nat → β)
    (h : ∀ place (hplace : place < others.length), other place = others[place]) :
    others.zipIdx = items.zipIdx.map fun entry => (other entry.2, entry.2) := by
  refine List.ext_getElem (by simp [hlength]) fun place hplace _ => ?_
  rw [List.length_zipIdx] at hplace
  simp [h place hplace]

/-- The children of a combinator that are told again come to what is told of their results. -/
theorem reckon_again {children : List Prospect} {results : List ConditionResult}
    (h : reckon join almanac children = some (verdict, results))
    (hreplays : ∀ child ∈ children, Replays almanac again told child) :
    reckon join almanac (results.map again) = some (verdict, results.map told) := by
  rcases Nat.lt_or_ge 1 children.length with hseveral | hfew
  · have hreaches := forall₂_reckon h
    obtain ⟨placed, hplaced, rfl⟩ := exists_placed hseveral h
    have hperm := batchesBy_perm (fun entry : Prospect × Nat => entry.1.1.effectivePriority almanac)
      children.zipIdx
    have hplaces := places_perm hperm (forall₂_reaches hplaced)
    have hlength : ((inOrder children.length placed).map again).length = children.length := by
      rw [List.length_map, length_inOrder hplaces]
    -- Whoever is told of at a place stands there.
    let child (place : Nat) : Prospect :=
      (((inOrder children.length placed).map again)[place]?).getD (.never none, none)
    have hzip : ((inOrder children.length placed).map again).zipIdx =
        children.zipIdx.map fun entry => (child entry.2, entry.2) := by
      refine zipIdx_eq_map hlength child fun place hplace => ?_
      simp only [child, List.getElem?_eq_getElem hplace, Option.getD_some]
    have hlevels : ∀ entry ∈ children.zipIdx, (child entry.2).1.effectivePriority almanac =
        entry.1.1.effectivePriority almanac := by
      rintro ⟨found, place⟩ hentry
      have hfound := List.mem_zipIdx_iff_getElem?.1 hentry
      dsimp only at hfound
      obtain ⟨hplace, rfl⟩ := List.getElem?_eq_some_iff.1 hfound
      have hresult : place < (inOrder children.length placed).length := hreaches.length_eq ▸ hplace
      have hreached := hreaches.get hplace hresult
      simp only [child, List.getElem?_map, List.getElem?_eq_getElem hresult, Option.map_some,
        Option.getD_some]
      exact (hreplays _ (List.getElem_mem hplace)).priority _ hreached
    have hbatches : ∀ batch ∈ batchesBy (fun entry : Prospect × Nat =>
        entry.1.1.effectivePriority almanac) children.zipIdx, ∀ entry ∈ batch,
          Replays almanac again told entry.1 := by
      intro batch hbatch entry hentry
      exact hreplays _ (mem_of_mem_batch hbatch hentry)
    have hstands : ∀ entry ∈ placed, child entry.2 = again entry.1 := by
      intro entry hentry
      simp only [child, List.getElem?_map, getElem?_inOrder hplaces hentry, Option.map_some,
        Option.getD_some]
    have hagain := reckonBatches_again hplaced hbatches hstands
    rw [reckon_of_length join almanac (hseveral.trans_eq hlength.symm), hlength, hzip, batchesBy_map,
      batchesBy_congr hlevels, hagain, Option.map_some, inOrder_map]
  · match children, hfew with
    | [], _ =>
        obtain ⟨rfl, rfl⟩ := Prod.mk.inj (Option.some.inj h)
        rfl
    | [child], _ =>
        obtain ⟨result, hresult, heq⟩ := Option.map_eq_some_iff.1 h
        obtain ⟨rfl, rfl⟩ := Prod.mk.inj heq
        obtain ⟨hagain, hholds⟩ :=
          (hreplays child List.mem_cons_self).evaluated result hresult
        rw [List.map_singleton, reckon, hagain, Option.map_some, hholds, List.map_singleton]

end Schedule

namespace Condition

open ConditionResult

variable {outlook : Outlook} {follow : Condition → Option ConditionResult} {condition : Condition}
  {children : List Condition} {result : ConditionResult}

/-! ### Conditions told again -/

/-- Whatever a condition comes to retells it. -/
theorem retells_of_reckonWith (hfree : condition.ReferenceFree)
    (h : condition.reckonWith outlook follow = some result) : Retells condition result := by
  have heach : ∀ {join : Join} {children : List Condition} {found : Bool × List ConditionResult},
      (∀ child ∈ children, child.ReferenceFree) →
      (∀ child ∈ children, ∀ {result : ConditionResult}, child.ReferenceFree →
        child.reckonWith outlook follow = some result → Retells child result) →
      Schedule.reckon join outlook.almanac (reckonEach outlook follow children) = some found →
        ∀ result ∈ found.2, ∃ child ∈ children, Retells child result := by
    intro join children found hfrees hchildren hfound result hresult
    rw [reckonEach_eq_map] at hfound
    have hreaches := Schedule.forall₂_reckon hfound
    rw [List.forall₂_map_left_iff] at hreaches
    obtain ⟨child, hchild, hreached | rfl⟩ := Schedule.exists_of_mem_right hreaches hresult
    · exact ⟨child, hchild, hchildren child hchild (hfrees child hchild) hreached⟩
    · exact ⟨child, hchild, retells_skip child (hfrees child hchild)⟩
  induction condition generalizing result with
  | all children name priority ih =>
      rw [reckonWith, Option.map_eq_some_iff] at h
      obtain ⟨found, hfound, rfl⟩ := h
      exact .all name priority _
        (heach (fun child hchild => hfree.of_all hchild) (fun child hchild => ih child hchild) hfound)
  | any children name priority ih =>
      rw [reckonWith, Option.map_eq_some_iff] at h
      obtain ⟨found, hfound, rfl⟩ := h
      exact .any name priority _
        (heach (fun child hchild => hfree.of_any hchild) (fun child hchild => ih child hchild) hfound)
  | not child name priority ih =>
      rw [reckonWith, Option.map_eq_some_iff] at h
      obtain ⟨found, hfound, rfl⟩ := h
      exact .not name priority _ (ih hfree.of_not hfound)
  | never name =>
      obtain rfl := Option.some.inj h
      exact .never name _
  | reference target name priority => exact absurd (mem_parts_self _) (hfree target name priority)
  | comparison leaf name priority =>
      rw [reckonWith, Option.map_eq_some_iff] at h
      obtain ⟨found, hfound, rfl⟩ := h
      exact .comparison leaf name priority _ _ _

/-- What a condition comes to is scheduled as the condition is. -/
theorem effectivePriority_condition (hfree : condition.ReferenceFree)
    (h : condition.reckonWith outlook follow = some result) :
    result.condition.effectivePriority outlook.almanac =
      condition.effectivePriority outlook.almanac := by
  cases condition with
  | reference target name priority => exact absurd (mem_parts_self _) (hfree target name priority)
  | comparison leaf name priority =>
      rw [reckonWith, Option.map_eq_some_iff] at h
      obtain ⟨found, -, rfl⟩ := h
      cases priority with
      | some priority => rfl
      | none =>
          cases hfact : outlook.almanac.factPriority? (.str leaf.fact) <;>
            simp [effectivePriority, priority?, ownPriority, ConditionResult.condition,
              Leaf.tidy, hfact]
  | never name =>
      obtain rfl := Option.some.inj h
      rfl
  | _ =>
      rw [reckonWith, Option.map_eq_some_iff] at h
      obtain ⟨found, -, rfl⟩ := h
      rfl

/-- The result as a child, with what it comes to. -/
def toldAgain (outlook : Outlook) (follow : Condition → Option ConditionResult)
    (result : ConditionResult) : Prospect :=
  (result.condition, result.condition.reckonWith outlook follow)

theorem replays_child (hfree : condition.ReferenceFree)
    (h : ∀ result, condition.reckonWith outlook follow = some result →
      result.condition.reckonWith outlook follow = some result.tidy) :
    Schedule.Replays outlook.almanac (toldAgain outlook follow) ConditionResult.tidy
      (condition, condition.reckonWith outlook follow) where
  priority result hreached := by
    rcases hreached with hreached | rfl
    · exact effectivePriority_condition hfree hreached
    · exact effectivePriority_condition_skip outlook.almanac condition
  evaluated result hresult :=
    ⟨h result hresult, by rw [ConditionResult.holds, head_tidy, ConditionResult.holds]⟩
  skipped := skip_condition_skip condition

/-- A condition that comes to a result comes to it again, as it is told, when it is evaluated as the
result tells of it. -/
theorem reckonWith_condition (htidy : ∀ leaf : Leaf, outlook.compare leaf.tidy = outlook.compare leaf)
    (hfree : condition.ReferenceFree) (h : condition.reckonWith outlook follow = some result) :
    result.condition.reckonWith outlook follow = some result.tidy := by
  have heach : ∀ {join : Join} {children : List Condition} {found : Bool × List ConditionResult},
      (∀ child ∈ children, child.ReferenceFree) →
      (∀ child ∈ children, ∀ {result : ConditionResult}, child.ReferenceFree →
        child.reckonWith outlook follow = some result →
          result.condition.reckonWith outlook follow = some result.tidy) →
      Schedule.reckon join outlook.almanac (reckonEach outlook follow children) = some found →
        Schedule.reckon join outlook.almanac (reckonEach outlook follow (conditions found.2)) =
          some (found.1, tidyEach found.2) := by
    intro join children found hfrees hchildren hfound
    rw [reckonEach_eq_map] at hfound
    have hagain := Schedule.reckon_again hfound fun child hchild => by
      obtain ⟨condition, hcondition, rfl⟩ := List.mem_map.1 hchild
      exact replays_child (hfrees condition hcondition)
        fun result => hchildren condition hcondition (hfrees condition hcondition)
    rw [reckonEach_eq_map, conditions_eq_map, tidyEach_eq_map, ← hagain, List.map_map]
    rfl
  induction condition generalizing result with
  | all children name priority ih =>
      rw [reckonWith, Option.map_eq_some_iff] at h
      obtain ⟨found, hfound, rfl⟩ := h
      rw [ConditionResult.condition, reckonWith,
        heach (fun child hchild => hfree.of_all hchild) (fun child hchild => ih child hchild) hfound]
      rfl
  | any children name priority ih =>
      rw [reckonWith, Option.map_eq_some_iff] at h
      obtain ⟨found, hfound, rfl⟩ := h
      rw [ConditionResult.condition, reckonWith,
        heach (fun child hchild => hfree.of_any hchild) (fun child hchild => ih child hchild) hfound]
      rfl
  | not child name priority ih =>
      rw [reckonWith, Option.map_eq_some_iff] at h
      obtain ⟨found, hfound, rfl⟩ := h
      rw [ConditionResult.condition, reckonWith, ih hfree.of_not hfound, Option.map_some,
        ConditionResult.holds, head_tidy]
      rfl
  | never name =>
      obtain rfl := Option.some.inj h
      rfl
  | reference target name priority => exact absurd (mem_parts_self _) (hfree target name priority)
  | comparison leaf name priority =>
      rw [reckonWith, Option.map_eq_some_iff] at h
      obtain ⟨found, hfound, rfl⟩ := h
      rw [ConditionResult.condition, reckonWith, htidy, hfound]
      cases priority with
      | some priority => rfl
      | none =>
          cases hfact : outlook.almanac.factPriority? (.str leaf.fact) <;>
            simp [priority?, ownPriority, ConditionResult.tidy, Leaf.tidy, hfact]

end Condition

/-! ### Requests as they are told -/

/-- The request without parameters and without a path that count as none. -/
def FactRequest.normal (request : FactRequest) : FactRequest where
  fact := request.fact
  params := Fact.normalParams request.params
  path := if request.path.truthy then request.path else .null

theorem Almanac.applyPath_normal (almanac : Almanac) (value : Value) (request : FactRequest) :
    almanac.applyPath value request.normal.path = almanac.applyPath value request.path := by
  by_cases h : request.path.truthy = true
  · have hpath : request.normal.path = request.path := if_pos h
    rw [hpath]
  · have hpath : request.normal.path = .null := if_neg h
    rw [hpath]
    exact (if_neg Bool.false_ne_true).trans (if_neg h).symm

/-- What counts as none is none. -/
theorem factValue_normal {σ : Type} [HasSession σ] (depth : Nat) (request : FactRequest) :
    factValue depth request.normal = (factValue depth request : Eval σ Value) := by
  cases depth with
  | zero => rfl
  | succ depth =>
      rw [factValue, factValue, FactRequest.answer, FactRequest.answer]
      simp only [Almanac.applyPath_normal]
      simp only [FactRequest.normal, Fact.normalParams_normalParams]

/-- An empty path is none. -/
theorem Value.ofText?_filter (path : Option String) :
    (if (ofText? (path.filter fun path => !path.isEmpty)).truthy then
      ofText? (path.filter fun path => !path.isEmpty) else .null) =
        if (ofText? path).truthy then ofText? path else .null := by
  cases path with
  | none => rfl
  | some path => by_cases h : path = "" <;> simp [Option.filter, ofText?, truthy, h]

theorem Leaf.normal_request_tidy (leaf : Leaf) : leaf.tidy.request.normal = leaf.request.normal := by
  obtain ⟨fact, operator, value, params, path⟩ := leaf
  have hpath := Value.ofText?_filter path
  cases params with
  | none => exact congrArg (FactRequest.mk (.str fact) (Fact.normalParams .null)) hpath
  | some members =>
      cases members with
      | nil => exact congrArg (FactRequest.mk (.str fact) (Fact.normalParams .null)) hpath
      | cons member members =>
          exact congrArg
            (FactRequest.mk (.str fact) (Fact.normalParams (.object (member :: members)))) hpath

/-! ### In a world -/

namespace Condition

variable {σ : Type} [HasSession σ] {inv : List Task → σ → Prop} {almanac : Almanac}
  {registry : Registry} {value : FactRequest → Value} {rank : Nat} {condition : Condition}
  {result : ConditionResult} {named : σ → Table Value Condition} {world : σ}

/-- The requests of the comparisons in a condition. -/
def Asks (condition : Condition) (request : FactRequest) : Prop :=
  ∃ leaf name priority, .comparison leaf name priority ∈ condition.parts ∧
    (request = leaf.request ∨ FactRequest.ofValue? leaf.value = some request)

/-- Whatever goes on besides, priorities stay as they are, each operator is the one that the registry
knows, and each request of the condition has its value, which depends on the fact, the parameters and
the path only. -/
structure Fixed (inv : List Task → σ → Prop) (almanac : Almanac) (registry : Registry)
    (value : FactRequest → Value) (rank : Nat) (condition : Condition) : Prop where
  steady : Steady inv almanac
  operators : ∀ name, Comes inv rank (Session.operator name) (· = (registry.get name).1)
  values : ∀ request, condition.Asks request →
    Comes inv rank (factValue depthLimit request) (· = .ok (value request.normal))

/-- An evaluation may begin. -/
def Ready (inv : List Task → σ → Prop) (world : σ) : Prop :=
  ∀ task : Task, task.job = none → inv [task] world

/-- What conditions are reckoned from where requests have fixed values. -/
def fixedOutlook (almanac : Almanac) (registry : Registry) (value : FactRequest → Value) :
    Outlook where
  named := []
  almanac := almanac
  compare leaf := compareOf (registry.get leaf.operator).1
    (.ok (((FactRequest.ofValue? leaf.value).map fun request => value request.normal).getD leaf.value))
    (.ok (value leaf.request.normal))

theorem compare_tidy (leaf : Leaf) : (fixedOutlook almanac registry value).compare leaf.tidy =
    (fixedOutlook almanac registry value).compare leaf := by
  simp only [fixedOutlook, Leaf.normal_request_tidy]
  rfl

/-- Comparisons come out as they are reckoned. -/
abbrev Compares (inv : List Task → σ → Prop) (rank : Nat) (outlook : Outlook) (leaf : Leaf) : Prop :=
  Comes inv rank (leaf.compare depthLimit : Eval σ (Bool × Sides))
    (·.toOption = outlook.compare leaf)

theorem Fixed.compares (h : Fixed inv almanac registry value rank condition)
    (hfree : condition.ReferenceFree) :
    Every (Compares inv (rank + 1) (fixedOutlook almanac registry value)) condition := by
  refine .of_parts hfree fun leaf name priority hleaf => ?_
  refine comes_compareOf h.steady.opens ((h.operators leaf.operator).raise (Nat.le_succ rank)) ?_
    (h.values leaf.request ⟨leaf, name, priority, hleaf, .inl rfl⟩)
  unfold valueOf
  cases hrequest : FactRequest.ofValue? leaf.value with
  | some request => exact h.values request ⟨leaf, name, priority, hleaf, .inr hrequest⟩
  | none => exact .outcome rfl

/-- A comparison comes out the same whether it is tidy or not. -/
theorem Compares.tidy {leaf : Leaf}
    (h : Compares inv rank (fixedOutlook almanac registry value) leaf) :
    Compares inv rank (fixedOutlook almanac registry value) leaf.tidy := by
  have hrequest : factValue depthLimit leaf.tidy.request =
      (factValue depthLimit leaf.request : Eval σ Value) := by
    rw [← factValue_normal, Leaf.normal_request_tidy, factValue_normal]
  have hstep : leaf.tidy.compare depthLimit = (leaf.compare depthLimit : Eval σ (Bool × Sides)) := by
    rw [Leaf.compare, hrequest]
    rfl
  unfold Compares
  rw [hstep, compare_tidy]
  exact h

/-- A condition without references comes to what is reckoned for it. -/
theorem comes_of_every {outlook : Outlook} (hsteady : Steady inv outlook.almanac)
    (h : Every (Compares inv rank outlook) condition) :
    Comes inv (rank + sizeOf condition) (condition.evaluate named)
      (·.toOption = condition.reckonWith outlook fun _ => none) := by
  refine comes_evaluateWith hsteady condition (fun leaf name priority hpart => ?_)
    fun target name priority hpart => ?_
  · cases h.of_mem_parts hpart with
    | comparison _ _ hleaf => exact hleaf
  · cases h.of_mem_parts hpart

theorem construct_toValue {checked : Option Registry} (hplain : result.Plain)
    (h : Buildable checked result.condition) :
    (construct checked result.toValue).1 = .ok result.condition := by
  obtain ⟨after, hgives⟩ := h.gives_toValue hplain "$"
  have hdefinition : ofDefinition result.toValue = build result.toValue "$" := by
    cases result <;> rfl
  rw [construct, hdefinition, hgives]

/-- What a condition without references that was built comes to is told as a definition that is
accepted wherever the condition was, and what is built from it comes to a result that is told the same,
whether it is evaluated on its own or right after the condition, as long as requests have fixed
values. -/
theorem replay_of_yields {registry after : Registry} {definition : Value}
    (hbuilt : construct (some registry) definition = (.ok condition, some after))
    (hfree : condition.ReferenceFree) (hfixed : Fixed inv almanac after value rank condition)
    (hready : Ready inv world) (hyields : Yields world (condition.evaluate named) (.ok result)) :
    ∃ rebuilt again, again.toValue = result.toValue ∧
      ∀ checked, Consulted (some after) checked →
        (construct checked result.toValue).1 = .ok rebuilt ∧
        (∀ other, Ready inv other → ∀ outcome,
          Yields other (rebuilt.evaluate named) outcome ↔ outcome = .ok again) ∧
        ∀ outcome, Yields world (do
          let first ← condition.evaluate named
          let second ← Eval.outcome (construct checked first.toValue).1
          second.evaluate named) outcome ↔ outcome = .ok again := by
  have hevery := hfixed.compares hfree
  have hcomes : Comes inv (rank + 1 + sizeOf condition) (condition.evaluate named) _ :=
    comes_of_every hfixed.steady hevery
  have hreckoned := (hcomes.post_of_yields (hready _ rfl) hyields).symm
  obtain ⟨data, hgives⟩ := exists_build_of_ofDefinition hbuilt
  have hretells := retells_of_reckonWith hfree hreckoned
  have hagain := reckonWith_condition compare_tidy hfree hreckoned
  have hrebuilt : Comes inv (rank + 1 + sizeOf result.condition) (result.condition.evaluate named)
      (· = .ok result.tidy) := by
    refine (comes_of_every hfixed.steady
      (hretells.every _ (fun _ => Compares.tidy) hevery)).imp fun outcome houtcome => ?_
    rw [hagain] at houtcome
    cases outcome with
    | ok found => exact congrArg Except.ok (Option.some.inj houtcome)
    | error e => cases houtcome
  refine ⟨result.condition, result.tidy, result.toValue_tidy, fun checked hchecked => ?_⟩
  have hconstruct : (construct checked result.toValue).1 = .ok result.condition :=
    construct_toValue hretells.plain
      (hretells.buildable hfree (hgives.buildable.2.consulted hchecked))
  have htwice : Comes inv (rank + 1 + sizeOf condition + sizeOf result.condition) (do
      let first ← condition.evaluate named
      let second ← Eval.outcome (construct checked first.toValue).1
      second.evaluate named) (· = .ok result.tidy) := by
    refine (hcomes.raise (Nat.le_add_right _ _)).bind (fun first hfirst => ?_) fun e he => ?_
    · rw [hreckoned] at hfirst
      obtain rfl := Option.some.inj hfirst
      rw [hconstruct]
      exact Comes.bind_ok (.outcome rfl) (hrebuilt.raise (by omega))
    · rw [hreckoned] at he
      cases he
  exact ⟨hconstruct, fun other hother outcome => hrebuilt.yields_iff (hother _ rfl),
    fun outcome => htwice.yields_iff (hready _ rfl)⟩

/-! ### Facts that are computed -/

section Reckoned

variable {reckoning : Reckoning} {start : Session} {rest : σ → Prop}

theorem answer_normal (reckoning : Reckoning) (almanac : Almanac) (request : FactRequest) :
    reckoning.answer almanac request.normal = reckoning.answer almanac request := by
  unfold Reckoning.answer
  simp only [Almanac.applyPath_normal]
  simp only [FactRequest.normal, Fact.normalParams_normalParams]

/-- The value of a request, if it has one. -/
def reckonedValue (reckoning : Reckoning) (almanac : Almanac) (request : FactRequest) : Value :=
  (reckoning.answer almanac request).toOption.getD .null

/-- Where computations give what is reckoned, requests that are answered have fixed values. -/
theorem fixed_of_sound (hsound : reckoning.Sound start.almanac) (hrest : Reckoning.SessionFree rest)
    (hasks : ∀ request, condition.Asks request → reckoning.Permits start.almanac request ∧
      reckoning.Within start.almanac depthLimit request ∧
        ∃ value, reckoning.answer start.almanac request = .ok value) :
    Fixed (reckoning.shared start rest) start.almanac start.registry
      (reckonedValue reckoning start.almanac) depthLimit condition where
  steady := Reckoning.steady_shared hrest
  operators := Reckoning.comes_operator hrest
  values request hrequest := by
    obtain ⟨hpermits, hwithin, value, hvalue⟩ := hasks request hrequest
    refine (Reckoning.comes_factValue hsound hrest hpermits hwithin (Nat.le_refl depthLimit)).imp ?_
    rintro _ rfl
    rw [reckonedValue, answer_normal, hvalue]
    rfl

theorem ready_shared (hcache : start.almanac.cache = Cache.empty)
    (hregistry : Remembers Outdated start.registry) (hsession : HasSession.session world = start)
    (hworld : rest world) : Ready (reckoning.shared start rest) world :=
  fun _ htask => ⟨hsession.symm ▸
    Reckoning.agrees_start hcache hregistry (List.forall_mem_singleton.2 htask), hworld⟩

end Reckoned

/-- A comparison with a computed fact, whose parameters are empty, and a child that is skipped. -/
def spelledOut : Condition :=
  .any [.comparison ⟨"text", "equal", .str "\x7b\x7d", some [], none⟩ (some "a") none,
    .not (.never none) none ((Priority.ofInt? 2).getD Priority.first)] none Priority.first

/-- A session with facts that are computed. -/
def spellingSession : Session := ⟨Reckoning.spelling, withDefaults, none, []⟩

theorem fixed_spelledOut : Fixed (Reckoning.spelled.shared spellingSession fun _ : Session => True)
    Reckoning.spelling withDefaults (reckonedValue Reckoning.spelled Reckoning.spelling) depthLimit
      spelledOut := by
  refine fixed_of_sound Reckoning.sound_spelled (fun _ _ h => h) ?_
  rintro request ⟨leaf, name, priority, hleaf, hrequest⟩
  obtain ⟨rfl, -, -⟩ : leaf = ⟨"text", "equal", .str "\x7b\x7d", some [], none⟩ ∧
      name = some "a" ∧ priority = none := by
    simpa [spelledOut, parts, partsEach] using hleaf
  obtain rfl : request = ⟨.str "text", .object [], .null⟩ := by
    rcases hrequest with rfl | hrequest
    · rfl
    · cases hrequest
  refine ⟨fun fact program _ => ⟨rfl, rfl⟩, ⟨by decide, fun fact program _ => ?_⟩,
    _, Reckoning.answer_of_computes Reckoning.computes_text⟩
  simp only [Reckoning.spelled, depthLimit]
  split <;> omega

theorem construct_spelledOut : construct (some withDefaults) spelledOut.toDefinition =
    (.ok spelledOut, some withDefaults) := by
  have hknows : withDefaults.Knows "equal" := by
    show (withDefaults.has "equal").1 = true
    decide +kernel
  have hsound : SoundLeaf (some withDefaults)
      ⟨"text", "equal", .str "\x7b\x7d", some [], none⟩ := by
    exact {
      fact_ne := by decide
      operator_ne := by decide
      passes := fun registry hregistry => Option.some.inj hregistry ▸ hknows
      value := fun request hrequest => by cases hrequest
      path := fun text htext => by cases htext }
  exact Gives.any_toDefinition (Gives.buildEach_cons.2 ⟨_, _, some withDefaults, rfl,
    Gives.comparison_toDefinition hsound, Gives.buildEach_cons.2 ⟨_, _, some withDefaults, rfl,
      Gives.not_toDefinition Gives.never_toDefinition, Gives.buildEach_nil.2 ⟨rfl, rfl⟩⟩⟩)

/-- What the comparison comes to and what was skipped beside it are told again. -/
theorem replay_spelledOut :
    construct (some withDefaults) spelledOut.toDefinition = (.ok spelledOut, some withDefaults) ∧
      ∃ result rebuilt again,
        Yields spellingSession (spelledOut.evaluate fun _ => []) (.ok result) ∧
          (construct (some withDefaults) result.toValue).1 = .ok rebuilt ∧
            Yields spellingSession (rebuilt.evaluate fun _ => []) (.ok again) ∧
              again.toValue = result.toValue := by
  have hfree : spelledOut.ReferenceFree := by
    intro target name priority hmem
    simp [spelledOut, parts, partsEach] at hmem
  have hready : Ready (Reckoning.spelled.shared spellingSession fun _ : Session => True)
      spellingSession := ready_shared rfl (remembers_withDefaults _) rfl trivial
  have hcomes : Comes _ _ (spelledOut.evaluate fun _ => []) _ :=
    comes_of_every fixed_spelledOut.steady (fixed_spelledOut.compares hfree)
  obtain ⟨outcome, hyields, houtcome⟩ := hcomes.exists_yields (hready _ rfl)
  have hsome : (spelledOut.reckonWith (fixedOutlook Reckoning.spelling withDefaults
      (reckonedValue Reckoning.spelled Reckoning.spelling)) fun _ => none).isSome = true := by
    decide +kernel
  cases outcome with
  | error e =>
      rw [← houtcome] at hsome
      cases hsome
  | ok result =>
      obtain ⟨rebuilt, again, hsame, hreplay⟩ := replay_of_yields construct_spelledOut hfree
        fixed_spelledOut hready hyields
      obtain ⟨hconstruct, hagain, _⟩ := hreplay (some withDefaults) (.refl _)
      exact ⟨construct_spelledOut, result, rebuilt, again, hyields, hconstruct,
        (hagain spellingSession hready _).2 rfl, hsame⟩

end Condition

end Rulebook
