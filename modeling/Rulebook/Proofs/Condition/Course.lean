import Rulebook.Proofs.Condition.Audit
import Rulebook.Proofs.Condition.Combinator

/-!
The course of a combinator.

The batches of a combinator are evaluated one after the other until one of them decides the verdict,
and the children of the others are skipped (`Course`).  So a child is skipped if and only if a child
of a lower effective priority decides (`Course.isSkipped_iff`), and the batches that are evaluated
are those of the children that are not skipped (`Course.batches_eq`).
-/

namespace Rulebook.Schedule

open Session Eval Strand

/-- A child, with the result that was found for it. -/
abbrev Told := Condition × ConditionResult

/-- The children at their places. -/
def spotsOf (told : List (Told × Nat)) : List (Condition × Nat) :=
  told.map fun entry => (entry.1.1, entry.2)

/-- The results at their places. -/
def placedOf (told : List (Told × Nat)) : List Placed :=
  told.map fun entry => (entry.1.2, entry.2)

/-- Batches that are evaluated until one of them decides; those are told of a second time. -/
inductive Course (join : Join) : List (List (Told × Nat)) → List (List (Told × Nat)) → Prop where
  | nil : Course join [] []
  | decided {told : List (Told × Nat)} {rest : List (List (Told × Nat))}
      (evaluated : ∀ entry ∈ told, entry.1.2.isSkipped = false)
      (decides : decides join (placedOf told) = true)
      (skipped : ∀ entry ∈ rest.flatten, entry.1.2 = entry.1.1.skip) :
      Course join (told :: rest) [told]
  | goesOn {told : List (Told × Nat)} {rest kept : List (List (Told × Nat))}
      (evaluated : ∀ entry ∈ told, entry.1.2.isSkipped = false)
      (undecided : decides join (placedOf told) = false) (course : Course join rest kept) :
      Course join (told :: rest) (told :: kept)

variable {join : Join} {batches kept : List (List (Told × Nat))}

/-! ### What is skipped -/

theorem isSkipped_skip (condition : Condition) : condition.skip.isSkipped = true := by
  rw [ConditionResult.isSkipped, Condition.verdict_skip]
  rfl

theorem decides_placedOf {told : List (Told × Nat)}
    (h : ∀ entry ∈ told, entry.1.2.isSkipped = false) :
    decides join (placedOf told) = true ↔
      ∃ entry ∈ told, entry.1.2.head.verdict = some join.deciding := by
  have hplaced : ∀ placed ∈ placedOf told, placed.1.isSkipped = false := List.forall_mem_map.2 h
  rw [decides_iff hplaced]
  simp only [placedOf, List.mem_map, exists_exists_and_eq_and]

/-- A child is skipped if and only if one of a lower priority decides. -/
theorem Course.isSkipped_iff (h : Course join batches kept) (level : Told × Nat → Nat)
    (hsame : ∀ batch ∈ batches, ∀ entry ∈ batch, ∀ other ∈ batch, level entry = level other)
    (hascending : batches.Pairwise fun first second =>
      ∀ entry ∈ first, ∀ other ∈ second, level entry < level other) :
    ∀ entry ∈ batches.flatten, entry.1.2.isSkipped = true ↔
      ∃ other ∈ batches.flatten, level other < level entry ∧
        other.1.2.head.verdict = some join.deciding := by
  have hsplit : ∀ {told : List (Told × Nat)} {rest : List (List (Told × Nat))},
      ((told :: rest).Pairwise fun first second =>
        ∀ entry ∈ first, ∀ other ∈ second, level entry < level other) →
      ∀ entry ∈ told, ∀ other ∈ rest.flatten, level entry < level other := by
    intro told rest hpairwise entry hentry other hother
    obtain ⟨batch, hbatch, hmem⟩ := List.mem_flatten.1 hother
    exact (List.pairwise_cons.1 hpairwise).1 batch hbatch entry hentry other hmem
  induction h with
  | nil => exact List.forall_mem_nil _
  | @decided told rest hevaluated hdecides hskipped =>
      have hlt := hsplit hascending
      obtain ⟨first, hfirst, hverdict⟩ := (decides_placedOf hevaluated).1 hdecides
      intro entry hentry
      rw [List.flatten_cons] at hentry ⊢
      rcases List.mem_append.1 hentry with hmine | hrest
      · rw [hevaluated entry hmine]
        refine ⟨fun hfalse => absurd hfalse Bool.false_ne_true, ?_⟩
        rintro ⟨other, hother, hless, hdeciding⟩
        rcases List.mem_append.1 hother with hbeside | hlater
        · exact absurd (hsame told List.mem_cons_self other hbeside entry hmine) hless.ne
        · exact absurd (hlt entry hmine other hlater) (Nat.not_lt_of_lt hless)
      · rw [hskipped entry hrest, isSkipped_skip]
        exact ⟨fun _ => ⟨first, List.mem_append_left _ hfirst, hlt first hfirst entry hrest, hverdict⟩,
          fun _ => rfl⟩
  | @goesOn told rest kept hevaluated hundecided _ ih =>
      have hlt := hsplit hascending
      have hnone : ∀ entry ∈ told, entry.1.2.head.verdict ≠ some join.deciding :=
        fun entry hentry hverdict => Bool.eq_false_iff.1 hundecided
          ((decides_placedOf hevaluated).2 ⟨entry, hentry, hverdict⟩)
      have hrest := ih (fun batch hbatch => hsame batch (List.mem_cons_of_mem _ hbatch))
        (List.pairwise_cons.1 hascending).2
      intro entry hentry
      rw [List.flatten_cons] at hentry ⊢
      rcases List.mem_append.1 hentry with hmine | hlater
      · rw [hevaluated entry hmine]
        refine ⟨fun hfalse => absurd hfalse Bool.false_ne_true, ?_⟩
        rintro ⟨other, hother, hless, hdeciding⟩
        rcases List.mem_append.1 hother with hbeside | hafter
        · exact absurd hdeciding (hnone other hbeside)
        · exact absurd (hlt entry hmine other hafter) (Nat.not_lt_of_lt hless)
      · rw [hrest entry hlater]
        constructor
        · rintro ⟨other, hother, hless⟩
          exact ⟨other, List.mem_append_right _ hother, hless⟩
        · rintro ⟨other, hother, hless, hdeciding⟩
          rcases List.mem_append.1 hother with hbeside | hafter
          · exact absurd hdeciding (hnone other hbeside)
          · exact ⟨other, hafter, hless, hdeciding⟩

/-- The first batches are evaluated, and the others are skipped. -/
theorem Course.exists_append (h : Course join batches kept) :
    ∃ later, batches = kept ++ later ∧
      (∀ entry ∈ kept.flatten, entry.1.2.isSkipped = false) ∧
        ∀ entry ∈ later.flatten, entry.1.2.isSkipped = true := by
  induction h with
  | nil => exact ⟨[], rfl, List.forall_mem_nil _, List.forall_mem_nil _⟩
  | decided hevaluated _ hskipped =>
      refine ⟨_, rfl, by simpa using hevaluated, fun entry hentry => ?_⟩
      rw [hskipped entry hentry]
      exact isSkipped_skip _
  | goesOn hevaluated _ _ ih =>
      obtain ⟨later, rfl, hkept, hlater⟩ := ih
      refine ⟨later, rfl, ?_, hlater⟩
      rw [List.flatten_cons]
      exact List.forall_mem_append.2 ⟨hevaluated, hkept⟩

/-! ### Batches of what was told -/

/-- Children with their results, in batches of one effective priority each. -/
def toldIn (almanac : Almanac) (children : List Condition) (results : List ConditionResult) :
    List (List (Told × Nat)) :=
  batchesBy (fun entry => entry.1.1.effectivePriority almanac) (children.zip results).zipIdx

/-- The children that were not skipped, with their results. -/
def remaining (children : List Condition) (results : List ConditionResult) : List Told :=
  (children.zip results).filter fun told => !told.2.isSkipped

variable {almanac : Almanac} {children : List Condition} {results : List ConditionResult}

theorem toldIn_perm (almanac : Almanac) (children : List Condition)
    (results : List ConditionResult) :
    (toldIn almanac children results).flatten.Perm (children.zip results).zipIdx :=
  batchesBy_perm _ _

theorem mem_toldIn {entry : Told × Nat} :
    entry ∈ (toldIn almanac children results).flatten ↔
      children[entry.2]? = some entry.1.1 ∧ results[entry.2]? = some entry.1.2 := by
  rw [(toldIn_perm _ _ _).mem_iff, List.mem_zipIdx_iff_getElem?, List.getElem?_zip_eq_some]

/-- The batches that are evaluated are those of the children that are not skipped. -/
theorem Course.batches_eq (h : Course join (toldIn almanac children results) kept) :
    kept.map (List.map (·.1)) =
      batchesBy (fun told => told.1.effectivePriority almanac) (remaining children results) := by
  obtain ⟨later, hall, hkept, hlater⟩ := h.exists_append
  have hkeep : ∀ batch ∈ kept, ∀ entry ∈ batch, (!entry.1.2.isSkipped) = true :=
    fun batch hbatch entry hentry => by
      rw [hkept entry (List.mem_flatten_of_mem hbatch hentry), Bool.not_false]
  have hdrop : ∀ batch ∈ later, ∀ entry ∈ batch, (!entry.1.2.isSkipped) = false :=
    fun batch hbatch entry hentry => by
      rw [hlater entry (List.mem_flatten_of_mem hbatch hentry), Bool.not_true]
  have hfilter := batchesBy_filter hall hkeep hdrop
  have hremaining : ((children.zip results).zipIdx.map (·.1)).filter (fun told => !told.2.isSkipped) =
      ((children.zip results).zipIdx.filter fun entry => !entry.1.2.isSkipped).map (·.1) :=
    List.filter_map
  rw [List.zipIdx_map_fst] at hremaining
  rw [← hfilter, remaining, hremaining]
  exact (@batchesBy_map Told (fun told => told.1.effectivePriority almanac) (Told × Nat)
    (fun entry => entry.1) _).symm

/-- What is told at the places of the children is told of the children with their results. -/
theorem eq_toldIn {told : List (List (Told × Nat))} (h : told.map spotsOf = spotsIn almanac children) :
    (inOrder children.length (placedOf told.flatten)).length = children.length ∧
      told = toldIn almanac children (inOrder children.length (placedOf told.flatten)) := by
  have hspots : spotsOf told.flatten = (spotsIn almanac children).flatten := by
    rw [← h, spotsOf, List.map_flatten]
    rfl
  have hperm : (spotsOf told.flatten).Perm children.zipIdx := by
    rw [hspots]
    exact batchesBy_perm _ _
  have hplaces : ((placedOf told.flatten).map (·.2)).Perm (List.range children.length) := by
    have hsame : (placedOf told.flatten).map (·.2) = (spotsOf told.flatten).map (·.2) := by
      rw [placedOf, spotsOf, List.map_map, List.map_map]
      rfl
    rw [hsame]
    exact places_perm_range hperm
  have hlength := length_inOrder hplaces
  refine ⟨hlength, ?_⟩
  generalize hresults : inOrder children.length (placedOf told.flatten) = results at hlength ⊢
  let tell : Condition × Nat → Told × Nat := fun spot =>
    ((spot.1, results[spot.2]?.getD spot.1.skip), spot.2)
  have htold : told = (told.map spotsOf).map (List.map tell) := by
    rw [List.map_map]
    refine (List.map_id' told).symm.trans (List.map_congr_left fun batch hbatch => ?_)
    rw [Function.comp_apply, spotsOf, List.map_map]
    refine (List.map_id' batch).symm.trans (List.map_congr_left fun entry hentry => ?_)
    have hplaced : (entry.1.2, entry.2) ∈ placedOf told.flatten :=
      List.mem_map_of_mem (List.mem_flatten_of_mem hbatch hentry)
    have hfound := getElem?_inOrder hplaces hplaced
    rw [hresults] at hfound
    simp [tell, hfound]
  have hzip : children.zipIdx.map tell = (children.zip results).zipIdx := by
    refine List.ext_getElem (by simp [hlength]) fun place hplace _ => ?_
    have hlt : place < results.length := by simpa [hlength] using hplace
    simp [tell, hlt]
  rw [htold, h, toldIn, ← hzip, batchesBy_map]
  rfl

/-! ### Evaluation -/

/-- Children that were evaluated, told with their results. -/
theorem exists_told {spots : List (Condition × Nat)} {placed : List Placed}
    (h : List.Forall₂ (fun spot placed => placed.2 = spot.2 ∧ placed.1.isSkipped = false)
      spots placed) :
    ∃ told, spotsOf told = spots ∧ placedOf told = placed ∧
      ∀ entry ∈ told, entry.1.2.isSkipped = false := by
  induction h with
  | nil => exact ⟨[], rfl, rfl, List.forall_mem_nil _⟩
  | @cons spot placed _ _ hfirst _ ih =>
      obtain ⟨told, rfl, rfl, hevaluated⟩ := ih
      refine ⟨((spot.1, placed.1), spot.2) :: told, rfl, ?_,
        List.forall_mem_cons.2 ⟨hfirst.2, hevaluated⟩⟩
      rw [placedOf, List.map_cons, ← hfirst.1]
      rfl

/-- Children that are skipped, told with their results. -/
def skippedOf (spots : List (Condition × Nat)) : List (Told × Nat) :=
  spots.map fun spot => ((spot.1, spot.1.skip), spot.2)

variable {σ : Type} {inv : Invariant σ Ending} {rank : ℕ∞}
  {run : Condition → Eval σ ConditionResult}

/-- A result is not skipped. -/
def NotSkipped (result : Except Error ConditionResult) : Prop :=
  ∀ found, result = .ok found → found.isSkipped = false

/-- What comes out of batches follows a course. -/
def Follows (join : Join) (batches : List (List (Condition × Nat)))
    (result : Except Error (Bool × List Placed)) : Prop :=
  ∀ verdict placed, result = .ok (verdict, placed) →
    ∃ told kept, told.map spotsOf = batches ∧ placedOf told.flatten = placed ∧ Course join told kept

theorem ensures_runBatch_told {spots : List (Condition × Nat)}
    (hrun : ∀ spot ∈ spots, Ensures inv rank (run spot.1) NotSkipped) :
    Ensures inv (rank + 1) (runBatch (batchOf run spots)) fun result =>
      ∀ placed, result = .ok placed → ∃ told, spotsOf told = spots ∧ placedOf told = placed ∧
        ∀ entry ∈ told, entry.1.2.isSkipped = false := by
  have hbatch : ∀ entry ∈ batchOf run spots, Ensures inv rank entry.1.run NotSkipped :=
    List.forall_mem_map.2 hrun
  have hensures : Ensures inv (rank + 1) (runBatch (batchOf run spots))
      (BatchRun (fun _ => NotSkipped) (batchOf run spots)) := ensures_runBatch hbatch
  refine hensures.imp fun result hresult => ?_
  rintro placed rfl
  rw [BatchRun, batchOf, List.forall₂_map_left_iff] at hresult
  exact exists_told (hresult.imp fun _ _ hentry => ⟨hentry.1, hentry.2 _ rfl⟩)

variable [HasSession σ]

theorem ensures_runBatches_course (hcount : TallyFree inv) (join : Join)
    {batches : List (List (Condition × Nat))}
    (hrun : ∀ spots ∈ batches, ∀ spot ∈ spots, Ensures inv rank (run spot.1) NotSkipped) :
    Ensures inv (rank + 1) (runBatches join (batches.map (batchOf run))) (Follows join batches) := by
  induction batches with
  | nil =>
      refine Ensures.pure ?_
      rintro verdict placed ⟨⟩
      exact ⟨[], [], rfl, rfl, .nil⟩
  | cons spots rest ih =>
      obtain ⟨hspots, hrest⟩ := List.forall_mem_cons.1 hrun
      refine (ensures_runBatch_told hspots).bind (fun placed hplaced => ?_) fun e _ => ?_
      · obtain ⟨told, rfl, rfl, hevaluated⟩ := hplaced _ rfl
        rw [flatten_batchOf]
        split
        · next hdecides =>
            refine (ensures_skipEach hcount _).bind (fun skipped hskipped => ?_) fun e he => ?_
            · cases hskipped
              refine Ensures.pure ?_
              rintro verdict placed ⟨⟩
              refine ⟨told :: rest.map skippedOf, [told], ?_, ?_, .decided hevaluated hdecides ?_⟩
              · simp [skippedOf, spotsOf, Function.comp_def]
              · simp [skippedOf, placedOf, batchOf, List.map_flatten, Function.comp_def]
              · intro entry hentry
                obtain ⟨batch, hbatch, hmem⟩ := List.mem_flatten.1 hentry
                obtain ⟨spots, _, rfl⟩ := List.mem_map.1 hbatch
                obtain ⟨spot, _, rfl⟩ := List.mem_map.1 hmem
                rfl
            · cases he
        · next hundecided =>
            refine (ih hrest).bind (fun found hfound => ?_) fun e _ => ?_
            · obtain ⟨others, kept, hothers, hplaced, hcourse⟩ := hfound found.1 found.2 rfl
              refine Ensures.pure ?_
              rintro verdict placed ⟨⟩
              refine ⟨told :: others, told :: kept, congrArg (spotsOf told :: ·) hothers, ?_,
                .goesOn hevaluated (Bool.eq_false_iff.2 hundecided) hcourse⟩
              rw [List.flatten_cons, ← hplaced]
              exact List.map_append
            · rintro verdict placed ⟨⟩
      · rintro verdict placed ⟨⟩

/-- What comes out of a combinator: its children follow a course. -/
def Runs (join : Join) (name : Option String) (priority : Priority) (almanac : Almanac)
    (children : List Condition) (result : Except Error ConditionResult) : Prop :=
  ∀ found, result = .ok found → ∃ verdict results kept,
    found = join.result ⟨some verdict, some priority, name, none⟩ results ∧
      results.length = children.length ∧ Course join (toldIn almanac children results) kept

theorem ensures_runGiven (hcount : TallyFree inv) (join : Join) (almanac : Almanac)
    {children : List Condition} (hrun : ∀ child ∈ children, Ensures inv rank (run child) NotSkipped) :
    Ensures inv (rank + 1) (runGiven join ((spotsIn almanac children).map (batchOf run))
        (children.map fun child => ⟨child, run child⟩)) fun result =>
      ∀ verdict results, result = .ok (verdict, results) → results.length = children.length ∧
        ∃ kept, Course join (toldIn almanac children results) kept := by
  match children with
  | [] =>
      refine Ensures.pure ?_
      rintro verdict results ⟨⟩
      exact ⟨rfl, [], .nil⟩
  | [child] =>
      refine ((hrun child List.mem_cons_self).raise le_self_add).bind (fun found hfound => ?_)
        fun e _ => ?_
      · refine Ensures.pure ?_
        rintro verdict results ⟨⟩
        have hevaluated : ∀ entry ∈ [(((child, found), 0) : Told × Nat)],
            entry.1.2.isSkipped = false := List.forall_mem_singleton.2 (hfound found rfl)
        have hbatches : toldIn almanac [child] [found] = [[((child, found), 0)]] :=
          batchesBy_singleton _ _
        refine ⟨rfl, [[((child, found), 0)]], ?_⟩
        rw [hbatches]
        cases hdecides : decides join (placedOf [((child, found), 0)]) with
        | true => exact .decided hevaluated hdecides (List.forall_mem_nil _)
        | false => exact .goesOn hevaluated hdecides .nil
      · rintro verdict results ⟨⟩
  | first :: second :: rest =>
      refine (ensures_runBatches_course hcount join fun spots hspots spot hspot => ?_).bind
        (fun found hfound => ?_) fun e _ => ?_
      · exact hrun spot.1 (mem_of_mem_batch hspots hspot)
      · obtain ⟨told, kept, htold, hplaced, hcourse⟩ := hfound found.1 found.2 rfl
        refine Ensures.pure ?_
        rintro verdict results ⟨⟩
        obtain ⟨hlength, heq⟩ := eq_toldIn htold
        simp only [hplaced, List.length_cons] at hlength heq
        simp only [List.length_cons, List.length_map]
        exact ⟨hlength, kept, heq ▸ hcourse⟩
      · rintro verdict results ⟨⟩

/-- A child is skipped if and only if a sibling of a lower effective priority decides. -/
theorem Course.isSkipped_iff_of_getElem? (h : Course join (toldIn almanac children results) kept)
    {place : Nat} {child : Condition} {result : ConditionResult}
    (hchild : children[place]? = some child) (hresult : results[place]? = some result) :
    result.isSkipped = true ↔ ∃ (sibling : Nat) (other : Condition) (found : ConditionResult),
      children[sibling]? = some other ∧ results[sibling]? = some found ∧
        other.effectivePriority almanac < child.effectivePriority almanac ∧
          found.head.verdict = some join.deciding := by
  have hentry : ((child, result), place) ∈ (toldIn almanac children results).flatten :=
    mem_toldIn.2 ⟨hchild, hresult⟩
  rw [h.isSkipped_iff (fun entry => entry.1.1.effectivePriority almanac)
    (fun batch hbatch entry hmem other hother => batchesBy_level hbatch hmem hother)
    (batchesBy_ascending _ _) _ hentry]
  constructor
  · rintro ⟨⟨⟨other, found⟩, sibling⟩, hmem, hdecides⟩
    obtain ⟨hother, hfound⟩ := mem_toldIn.1 hmem
    exact ⟨sibling, other, found, hother, hfound, hdecides⟩
  · rintro ⟨sibling, other, found, hother, hfound, hdecides⟩
    exact ⟨((other, found), sibling), mem_toldIn.2 ⟨hother, hfound⟩, hdecides⟩

theorem ensures_combineGiven (hcount : TallyFree inv) (join : Join) (name : Option String)
    (priority : Priority) (almanac : Almanac) {children : List Condition}
    (hrun : ∀ child ∈ children, Ensures inv rank (run child) NotSkipped) :
    Ensures inv (rank + 1) (combineGiven join name priority
        ((spotsIn almanac children).map (batchOf run)) (children.map fun child => ⟨child, run child⟩))
      (Runs join name priority almanac children) := by
  refine ensures_count_bind hcount ?_ ((ensures_runGiven hcount join almanac hrun).bind
    (fun found hfound => ?_) fun e _ => ?_)
  · cases join <;> rfl
  · obtain ⟨hlength, kept, hcourse⟩ := hfound found.1 found.2 rfl
    refine Ensures.pure ?_
    rintro result ⟨⟩
    exact ⟨found.1, found.2, kept, rfl, hlength, hcourse⟩
  · rintro result ⟨⟩

/-- However facts are looked up, the children of a combinator follow a course. -/
theorem runs_of_yields {join : Join} {children : List Condition} {name : Option String}
    {priority : Priority} {session : Session} {depth deeper : Nat} {named : Table Value Condition}
    {result : Except Error ConditionResult}
    (h : Yields session ((join.condition children name priority).evaluateIn
      ⟨Leaf.compare depth, fun _ => named⟩ deeper) result) :
    Runs join name priority session.almanac children result := by
  let meaning : Meaning Session := ⟨Leaf.compare depth, fun _ => named⟩
  have hreads := Condition.reads_openReading (σ := Session) named
    session.almanac.allowUndefinedConditions depth
  have hrun : ∀ child ∈ children, Ensures (Condition.permits
      session.almanac.allowUndefinedConditions) ⊤ (child.evaluateIn meaning deeper) NotSkipped := by
    intro child _
    obtain ⟨waits, hensures⟩ := Condition.ensures_evaluateIn hreads deeper child
    refine (hensures.raise le_top).imp ?_
    rintro result hresult found rfl
    exact hresult.1
  rw [evaluateIn_combinator] at h
  obtain ⟨after, hends⟩ := h.exists_endsIn
  have hgiven := endsIn_combineGiven hends
  rw [batches_map] at hgiven
  obtain ⟨turns, hturns, _⟩ := hgiven
  exact (ensures_combineGiven hreads.tallyFree join name priority session.almanac
    hrun).post_of_yields rfl ⟨turns, hturns⟩

end Rulebook.Schedule
