import Rulebook.Condition.Schedule
import Rulebook.Proofs.Priority
import Rulebook.Proofs.Session

/-!
What scheduling the children of a combinator ensures.

Whatever the priorities are, and in whichever batch the verdict is decided, every child has its
result at its own place, and that result is what the child came to or that of skipping it
(`Schedule.ensures_run`).  The joint verdict is read off the results alone (`Joined`), so nothing
but the results tells later proofs how the children were scheduled.
-/

namespace Rulebook

/-! ### Failures -/

/-- The failure in an outcome. -/
def errorOf? {α : Type} : Except Error α → Option Error
  | .ok _ => none
  | .error e => some e

theorem errorOf?_eq_some {α : Type} {outcome : Except Error α} {e : Error} :
    errorOf? outcome = some e ↔ outcome = .error e := by
  cases outcome <;> simp [errorOf?]

/-- Of several outcomes the first failure is that of all of them. -/
theorem Schedule.errorOf?_allOk {α : Type} (outcomes : List (Except Error α)) :
    errorOf? (allOk outcomes) = outcomes.findSome? errorOf? := by
  induction outcomes with
  | nil => rfl
  | cons outcome rest ih =>
      rw [List.findSome?_cons, ← ih]
      cases outcome with
      | error e => rfl
      | ok a =>
          rw [allOk]
          cases allOk rest <;> rfl

/-! ### Priorities -/

/-- The priority of a condition depends on the definitions of facts only. -/
theorem Condition.priority?_congr {almanac other : Almanac} (h : other.facts = almanac.facts)
    (condition : Condition) : condition.priority? other = condition.priority? almanac := by
  unfold priority? Almanac.factPriority?
  rw [h]

theorem Condition.effectivePriority_congr {almanac other : Almanac}
    (h : other.facts = almanac.facts) (condition : Condition) :
    condition.effectivePriority other = condition.effectivePriority almanac := by
  rw [effectivePriority, priority?_congr h, effectivePriority]

namespace Schedule

open Session Eval Strand

theorem batches_congr {σ : Type} {almanac other : Almanac} (h : other.facts = almanac.facts)
    (branches : List (Branch σ)) : batches other branches = batches almanac branches := by
  unfold batches
  simp only [Condition.effectivePriority_congr h]

/-! ### Verdicts -/

/-- Some result decides the verdict, or all of them are against that. -/
def Decided (join : Join) (verdict : Bool) (results : List ConditionResult) : Prop :=
  (verdict = join.deciding ∧ ∃ result ∈ results, result.head.verdict = some join.deciding) ∨
    (verdict = !join.deciding ∧
      ∀ result ∈ results, result.head.verdict = some (!join.deciding))

/-- The joint verdict of results; that of none is true. -/
def Joined (join : Join) (verdict : Bool) (results : List ConditionResult) : Prop :=
  (results = [] ∧ verdict = true) ∨ (results ≠ [] ∧ Decided join verdict results)

theorem Decided.perm {join : Join} {verdict : Bool} {results others : List ConditionResult}
    (h : Decided join verdict results) (hperm : results.Perm others) :
    Decided join verdict others := by
  rcases h with ⟨hverdict, result, hresult, hdecides⟩ | ⟨hverdict, hall⟩
  · exact .inl ⟨hverdict, result, hperm.mem_iff.1 hresult, hdecides⟩
  · exact .inr ⟨hverdict, fun result hresult => hall result (hperm.mem_iff.2 hresult)⟩

/-- A result that was evaluated holds or does not, as its verdict says. -/
theorem verdict_eq_some_holds {result : ConditionResult} (h : result.isSkipped = false) :
    result.head.verdict = some result.holds := by
  unfold ConditionResult.isSkipped at h
  unfold ConditionResult.holds
  cases hverdict : result.head.verdict with
  | none => rw [hverdict] at h; cases h
  | some verdict => cases verdict <;> rfl

theorem decided_singleton (join : Join) {result : ConditionResult}
    (h : result.isSkipped = false) : Decided join result.holds [result] := by
  have hverdict := verdict_eq_some_holds h
  by_cases hholds : result.holds = join.deciding
  · exact .inl ⟨hholds, result, List.mem_singleton_self _, hholds ▸ hverdict⟩
  · refine .inr ⟨Bool.eq_not.2 hholds, fun other hother => ?_⟩
    rw [List.mem_singleton.1 hother, hverdict, Bool.eq_not.2 hholds]

theorem decides_iff {join : Join} {results : List Placed}
    (h : ∀ entry ∈ results, entry.1.isSkipped = false) :
    decides join results = true ↔
      ∃ entry ∈ results, entry.1.head.verdict = some join.deciding := by
  rw [decides, List.any_eq_true]
  refine exists_congr fun entry => and_congr_right fun hentry => ?_
  rw [verdict_eq_some_holds (h entry hentry), beq_iff_eq, Option.some.injEq]

/-! ### A batch -/

theorem exists_of_mem_right {α β : Type} {R : α → β → Prop} {items : List α} {others : List β}
    (h : List.Forall₂ R items others) {other : β} (hother : other ∈ others) :
    ∃ item ∈ items, R item other := by
  induction h with
  | nil => cases hother
  | cons hfirst _ ih =>
      rcases List.mem_cons.1 hother with rfl | hrest
      · exact ⟨_, List.mem_cons_self, hfirst⟩
      · obtain ⟨item, hitem, hrelated⟩ := ih hrest
        exact ⟨item, List.mem_cons_of_mem _ hitem, hrelated⟩

variable {σ : Type}

/-- What the children may come to, each of them. -/
abbrev Outcomes (σ : Type) := Branch σ → Except Error ConditionResult → Prop

variable {post : Outcomes σ}

/-- What came out of a batch: a result for each child, or the failure of one. -/
def BatchRun (post : Outcomes σ) (batch : Batch σ) : Except Error (List Placed) → Prop
  | .ok results => List.Forall₂ (fun entry placed =>
      placed.2 = entry.2 ∧ post entry.1 (.ok placed.1)) batch results
  | .error e => ∃ entry ∈ batch, post entry.1 (.error e)

/-- The results of a batch are all of its outcomes, or the first failure among these. -/
theorem batchRun_allOk {batch : Batch σ} {outcomes : List (Except Error ConditionResult)}
    (h : List.Forall₂ (fun entry => post entry.1) batch outcomes) :
    BatchRun post batch ((allOk outcomes).map fun results => results.zip (batch.map (·.2))) := by
  induction h with
  | nil => exact .nil
  | @cons entry outcome batch outcomes hentry _ ih =>
      cases outcome with
      | error e => exact ⟨entry, List.mem_cons_self, hentry⟩
      | ok result =>
          rw [allOk]
          cases hrest : allOk outcomes with
          | error e =>
              rw [hrest] at ih
              obtain ⟨failed, hfailed, hpost⟩ := ih
              exact ⟨failed, List.mem_cons_of_mem _ hfailed, hpost⟩
          | ok results =>
              rw [hrest] at ih
              exact .cons ⟨rfl, hentry⟩ ih

theorem ensures_runBatch {inv : Invariant σ Ending} {rank : ℕ∞} {batch : Batch σ}
    (h : ∀ entry ∈ batch, Ensures inv rank entry.1.run (post entry.1)) :
    Ensures inv (rank + 1) (runBatch batch) (BatchRun post batch) := by
  apply (Ensures.each h).bind
  · intro outcomes houtcomes
    obtain ⟨found, hfound, hposts⟩ := houtcomes
    cases hfound
    have hrun := batchRun_allOk hposts
    have houtcome : Ensures inv (rank + 1) (Eval.outcome (allOk outcomes)) (· = allOk outcomes) :=
      Ensures.outcome rfl
    apply houtcome.bind
    · intro results hresults
      rw [← hresults] at hrun
      exact Ensures.pure hrun
    · intro e he
      rw [← he] at hrun
      exact hrun
  · intro e he
    obtain ⟨_, hfound, _⟩ := he
    cases hfound

/-! ### All batches -/

/-- A result is what a child came to, or that of skipping the child. -/
def Fits (post : Outcomes σ) (branch : Branch σ) (result : ConditionResult) : Prop :=
  post branch (.ok result) ∨ result = branch.condition.skip

/-- What came out of batches: a verdict with a result for each child, or the failure of one. -/
def BatchesRun (post : Outcomes σ) (join : Join) (entries : Batch σ) :
    Except Error (Bool × List Placed) → Prop
  | .ok (verdict, results) =>
      List.Forall₂ (fun entry placed => placed.2 = entry.2 ∧ Fits post entry.1 placed.1)
        entries results ∧ Decided join verdict (results.map (·.1))
  | .error e => ∃ entry ∈ entries, post entry.1 (.error e)

theorem forall₂_skip (post : Outcomes σ) (batch : Batch σ) :
    List.Forall₂ (fun entry (placed : Placed) => placed.2 = entry.2 ∧ Fits post entry.1 placed.1)
      batch (batch.map fun entry => (entry.1.condition.skip, entry.2)) := by
  rw [List.forall₂_map_right_iff, List.forall₂_same]
  exact fun entry _ => ⟨rfl, .inr rfl⟩

theorem fits_of_batchRun {batch : Batch σ} {results : List Placed}
    (h : BatchRun post batch (.ok results)) :
    List.Forall₂ (fun entry placed => placed.2 = entry.2 ∧ Fits post entry.1 placed.1)
      batch results :=
  List.Forall₂.imp (fun _ _ hentry => ⟨hentry.1, .inl hentry.2⟩) h

/-- The results of a batch were all evaluated. -/
theorem isSkipped_of_batchRun (heval : ∀ branch result, post branch (.ok result) →
      result.isSkipped = false) {batch : Batch σ} {results : List Placed}
    (h : BatchRun post batch (.ok results)) : ∀ placed ∈ results, placed.1.isSkipped = false := by
  intro placed hplaced
  obtain ⟨entry, _, _, hpost⟩ := exists_of_mem_right h hplaced
  exact heval entry.1 placed.1 hpost

/-- A batch that decides the verdict, the children after it being skipped. -/
theorem batchesRun_skip {join : Join} {batch rest : Batch σ} {results : List Placed}
    (heval : ∀ branch result, post branch (.ok result) → result.isSkipped = false)
    (h : BatchRun post batch (.ok results)) (hdecides : decides join results = true) :
    BatchesRun post join (batch ++ rest) (.ok (join.deciding,
      results ++ rest.map fun entry => (entry.1.condition.skip, entry.2))) := by
  obtain ⟨placed, hplaced, hverdict⟩ := (decides_iff (isSkipped_of_batchRun heval h)).1 hdecides
  constructor
  · exact List.rel_append (fits_of_batchRun h) (forall₂_skip post rest)
  · exact .inl ⟨rfl, placed.1, List.mem_map_of_mem (List.mem_append_left _ hplaced), hverdict⟩

/-- A batch that leaves the verdict open, with what comes out of the batches after it. -/
theorem batchesRun_append {join : Join} {batch rest : Batch σ} {results others : List Placed}
    {verdict : Bool} (heval : ∀ branch result, post branch (.ok result) → result.isSkipped = false)
    (h : BatchRun post batch (.ok results)) (hdecides : decides join results = false)
    (hrest : BatchesRun post join rest (.ok (verdict, others))) :
    BatchesRun post join (batch ++ rest) (.ok (verdict, results ++ others)) := by
  refine ⟨List.rel_append (fits_of_batchRun h) hrest.1, ?_⟩
  rw [List.map_append]
  have hopen : ∀ result ∈ results.map (·.1), result.head.verdict = some (!join.deciding) := by
    intro result hresult
    obtain ⟨placed, hplaced, rfl⟩ := List.mem_map.1 hresult
    have hskipped := isSkipped_of_batchRun heval h
    have hnot : ¬ placed.1.head.verdict = some join.deciding := fun hverdict =>
      Bool.eq_false_iff.1 hdecides ((decides_iff hskipped).2 ⟨placed, hplaced, hverdict⟩)
    rw [verdict_eq_some_holds (hskipped placed hplaced)] at hnot ⊢
    rw [Option.some.injEq] at hnot ⊢
    exact Bool.eq_not.2 hnot
  rcases hrest.2 with ⟨hverdict, result, hresult, hdeciding⟩ | ⟨hverdict, hall⟩
  · exact .inl ⟨hverdict, result, List.mem_append_right _ hresult, hdeciding⟩
  · exact .inr ⟨hverdict, fun result hresult =>
      (List.mem_append.1 hresult).elim (hopen result) (hall result)⟩

/-! ### The order of the definition -/

variable {results others : List Placed} {size : Nat} {placed : Placed}

theorem slots_concat (size : Nat) (results : List Placed) (placed : Placed) :
    slots size (results ++ [placed]) = fill (slots size results) placed := by
  rw [slots, List.foldl_append]
  rfl

theorem length_slots (size : Nat) (results : List Placed) : (slots size results).length = size := by
  induction results using List.reverseRecOn with
  | nil => exact List.length_replicate
  | append_singleton results placed ih => rw [slots_concat, fill, List.length_set, ih]

/-- Each slot holds the result that is written into it, if no other one is. -/
theorem getElem?_slots (hplaces : (results.map (·.2)).Nodup) (hplaced : placed ∈ results)
    (hsize : placed.2 < size) : (slots size results)[placed.2]? = some (some placed.1) := by
  induction results using List.reverseRecOn with
  | nil => cases hplaced
  | append_singleton results last ih =>
      rw [List.map_append, List.map_singleton, List.nodup_append] at hplaces
      obtain ⟨hnodup, -, hapart⟩ := hplaces
      rw [slots_concat, fill]
      rcases List.mem_append.1 hplaced with hmem | hlast
      · have hne : placed.2 ≠ last.2 :=
          hapart _ (List.mem_map_of_mem hmem) _ List.mem_cons_self
        rw [List.getElem?_set_ne hne.symm, ih hnodup hmem]
      · obtain rfl := List.mem_singleton.1 hlast
        rw [List.getElem?_set_self (by rwa [length_slots])]

/-- Results at the places zero, one and so on leave no slot empty. -/
theorem slots_eq_map_inOrder (h : (results.map (·.2)).Perm (List.range size)) :
    slots size results = (inOrder size results).map some := by
  have hfilled : ∀ slot ∈ slots size results, slot.isSome = true := by
    intro slot hslot
    obtain ⟨place, hplace, rfl⟩ := List.mem_iff_getElem.1 hslot
    rw [length_slots] at hplace
    obtain ⟨placed, hplaced, rfl⟩ := List.mem_map.1 (h.mem_iff.2 (List.mem_range.2 hplace))
    have hfound := getElem?_slots (h.nodup_iff.2 List.nodup_range) hplaced hplace
    obtain ⟨_, hfound⟩ := List.getElem?_eq_some_iff.1 hfound
    rw [hfound]
    rfl
  rw [inOrder, List.map_filterMap_some_eq_filter_map_isSome, List.map_id]
  exact (List.filter_eq_self.2 hfilled).symm

theorem length_inOrder (h : (results.map (·.2)).Perm (List.range size)) :
    (inOrder size results).length = size := by
  rw [← List.length_map some, ← slots_eq_map_inOrder h, length_slots]

/-- A result at one of these places stands at its place in the order of the definition. -/
theorem getElem?_inOrder (h : (results.map (·.2)).Perm (List.range size))
    (hplaced : placed ∈ results) : (inOrder size results)[placed.2]? = some placed.1 := by
  have hsize : placed.2 < size := List.mem_range.1 (h.mem_iff.1 (List.mem_map_of_mem hplaced))
  have hfound := getElem?_slots (h.nodup_iff.2 List.nodup_range) hplaced hsize
  rw [slots_eq_map_inOrder h, List.getElem?_map] at hfound
  exact Option.map_injective (Option.some_injective _) hfound

/-- The order of the definition loses no result, and adds none. -/
theorem zipIdx_inOrder_perm (h : (results.map (·.2)).Perm (List.range size)) :
    (inOrder size results).zipIdx.Perm results := by
  have hnodup : results.Nodup := List.Nodup.of_map _ (h.nodup_iff.2 List.nodup_range)
  have hplaces : (inOrder size results).zipIdx.Nodup := by
    refine List.Nodup.of_map (·.2) ?_
    rw [List.zipIdx_map_snd]
    exact List.nodup_range'
  refine (List.perm_ext_iff_of_nodup hplaces hnodup).2 fun entry => ?_
  rw [List.mem_zipIdx_iff_getElem?]
  refine ⟨fun hentry => ?_, getElem?_inOrder h⟩
  obtain ⟨hplace, _⟩ := List.getElem?_eq_some_iff.1 hentry
  rw [length_inOrder h] at hplace
  obtain ⟨placed, hplaced, hsame⟩ := List.mem_map.1 (h.mem_iff.2 (List.mem_range.2 hplace))
  have hfound := getElem?_inOrder h hplaced
  rw [hsame, hentry, Option.some.injEq] at hfound
  rwa [Prod.ext hfound hsame.symm]

/-- Results at the same places are the same if they are in the order of the definition. -/
theorem eq_of_inOrder_eq (h : (results.map (·.2)).Perm (List.range size))
    (hplaces : others.map (·.2) = results.map (·.2))
    (hsame : inOrder size others = inOrder size results) : others = results := by
  have hlength : others.length = results.length := by
    rw [← List.length_map (·.2), hplaces, List.length_map]
  refine List.ext_getElem hlength fun place hother hresult => ?_
  have hplace : (others[place]).2 = (results[place]).2 := by
    have hget := congrArg (·[place]?) hplaces
    simpa [hother, hresult] using hget
  have hfound := getElem?_inOrder h (List.getElem_mem hresult)
  have hfound' := getElem?_inOrder (hplaces ▸ h) (List.getElem_mem hother)
  rw [hsame, hplace, hfound] at hfound'
  exact Prod.ext (Option.some.inj hfound').symm hplace

/-- What is at the same places as others are is at as many places from zero on. -/
theorem places_perm {α : Type} {related : α → ConditionResult → Prop} {items : List α}
    {entries : List (α × Nat)} {results : List Placed} (hentries : entries.Perm items.zipIdx)
    (h : List.Forall₂ (fun entry placed => placed.2 = entry.2 ∧ related entry.1 placed.1)
      entries results) : (results.map (·.2)).Perm (List.range items.length) := by
  have hsame : entries.map (·.2) = results.map (·.2) := by
    rw [← List.forall₂_eq_eq_eq, List.forall₂_map_left_iff, List.forall₂_map_right_iff]
    exact h.imp fun _ _ hentry => hentry.1.symm
  rw [← hsame]
  exact places_perm_range hentries

/-- Results that are related to items at their places are so in the order of the definition. -/
theorem forall₂_inOrder {α : Type} {related : α → ConditionResult → Prop} {items : List α}
    {entries : List (α × Nat)} {results : List Placed} (hentries : entries.Perm items.zipIdx)
    (h : List.Forall₂ (fun entry placed => placed.2 = entry.2 ∧ related entry.1 placed.1)
      entries results) : List.Forall₂ related items (inOrder items.length results) := by
  have hplaces := places_perm hentries h
  refine List.forall₂_of_length_eq_of_get (length_inOrder hplaces).symm
    fun place hitem hresult => ?_
  have hentry : (items[place], place) ∈ entries :=
    hentries.mem_iff.2 (List.mem_zipIdx_iff_getElem?.2 (List.getElem?_eq_getElem hitem))
  obtain ⟨placed, hplaced, hplace, hrelated⟩ := exists_of_mem_right h.flip hentry
  have hfound := getElem?_inOrder hplaces hplaced
  rw [hplace, List.getElem?_eq_getElem hresult, Option.some.injEq] at hfound
  rw [List.get_eq_getElem, List.get_eq_getElem, hfound]
  exact hrelated

/-- What came out of the children of a combinator: the joint verdict with a result for each child
in the order of the definition, or the failure of one. -/
def Ran (post : Outcomes σ) (join : Join) (branches : List (Branch σ)) :
    Except Error (Bool × List ConditionResult) → Prop
  | .ok (verdict, results) =>
      List.Forall₂ (Fits post) branches results ∧ Joined join verdict results
  | .error e => ∃ branch ∈ branches, post branch (.error e)

/-! ### The steps -/

variable [HasSession σ] {inv : Invariant σ Ending} {rank : ℕ∞}

theorem ensures_skipEach (hcount : TallyFree inv) (batch : Batch σ) :
    Ensures inv rank (skipEach batch)
      (· = .ok (batch.map fun entry => (entry.1.condition.skip, entry.2))) := by
  induction batch with
  | nil => exact Ensures.pure rfl
  | cons entry rest ih =>
      obtain ⟨branch, place⟩ := entry
      apply ensures_count_bind hcount rfl
      apply ih.bind
      · intro results hresults
        cases hresults
        exact Ensures.pure rfl
      · intro e he
        cases he

theorem ensures_runBatches (hcount : TallyFree inv) (join : Join)
    (heval : ∀ branch result, post branch (.ok result) → result.isSkipped = false)
    (batches : List (Batch σ))
    (h : ∀ batch ∈ batches, ∀ entry ∈ batch, Ensures inv rank entry.1.run (post entry.1)) :
    Ensures inv (rank + 1) (runBatches join batches) (BatchesRun post join batches.flatten) := by
  induction batches with
  | nil => exact Ensures.pure ⟨.nil, .inr ⟨rfl, by simp⟩⟩
  | cons batch rest ih =>
      have hrest := ih fun other hother => h other (List.mem_cons_of_mem _ hother)
      refine (ensures_runBatch (h batch List.mem_cons_self)).bind (fun results hresults => ?_)
        fun e he => ?_
      · rw [List.flatten_cons]
        split
        · next hdecides =>
            refine (ensures_skipEach hcount rest.flatten).bind (fun skipped hskipped => ?_)
              fun e he => nomatch he
            cases hskipped
            exact Ensures.pure (batchesRun_skip heval hresults hdecides)
        · next hdecides =>
            apply hrest.bind
            · intro found hfound
              exact Ensures.pure (batchesRun_append heval hresults
                (Bool.eq_false_of_not_eq_true hdecides) hfound)
            · intro e he
              obtain ⟨entry, hentry, hpost⟩ := he
              exact ⟨entry, List.mem_append_right _ hentry, hpost⟩
      · obtain ⟨entry, hentry, hpost⟩ := he
        exact ⟨entry, List.mem_append_left _ hentry, hpost⟩

/-- Whatever the priorities are, a combinator finds a result for each child, each at its place. -/
theorem ensures_run (hcount : TallyFree inv) (join : Join) {branches : List (Branch σ)}
    (heval : ∀ branch result, post branch (.ok result) → result.isSkipped = false)
    (h : ∀ branch ∈ branches, Ensures inv rank branch.run (post branch)) :
    Ensures inv (rank + 1) (run join branches) (Ran post join branches) := by
  unfold run
  split
  · exact Ensures.pure ⟨.nil, .inl ⟨rfl, rfl⟩⟩
  · next branch =>
      have hbranch := h branch List.mem_cons_self
      apply (hbranch.raise le_self_add).bind
      · intro result hresult
        exact Ensures.pure ⟨.cons (.inl hresult) .nil,
          .inr ⟨List.cons_ne_nil _ _, decided_singleton join (heval branch result hresult)⟩⟩
      · intro e he
        exact ⟨branch, List.mem_cons_self, he⟩
  · next hnil hone =>
      refine ensures_current_bind (fun _ => True) (fun _ _ _ => trivial) fun session _ => ?_
      have hperm := batchesBy_perm
        (fun entry : Branch σ × Nat => entry.1.condition.effectivePriority session.almanac)
        branches.zipIdx
      refine (ensures_runBatches hcount join heval (batches session.almanac branches)
        fun batch hbatch entry hentry => ?_).bind (fun found hfound => ?_) fun e he => ?_
      · exact h entry.1 (mem_of_mem_batch hbatch hentry)
      · obtain ⟨verdict, results⟩ := found
        have hfits := forall₂_inOrder hperm hfound.1
        refine Ensures.pure ⟨hfits, .inr ⟨fun hempty => hnil ?_, ?_⟩⟩
        · rwa [hempty, List.forall₂_nil_right_iff] at hfits
        · have hplaced := (zipIdx_inOrder_perm (places_perm hperm hfound.1)).map (·.1)
          rw [List.zipIdx_map_fst] at hplaced
          exact hfound.2.perm hplaced.symm
      · obtain ⟨entry, hentry, hpost⟩ := he
        have hmem := hperm.mem_iff.1 hentry
        exact ⟨entry.1, List.mem_of_getElem? (List.mem_zipIdx_iff_getElem?.1 hmem), hpost⟩

end Schedule

end Rulebook
