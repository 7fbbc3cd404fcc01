import Rulebook.Proofs.Condition.Course
import Rulebook.Proofs.Condition.Inquest
import Rulebook.Proofs.Strand.Endings

/-!
Combinators without the children that are skipped.

A combinator that has come to its result did what the one does that has none of the skipped children.
Where several children are left the two run side by side, up to the batch that decides
(`Schedule.mirrors_course`); after other results than those that were found they need not, for then
something else would have come out (`Schedule.ends_proceed`).  Where one child is left, the other
combinator evaluates it without a strand of its own, and the first one waits for that strand.
-/

namespace Rulebook

open Session Eval Strand

variable {σ τ : Type} {post : Ending → Prop}

namespace Eval

theorem bind_next {α β : Type} (step : Eval σ α) (rest : α → Eval σ β)
    (next : Except Error β → Strand σ Ending) :
    (step >>= rest) next = step fun result =>
      match result with
      | .ok a => rest a next
      | .error e => next (.error e) :=
  rfl

/-- Whatever steps side by side come to, there are as many outcomes. -/
theorem ends_each {α : Type} [Parceled α] {steps : List (Eval σ α)}
    {next : Except Error (List (Except Error α)) → Strand σ Ending}
    (h : ∀ outcomes : List (Except Error α), outcomes.length = steps.length →
      (next (.ok outcomes)).Ends post) : (Eval.each steps next).Ends post := by
  refine Strand.Ends.spawnEach fun numbers hnumbers => .await _ _ fun known hknown => h _ ?_
  rw [List.length_map, hknown, hnumbers, List.length_map]

end Eval

namespace Schedule

variable {join : Join}

theorem length_of_allOk {α : Type} {outcomes : List (Except Error α)} {results : List α}
    (h : allOk outcomes = .ok results) : results.length = outcomes.length := by
  induction outcomes generalizing results with
  | nil =>
      cases h
      rfl
  | cons outcome rest ih =>
      cases outcome with
      | error e => cases h
      | ok a =>
          rw [allOk] at h
          cases hrest : allOk rest with
          | error e =>
              rw [hrest] at h
              cases h
          | ok others =>
              rw [hrest] at h
              cases h
              rw [List.length_cons, List.length_cons, ih hrest]

theorem ends_runBatch {batch : Batch σ} {next : Except Error (List Placed) → Strand σ Ending}
    (hok : ∀ placed : List Placed, placed.map (·.2) = batch.map (·.2) →
      (next (.ok placed)).Ends post)
    (herror : ∀ e, (next (.error e)).Ends post) : (runBatch batch next).Ends post := by
  rw [runBatch, bind_next]
  refine ends_each fun outcomes houtcomes => ?_
  dsimp only
  rw [bind_next, Eval.outcome]
  cases hresults : allOk outcomes with
  | error e => exact herror e
  | ok results =>
      refine hok _ (List.map_snd_zip ?_)
      rw [length_of_allOk hresults, houtcomes, List.length_map, List.length_map]

variable [HasSession σ]

theorem ends_skipEach {batch : Batch σ} {next : Except Error (List Placed) → Strand σ Ending}
    (h : (next (.ok (batch.map fun entry => (entry.1.condition.skip, entry.2)))).Ends post) :
    (skipEach batch next).Ends post := by
  induction batch generalizing next with
  | nil => exact h
  | cons entry rest ih => exact .read fun _ => .write _ (ih h)

/-- Whatever batches come to, there is a result for each place. -/
theorem ends_runBatches {batches : List (Batch σ)}
    {next : Except Error (Bool × List Placed) → Strand σ Ending}
    (hok : ∀ verdict (placed : List Placed), placed.map (·.2) = batches.flatten.map (·.2) →
      (next (.ok (verdict, placed))).Ends post)
    (herror : ∀ e, (next (.error e)).Ends post) : (runBatches join batches next).Ends post := by
  induction batches generalizing next with
  | nil => exact hok _ [] rfl
  | cons batch rest ih =>
      refine ends_runBatch (fun placed hplaced => ?_) herror
      dsimp only
      split
      · refine ends_skipEach (hok _ _ ?_)
        rw [List.map_append, hplaced, List.map_map, List.flatten_cons, List.map_append]
        rfl
      · refine ih (fun verdict others hothers => hok _ _ ?_) herror
        rw [List.map_append, hplaced, hothers, List.flatten_cons, List.map_append]

/-- Go on with what the children of a batch came to. -/
def proceed (join : Join) (batch : Batch σ) (rest : List (Batch σ))
    (outcomes : List (Except Error ConditionResult)) : Eval σ (Bool × List Placed) := do
  let results ← Eval.outcome (allOk outcomes)
  let placed := results.zip (batch.map (·.2))
  if decides join placed then
    let skipped ← skipEach rest.flatten
    return (join.deciding, placed ++ skipped)
  else
    let (verdict, others) ← runBatches join rest
    return (verdict, placed ++ others)

theorem runBatches_cons (join : Join) (batch : Batch σ) (rest : List (Batch σ)) :
    runBatches join (batch :: rest) =
      Eval.each (batch.map fun entry => entry.1.run) >>= proceed join batch rest := by
  rw [runBatches, runBatch, bind_assoc]
  refine congrArg (_ >>= ·) (funext fun outcomes => ?_)
  rw [proceed, bind_assoc]
  rfl

section Told

variable {told : List (Told × Nat)} {rest : List (List (Told × Nat))}
  {run : Condition → Eval σ ConditionResult}
  {next : Except Error (Bool × List Placed) → Strand σ Ending}
  {outcomes : List (Except Error ConditionResult)}

/-- The steps that evaluate the children that are told of. -/
abbrev stepsOf (run : Condition → Eval σ ConditionResult) (told : List (Told × Nat)) : Batch σ :=
  batchOf run (spotsOf told)

omit [HasSession σ] in
theorem flatten_stepsOf (run : Condition → Eval σ ConditionResult) (rest : List (List (Told × Nat))) :
    (rest.map (stepsOf run)).flatten = stepsOf run rest.flatten := by
  have h := flatten_batchOf run (rest.map spotsOf)
  rw [List.map_map] at h
  refine h.trans (congrArg (batchOf run) ?_)
  rw [spotsOf, List.map_flatten]
  rfl

omit [HasSession σ] in
theorem map_snd_stepsOf (run : Condition → Eval σ ConditionResult) (told : List (Told × Nat)) :
    (stepsOf run told).map (·.2) = told.map (·.2) := by
  rw [stepsOf, batchOf, spotsOf, List.map_map, List.map_map]
  rfl

omit [HasSession σ] in
theorem length_stepsOf (run : Condition → Eval σ ConditionResult) (told : List (Told × Nat)) :
    ((stepsOf run told).map fun entry => entry.1.run).length = told.length := by
  simp [stepsOf, batchOf, spotsOf]

omit [HasSession σ] in
theorem map_skip_stepsOf (h : ∀ entry ∈ told, entry.1.2 = entry.1.1.skip) :
    ((stepsOf run told).map fun entry => (entry.1.condition.skip, entry.2)) = placedOf told := by
  rw [stepsOf, batchOf, spotsOf, List.map_map, List.map_map, placedOf]
  exact List.map_congr_left fun entry hentry => congrArg (·, entry.2) (h entry hentry).symm

/-- It does not matter to the verdict at which places the results stand. -/
theorem decides_congr {told' : List (Told × Nat)} (h : told'.map (·.1) = told.map (·.1)) :
    decides join (placedOf told') = decides join (placedOf told) := by
  have hany := congrArg (List.any · fun child : Told => child.2.holds == join.deciding) h
  simpa [decides, placedOf, Function.comp_def] using hany

/-- The batch came to the results that are told. -/
theorem proceed_of_allOk (h : allOk outcomes = .ok (told.map fun entry => entry.1.2)) :
    proceed join (stepsOf run told) (rest.map (stepsOf run)) outcomes =
      if decides join (placedOf told) then
        skipEach (stepsOf run rest.flatten) >>= fun skipped =>
          pure (join.deciding, placedOf told ++ skipped)
      else
        runBatches join (rest.map (stepsOf run)) >>= fun found =>
          pure (found.1, placedOf told ++ found.2) := by
  rw [proceed, h, map_snd_stepsOf, flatten_stepsOf]
  change (if decides join ((told.map fun entry => entry.1.2).zip (told.map (·.2))) then _ else _) = _
  rw [List.zip_map']
  rfl

/-- After other results than those that are told, something else comes out. -/
theorem ends_proceed (hlength : outcomes.length = told.length)
    (hne : allOk outcomes ≠ .ok (told.map fun entry => entry.1.2))
    (hok : ∀ verdict (placed : List Placed),
      placed.map (·.2) = (told :: rest).flatten.map (·.2) →
        placed ≠ placedOf (told :: rest).flatten → (next (.ok (verdict, placed))).Ends post)
    (herror : ∀ e, (next (.error e)).Ends post) :
    (proceed join (stepsOf run told) (rest.map (stepsOf run)) outcomes next).Ends post := by
  rw [proceed, bind_next, Eval.outcome]
  cases hresults : allOk outcomes with
  | error e => exact herror e
  | ok results =>
      have hsize : results.length = told.length := (length_of_allOk hresults).trans hlength
      dsimp only
      rw [map_snd_stepsOf, flatten_stepsOf]
      have hplaces : (results.zip (told.map (·.2))).map (·.2) = told.map (·.2) :=
        List.map_snd_zip (by rw [hsize, List.length_map])
      -- Whatever comes of the later batches, the results of this one are among what comes out.
      have hother : ∀ others : List Placed,
          results.zip (told.map (·.2)) ++ others ≠ placedOf (told :: rest).flatten := by
        intro others heq
        rw [List.flatten_cons, placedOf, List.map_append] at heq
        have hfirst := (List.append_inj heq (by simp [hsize])).1
        have hsame : (results.zip (told.map (·.2))).map (·.1) = results :=
          List.map_fst_zip (by simp [hsize])
        rw [hfirst, List.map_map] at hsame
        exact hne (hresults.trans (congrArg _ hsame.symm))
      split
      · rw [bind_next]
        refine ends_skipEach (hok _ _ ?_ (hother _))
        rw [List.map_append, hplaces, List.map_map, List.flatten_cons, List.map_append,
          ← map_snd_stepsOf run rest.flatten]
        rfl
      · rw [bind_next]
        refine ends_runBatches (fun verdict others hothers => hok _ _ ?_ (hother _)) herror
        rw [List.map_append, hplaces, hothers, flatten_stepsOf, map_snd_stepsOf, List.flatten_cons,
          List.map_append]

end Told

/-! ### Several children are left -/

section Several

variable [HasSession τ] {mirror : Mirror σ τ Ending} {start : Almanac}
  {run : Condition → Eval σ ConditionResult} {run' : Condition → Eval τ ConditionResult}

/-- What is skipped need not be in the image. -/
theorem mirrors_skipEach_aside (h : Faithful mirror start) {batch : Batch σ} {head : Bool}
    {next : Except Error (List Placed) → Strand σ Ending} {strand' : Strand τ Ending}
    (hnext : Strand.Mirrors mirror head
      (next (.ok (batch.map fun entry => (entry.1.condition.skip, entry.2)))) strand') :
    Strand.Mirrors mirror head (skipEach batch next) strand' := by
  induction batch generalizing next with
  | nil => exact hnext
  | cons entry rest ih =>
      exact .aside (h.related_counting_skips entry.1.condition.kind.name) (ih hnext)

omit [HasSession σ] [HasSession τ] in
theorem map_snd_fst {told told' : List (Told × Nat)} (h : told'.map (·.1) = told.map (·.1)) :
    (told'.map fun entry => entry.1.2) = told.map fun entry => entry.1.2 := by
  have hmap := congrArg (List.map fun child : Told => child.2) h
  rwa [List.map_map, List.map_map] at hmap

omit [HasSession σ] [HasSession τ] in
/-- The same children at other places are evaluated in the same way. -/
theorem forall₂_mirrors {told : List (Told × Nat)} {told' : List (Told × Nat)}
    (hsame : told'.map (·.1) = told.map (·.1))
    (hrun : ∀ entry ∈ told, Eval.Mirrors mirror (run entry.1.1) (run' entry.1.1)) :
    List.Forall₂ (Eval.Mirrors mirror) ((stepsOf run told).map fun entry => entry.1.run)
      ((stepsOf run' told').map fun entry => entry.1.run) := by
  have hsteps : ((stepsOf run' told').map fun entry => entry.1.run) =
      told.map fun entry => run' entry.1.1 := by
    have hmap := congrArg (List.map fun child : Told => run' child.1) hsame
    simpa [stepsOf, batchOf, spotsOf, Function.comp_def] using hmap
  rw [hsteps]
  simp only [stepsOf, batchOf, spotsOf, List.map_map, List.forall₂_map_left_iff,
    List.forall₂_map_right_iff, List.forall₂_same, Function.comp_apply]
  exact hrun

/-- Batches run side by side with those of them that are evaluated, unless something else comes out
than what is told. -/
theorem mirrors_course (h : Faithful mirror start)
    (hlost : ∀ rest : Strand σ Ending, rest.Ends post → mirror.lost mirror.shift rest)
    {batches kept kept' : List (List (Told × Nat))} (hcourse : Course join batches kept)
    (hsame : kept'.map (List.map (·.1)) = kept.map (List.map (·.1)))
    (hrun : ∀ entry ∈ batches.flatten, Eval.Mirrors mirror (run entry.1.1) (run' entry.1.1))
    {next : Except Error (Bool × List Placed) → Strand σ Ending}
    {next' : Except Error (Bool × List Placed) → Strand τ Ending}
    (hnext : ∀ verdict, Strand.Mirrors mirror true (next (.ok (verdict, placedOf batches.flatten)))
      (next' (.ok (verdict, placedOf kept'.flatten))))
    (hok : ∀ verdict (placed : List Placed), placed.map (·.2) = batches.flatten.map (·.2) →
      placed ≠ placedOf batches.flatten → (next (.ok (verdict, placed))).Ends post)
    (herror : ∀ e, (next (.error e)).Ends post) :
    Strand.Mirrors mirror true (runBatches join (batches.map (stepsOf run)) next)
      (runBatches join (kept'.map (stepsOf run')) next') := by
  induction hcourse generalizing kept' next next' with
  | nil =>
      obtain rfl : kept' = [] := List.map_eq_nil_iff.1 hsame
      exact hnext _
  | @decided told rest hevaluated hdecides hskipped =>
      obtain ⟨told', _, rfl, htold, hnil⟩ := List.map_eq_cons_iff.1 hsame
      obtain rfl := List.map_eq_nil_iff.1 hnil
      rw [List.flatten_cons] at hrun
      have hsteps := forall₂_mirrors htold fun entry hentry =>
        hrun entry (List.mem_append_left _ hentry)
      rw [List.map_cons, List.map_cons, runBatches_cons, runBatches_cons, bind_next, bind_next]
      refine Mirrors.each_bind hsteps fun outcomes houtcomes => ?_
      dsimp only
      by_cases hresults : allOk outcomes = .ok (told.map fun entry => entry.1.2)
      · have hresults' := hresults.trans (congrArg Except.ok (map_snd_fst htold.symm))
        rw [proceed_of_allOk hresults, if_pos hdecides, bind_next]
        have hproceed' : proceed join (stepsOf run' told')
            (([] : List (List (Told × Nat))).map (stepsOf run')) outcomes =
              pure (join.deciding, placedOf told' ++ []) := by
          rw [proceed_of_allOk hresults', if_pos ((decides_congr htold).trans hdecides)]
          rfl
        rw [hproceed', List.append_nil]
        refine mirrors_skipEach_aside h ?_
        rw [map_skip_stepsOf hskipped]
        have hlast := hnext join.deciding
        rw [List.flatten_cons, List.flatten_singleton, placedOf, List.map_append] at hlast
        exact hlast
      · have hlength := houtcomes.trans (hsteps.length_eq.symm.trans (length_stepsOf run told))
        exact .lost (hlost _ (ends_proceed hlength hresults hok herror)) _
  | @goesOn told rest kept hevaluated hundecided _ ih =>
      obtain ⟨told', kept', rfl, htold, hsame'⟩ := List.map_eq_cons_iff.1 hsame
      rw [List.flatten_cons] at hrun
      have hsteps := forall₂_mirrors htold fun entry hentry =>
        hrun entry (List.mem_append_left _ hentry)
      rw [List.map_cons, List.map_cons, runBatches_cons, runBatches_cons, bind_next, bind_next]
      refine Mirrors.each_bind hsteps fun outcomes houtcomes => ?_
      dsimp only
      by_cases hresults : allOk outcomes = .ok (told.map fun entry => entry.1.2)
      · have hresults' := hresults.trans (congrArg Except.ok (map_snd_fst htold.symm))
        have hundecided' := (decides_congr htold).trans hundecided
        rw [proceed_of_allOk hresults, proceed_of_allOk hresults', if_neg (by simp [hundecided]),
          if_neg (by simp [hundecided']), bind_next, bind_next]
        have hplaced : ∀ others : List (List (Told × Nat)), placedOf (told :: others).flatten =
            placedOf told ++ placedOf others.flatten := fun others => List.map_append
        refine ih hsame' (fun entry hentry => hrun entry (List.mem_append_right _ hentry))
          (fun verdict => ?_) (fun verdict placed hplaces hne => ?_) herror
        · have hlast := hnext verdict
          rw [List.flatten_cons, List.flatten_cons, placedOf, List.map_append, placedOf,
            List.map_append] at hlast
          exact hlast
        · refine hok _ _ ?_ fun heq => hne ?_
          · rw [List.map_append, hplaces, List.flatten_cons, List.map_append, placedOf, List.map_map]
            rfl
          · exact List.append_cancel_left (heq.trans (hplaced rest))
      · have hlength := houtcomes.trans (hsteps.length_eq.symm.trans (length_stepsOf run told))
        exact .lost (hlost _ (ends_proceed hlength hresults hok herror)) _

end Several

/-! ### What is left -/

section Left

variable {almanac : Almanac} {children : List Condition} {results : List ConditionResult}

theorem map_spotsOf_toldIn (h : results.length = children.length) :
    (toldIn almanac children results).map spotsOf = spotsIn almanac children := by
  have hzip : (children.zip results).zipIdx.map (fun entry => (entry.1.1, entry.2)) =
      children.zipIdx :=
    List.ext_getElem (by simp [h]) fun place _ _ => by simp
  rw [spotsIn, ← hzip, batchesBy_map]
  rfl

/-- The steps that evaluate children are in the batches in which the children are told of. -/
theorem batches_toldIn {σ : Type} (almanac : Almanac) (run : Condition → Eval σ ConditionResult)
    (h : results.length = children.length) :
    batches almanac (children.map fun child => ⟨child, run child⟩) =
      (toldIn almanac children results).map (stepsOf run) := by
  rw [batches_map, ← map_spotsOf_toldIn h, List.map_map]
  rfl

theorem inOrder_toldIn (h : results.length = children.length) :
    inOrder children.length (placedOf (toldIn almanac children results).flatten) = results := by
  have hall : List.Forall₂ (fun (told : Told) result => told.2 = result) (children.zip results)
      (inOrder children.length (placedOf (toldIn almanac children results).flatten)) := by
    have hlength : (children.zip results).length = children.length := by
      rw [List.length_zip, h, Nat.min_self]
    rw [← hlength]
    refine forall₂_inOrder (toldIn_perm almanac children results) ?_
    rw [placedOf, List.forall₂_map_right_iff, List.forall₂_same]
    exact fun _ _ => ⟨rfl, rfl⟩
  rw [← List.forall₂_map_left_iff, List.forall₂_eq_eq_eq, List.map_snd_zip h.le] at hall
  exact hall.symm

theorem length_flatten_toldIn (h : results.length = children.length) (almanac : Almanac) :
    (toldIn almanac children results).flatten.length = children.length := by
  rw [(toldIn_perm _ _ _).length_eq, List.length_zipIdx, List.length_zip, h, Nat.min_self]

theorem perm_places_toldIn (h : results.length = children.length) (almanac : Almanac) :
    (((placedOf (toldIn almanac children results).flatten)).map (·.2)).Perm
      (List.range children.length) := by
  have hplaces := places_perm_range (toldIn_perm almanac children results)
  rw [List.length_zip, h, Nat.min_self] at hplaces
  rwa [placedOf, List.map_map]

/-- The children that were not skipped are put into the batches that were evaluated. -/
theorem toldIn_remaining (h : Course join (toldIn almanac children results) kept) :
    (toldIn almanac ((remaining children results).map (·.1))
        ((remaining children results).map (·.2))).map (List.map (·.1)) =
      kept.map (List.map (·.1)) := by
  have hzip : ((remaining children results).map (·.1)).zip ((remaining children results).map (·.2)) =
      remaining children results := by
    rw [List.zip_map']
    exact List.map_id' _
  rw [h.batches_eq, toldIn, hzip]
  refine (@batchesBy_map Told (fun told => told.1.effectivePriority almanac) (Told × Nat)
    (fun entry => entry.1) _).symm.trans ?_
  rw [List.zipIdx_map_fst]

end Left

/-! ### The strand of a combinator -/

section Strands

/-- A world in which the evaluation of a combinator was counted. -/
def counted (join : Join) (world : σ) : σ :=
  HasSession.withSession
    ((HasSession.session world).counting .evaluations join.kind.name) world

/-- What a combinator comes to when its children, as many as are told, have come to their
results. -/
def conclude (join : Join) (name : Option String) (priority : Priority) (size : Nat) :
    Except Error (Bool × List Placed) → Strand σ Ending := fun result =>
  .done ((result.map fun found =>
    join.result ⟨some found.1, some priority, name, none⟩ (inOrder size found.2)).map Parceled.pack)

/-- What a combinator comes to when its only child has come to its result. -/
def concludeOne (join : Join) (name : Option String) (priority : Priority) :
    Except Error ConditionResult → Strand σ Ending := fun result =>
  .done ((result.map fun found =>
    join.result ⟨some found.holds, some priority, name, none⟩ [found]).map Parceled.pack)

variable {name : Option String} {priority : Priority}

omit [HasSession σ] in
/-- Strands whose first turn is the same after a change of the world run in the same way. -/
theorem run_start_congr {strand other : Strand σ Ending} {world after : σ}
    (h : ∀ loop : Loop σ Ending, loop.world = world →
      Loop.follow 0 strand loop = Loop.follow 0 other { loop with world := after }) (turns : Nat) :
    (Loop.start world strand).run (turns + 1) = (Loop.start after other).run (turns + 1) :=
  congrArg (Loop.run turns) (h ⟨world, [], [⟨none, []⟩], []⟩ rfl)

theorem run_combine_several (first second : Branch σ) (rest : List (Branch σ)) (world : σ)
    (turns : Nat) :
    (Loop.start world (combine join name priority (first :: second :: rest)).strand).run
        (turns + 1) =
      (Loop.start (counted join world) (runBatches join
        (batches (HasSession.session world).almanac (first :: second :: rest))
          (conclude join name priority (first :: second :: rest).length))).run (turns + 1) := by
  refine run_start_congr (fun loop hloop => ?_) turns
  subst hloop
  rw [Eval.strand, follow_combine]
  refine congrArg (fun next => Loop.follow 0 (runBatches join _ next)
    { loop with world := counted join loop.world }) (funext fun result => ?_)
  cases result with
  | ok found => rfl
  | error e => rfl

theorem run_combine_single (branch : Branch σ) (world : σ) (turns : Nat) :
    (Loop.start world (combine join name priority [branch]).strand).run (turns + 1) =
      (Loop.start (counted join world) (branch.run (concludeOne join name priority))).run
        (turns + 1) := by
  refine run_start_congr (fun loop hloop => ?_) turns
  subst hloop
  refine congrArg (fun next => Loop.follow 0 (branch.run next)
    { loop with world := counted join loop.world }) (funext fun result => ?_)
  cases result with
  | ok found => rfl
  | error e => rfl

end Strands

end Schedule

/-! ### Two inquests -/

namespace Inquest

open Schedule

variable {session : Session} {depth deeper : Nat} {named : Table Value Condition} {join : Join}
  {name : Option String} {priority : Priority} {children : List Condition}
  {results : List ConditionResult} {kept : List (List (Told × Nat))} {verdict : Bool}

/-- The loop in which a condition is evaluated while note is taken. -/
def loop (session : Session) (depth deeper : Nat) (named : Table Value Condition)
    (condition : Condition) : Loop Inquest Ending :=
  Loop.start (opening session) (condition.evaluateIn (meaning depth named) deeper).strand

/-- The result of a combinator. -/
abbrev told (join : Join) (name : Option String) (priority : Priority) (verdict : Bool)
    (results : List ConditionResult) : ConditionResult :=
  join.result ⟨some verdict, some priority, name, none⟩ results

/-- One inquest has come to a result; the same has been asked for in another one, and the sessions
tell the same but for what was skipped. -/
structure Matches (start : Almanac) (result : ConditionResult) (now now' : Loop Inquest Ending) :
    Prop where
  outcome : now'.outcome? 0 = some (.ok (Parceled.pack result))
  inquiries : now.world.inquiries = now'.world.inquiries
  session : ∃ shift, now.world.session.Mirrors shift start now'.world.session
  quiet : now.queue = [] → now'.queue = []

theorem matches_of_mirrors {mirror : Mirror Inquest Inquest Ending} {start : Almanac}
    (hrelated : mirror.related = Mirrors mirror.shift start) {now now' : Loop Inquest Ending}
    (h : now.Mirrors mirror now') {result : ConditionResult}
    (houtcome : now'.outcome? 0 = some (.ok (Parceled.pack result))) :
    Matches start result now now' := by
  have hworld := h.world
  rw [hrelated] at hworld
  exact ⟨houtcome, hworld.inquiries, ⟨_, hworld.session⟩, h.queue_eq_nil⟩

/-- The steps that evaluate children while note is taken. -/
abbrev evaluating (depth deeper : Nat) (named : Table Value Condition) (child : Condition) :
    Eval Inquest ConditionResult :=
  child.evaluateIn (meaning depth named) deeper

theorem run_loop_several (hsize : 2 ≤ children.length) (hlength : results.length = children.length)
    (turns : Nat) :
    (loop session depth deeper named (join.condition children name priority)).run (turns + 1) =
      (Loop.start (counted join (opening session)) (runBatches join
        ((toldIn session.almanac children results).map (stepsOf (evaluating depth deeper named)))
          (conclude join name priority children.length))).run (turns + 1) := by
  have hbatches := batches_toldIn session.almanac (evaluating depth deeper named) hlength
  rw [loop, evaluateIn_combinator, ← hbatches]
  rw [← List.length_map fun child => (⟨child, evaluating depth deeper named child⟩ : Branch Inquest)]
  match children, hsize with
  | first :: second :: rest, _ => exact run_combine_several _ _ _ _ turns

theorem told_inj {first second : Bool} {mine others : List ConditionResult}
    (h : told join name priority first mine = told join name priority second others) :
    first = second ∧ mine = others := by
  cases join
  · cases h
    exact ⟨rfl, rfl⟩
  · cases h
    exact ⟨rfl, rfl⟩

/-- What a result is told to be other than. -/
abbrev Other (join : Join) (name : Option String) (priority : Priority) (verdict : Bool)
    (results : List ConditionResult) (ending : Ending) : Prop :=
  ending ≠ .ok (Parceled.pack (told join name priority verdict results))

/-- Other results than those of the children make another result. -/
theorem ends_conclude (hlength : results.length = children.length) {almanac : Almanac}
    (verdict found : Bool) {placed : List Placed}
    (hsame : placed.map (·.2) = (toldIn almanac children results).flatten.map (·.2))
    (hne : placed ≠ placedOf (toldIn almanac children results).flatten) :
    (conclude join name priority children.length (.ok (found, placed)) : Strand Inquest Ending).Ends
      (Other join name priority verdict results) := by
  refine .done fun heq => hne ?_
  have hresult : (.ok (told join name priority found (inOrder children.length placed)) : Except Error _) =
      .ok (told join name priority verdict results) := pack_injective heq
  have hplaces := perm_places_toldIn hlength almanac
  refine eq_of_inOrder_eq hplaces ?_ ((told_inj (Except.ok.inj hresult)).2.trans
    (inOrder_toldIn hlength).symm)
  rw [hsame, placedOf, List.map_map]
  rfl

theorem conclude_told (hlength : results.length = children.length) (almanac : Almanac)
    (found : Bool) : (conclude join name priority children.length (.ok (found,
      placedOf (toldIn almanac children results).flatten)) : Strand Inquest Ending) =
        .done (.ok (Parceled.pack (told join name priority found results))) := by
  rw [conclude, Except.map, inOrder_toldIn hlength]
  rfl

/-! ### Several children are left -/

/-- How combinators of which several children are evaluated run side by side. -/
def beside (start : Almanac) (join : Join) (name : Option String) (priority : Priority)
    (verdict : Bool) (results others : List ConditionResult) : Mirror Inquest Inquest Ending where
  related := Mirrors 0 start
  shift := 0
  tips ending ending' := ending = .ok (Parceled.pack (told join name priority verdict results)) ∧
    ending' = .ok (Parceled.pack (told join name priority verdict others))
  echo _ _ := False
  lost number rest := number = 0 ∧ rest.Ends (Other join name priority verdict results)

theorem length_remaining (children : List Condition) (results : List ConditionResult) :
    ((remaining children results).map (·.2)).length =
      ((remaining children results).map (·.1)).length := by
  rw [List.length_map, List.length_map]

/-- An inquest into a combinator has its match in the one into what is left of it. -/
theorem exists_matches_several (hrest : session.almanac.cache.AtRest)
    (hlength : results.length = children.length)
    (hcourse : Course join (toldIn session.almanac children results) kept)
    (hsize : 2 ≤ (remaining children results).length) {turns : Nat}
    (hturns : ((loop session depth deeper named
      (join.condition children name priority)).run turns).outcome? 0 =
        some (.ok (Parceled.pack (told join name priority verdict results)))) :
    ∃ turns', Matches session.almanac
      (told join name priority verdict ((remaining children results).map (·.2)))
      ((loop session depth deeper named (join.condition children name priority)).run turns)
      ((loop session depth deeper named (join.condition
        ((remaining children results).map (·.1)) name priority)).run turns') := by
  obtain ⟨before, rfl⟩ : ∃ before, turns = before + 1 := by
    cases turns with
    | zero => cases hturns
    | succ before => exact ⟨before, rfl⟩
  have hall : 2 ≤ children.length := by
    refine hsize.trans ((List.length_filter_le _ _).trans ?_)
    rw [List.length_zip, hlength, Nat.min_self]
  rw [run_loop_several hall hlength] at hturns ⊢
  have hothers := length_remaining children results
  have hleft : 2 ≤ ((remaining children results).map (·.1)).length := by
    rw [List.length_map]
    exact hsize
  let mirror := beside session.almanac join name priority verdict results
    ((remaining children results).map (·.2))
  have hmeaning : (meaning depth named).Mirrors mirror session.almanac (meaning depth named) :=
    mirrors_meaning rfl depth named
  have hstrands : Strand.Mirrors mirror true
      (runBatches join ((toldIn session.almanac children results).map
        (stepsOf (evaluating depth deeper named))) (conclude join name priority children.length))
      (runBatches join ((toldIn session.almanac ((remaining children results).map (·.1))
        ((remaining children results).map (·.2))).map (stepsOf (evaluating depth deeper named)))
          (conclude join name priority ((remaining children results).map (·.1)).length)) := by
    refine mirrors_course hmeaning.faithful (fun rest hends => ⟨rfl, hends⟩) hcourse
      (toldIn_remaining hcourse) (fun entry _ => hmeaning.evaluateIn deeper entry.1.1)
      (fun found => ?_) (fun found placed => ends_conclude hlength verdict found) fun e => ?_
    · rw [conclude_told hlength, conclude_told hothers]
      by_cases hverdict : found = verdict
      · subst hverdict
        exact .tip ⟨rfl, rfl⟩
      · have hlost : mirror.lost mirror.shift (.done (.ok (Parceled.pack
            (told join name priority found results)))) := by
          refine ⟨rfl, .done fun heq => hverdict ?_⟩
          have hresult : (.ok (told join name priority found results) : Except Error _) =
              .ok (told join name priority verdict results) := pack_injective heq
          exact (told_inj (Except.ok.inj hresult)).1
        exact .lost hlost _
    · exact .done fun heq => by cases heq
  have hstart : Mirrors 0 session.almanac (counted join (opening session))
      (counted join (opening session)) :=
    ⟨(Session.Mirrors.refl hrest 0).counting _ _, rfl⟩
  obtain ⟨turns', hmirrors⟩ := (Loop.Mirrors.start rfl hstart hstrands).exists_run
    (Loop.inTurn_start _ _) (fun _ _ hlost => hlost) hturns fun hother => hother rfl
  obtain ⟨outcome', houtcome', -, rfl⟩ := hmirrors.exists_tip hturns
  cases turns' with
  | zero => cases houtcome'
  | succ turns' =>
      refine ⟨turns' + 1, ?_⟩
      rw [run_loop_several hleft hothers]
      exact matches_of_mirrors rfl hmirrors houtcome'

/-! ### One child is left -/

/-- How a combinator waits for the only child that is evaluated, while that child runs side by side
with the combinator of which it is the only child. -/
def below (start : Almanac) (join : Join) (name : Option String) (priority : Priority)
    (verdict : Bool) (results : List ConditionResult) (sole : ConditionResult) :
    Mirror Inquest Inquest Ending where
  related := Mirrors 1 start
  shift := 1
  tips ending ending' := ∃ result : Except Error ConditionResult,
    ending = result.map Parceled.pack ∧
      (concludeOne join name priority result : Strand Inquest Ending) = .done ending'
  echo ending last := ending = .ok (Parceled.pack sole) ∧
    last = .ok (Parceled.pack (told join name priority verdict results)) ∧ verdict = join.deciding
  lost number rest := number = 0 ∧ rest.Ends (Other join name priority verdict results)

theorem eq_of_received {ending : Ending} {result : ConditionResult}
    (h : received (some ending) = .ok result) : ending = .ok (Parceled.pack result) := by
  cases ending with
  | error e => cases h
  | ok parcel =>
      cases parcel with
      | result found => rw [Except.ok.inj h]; rfl
      | nothing => cases h
      | value value => cases h
      | rule rule => cases h

/-- The one child that is left is the first batch, and it decides. -/
theorem exists_sole {child : Condition} {sole : ConditionResult} {almanac : Almanac}
    (hlength : results.length = children.length)
    (hcourse : Course join (toldIn almanac children results) kept)
    (hone : remaining children results = [(child, sole)]) (hsize : 2 ≤ children.length) :
    ∃ place rest, toldIn almanac children results = [((child, sole), place)] :: rest ∧
      decides join (placedOf [((child, sole), place)]) = true ∧
        ∀ entry ∈ rest.flatten, entry.1.2 = entry.1.1.skip := by
  have hkept : kept.map (List.map (·.1)) = [[(child, sole)]] := by
    rw [hcourse.batches_eq, hone]
    exact batchesBy_singleton _ _
  obtain ⟨batch, later, rfl, hbatch, hlater⟩ := List.map_eq_cons_iff.1 hkept
  obtain rfl := List.map_eq_nil_iff.1 hlater
  obtain ⟨⟨_, place⟩, others, rfl, rfl, hothers⟩ := List.map_eq_cons_iff.1 hbatch
  obtain rfl := List.map_eq_nil_iff.1 hothers
  generalize hall : toldIn almanac children results = batches at hcourse
  cases hcourse with
  | decided _ hdecides hskipped => exact ⟨place, _, rfl, hdecides, hskipped⟩
  | goesOn _ _ hrest =>
      -- Then it would be the only child.
      cases hrest
      have hcount := length_flatten_toldIn hlength almanac
      rw [hall] at hcount
      simp at hcount
      omega

variable {batch : List (Told × Nat)} {rest : List (List (Told × Nat))}
  {run : Condition → Eval Inquest ConditionResult} {start : Almanac} {child : Condition}
  {sole : ConditionResult} {place : Nat}

theorem trails_skipEach {mirror : Mirror Inquest Inquest Ending} (h : Faithful mirror start)
    {outcome : Ending} {batch : Batch Inquest}
    {next : Except Error (List Placed) → Strand Inquest Ending}
    (hnext : Trails mirror outcome
      (next (.ok (batch.map fun entry => (entry.1.condition.skip, entry.2))))) :
    Trails mirror outcome (skipEach batch next) := by
  induction batch generalizing next with
  | nil => exact hnext
  | cons entry rest ih =>
      exact .aside (h.related_counting_skips entry.1.condition.kind.name) (ih hnext)

/-- When the only child that is evaluated has come to an outcome, the children that are skipped are
all that is left to do, or something else comes out than what is told. -/
theorem heard_proceed (hlength : results.length = children.length)
    (htold : toldIn start children results = [((child, sole), place)] :: rest)
    (hdecides : decides join (placedOf [((child, sole), place)]) = true)
    (hskipped : ∀ entry ∈ rest.flatten, entry.1.2 = entry.1.1.skip) (ending : Ending) :
    Heard (below start join name priority verdict results sole) ending 0
      (proceed join (stepsOf run [((child, sole), place)]) (rest.map (stepsOf run))
        [received (some ending)] (conclude join name priority children.length)) := by
  have hother : ∀ found (placed : List Placed),
      placed.map (·.2) = ([((child, sole), place)] :: rest).flatten.map (·.2) →
        placed ≠ placedOf ([((child, sole), place)] :: rest).flatten →
          (conclude join name priority children.length (.ok (found, placed)) : Strand Inquest Ending).Ends
            (Other join name priority verdict results) := by
    rw [← htold]
    exact fun found placed => ends_conclude hlength verdict found
  by_cases hreceived : received (some ending) = .ok sole
  · have hall : allOk [received (some ending)] =
        .ok ([(((child, sole), place) : Told × Nat)].map fun entry => entry.1.2) := by
      rw [hreceived]
      rfl
    have hlast : (conclude join name priority children.length (.ok (join.deciding,
        placedOf (toldIn start children results).flatten)) : Strand Inquest Ending) =
          .done (.ok (Parceled.pack (told join name priority join.deciding results))) :=
      conclude_told hlength start join.deciding
    rw [htold, List.flatten_cons, placedOf, List.map_append] at hlast
    rw [proceed_of_allOk hall, if_pos hdecides, bind_next]
    by_cases hverdict : verdict = join.deciding
    · have hfaithful : Faithful (below start join name priority verdict results sole) start :=
        faithful_mirrors rfl
      refine .inl (trails_skipEach hfaithful ?_)
      rw [map_skip_stepsOf hskipped]
      refine (congrArg (Trails _ ending) hlast).mpr (.done ⟨eq_of_received hreceived, ?_, hverdict⟩)
      rw [hverdict]
    · refine .inr ⟨rfl, ends_skipEach ?_⟩
      rw [map_skip_stepsOf hskipped]
      refine (congrArg (Strand.Ends _) hlast).mpr (.done fun heq => hverdict ?_)
      have hresult : (.ok (told join name priority join.deciding results) : Except Error _) =
          .ok (told join name priority verdict results) := pack_injective heq
      exact (told_inj (Except.ok.inj hresult)).1.symm
  · refine .inr ⟨rfl, ends_proceed rfl (fun hall => hreceived ?_) hother fun e =>
      .done fun heq => by cases heq⟩
    cases hcase : (received (some ending) : Except Error ConditionResult) with
    | error e =>
        rw [hcase] at hall
        cases hall
    | ok found =>
        rw [hcase] at hall
        cases hall
        rfl

/-- A combinator waits for the first child, which is about to begin. -/
def waitingFor (world : Inquest) (step : Eval Inquest ConditionResult)
    (next : List (Except Error ConditionResult) → Strand Inquest Ending) : Loop Inquest Ending where
  world := world
  queue := [.turn 1 step.strand]
  records := [⟨none, []⟩, ⟨none, [.wait 0 0]⟩]
  waits := [some ⟨0, [1], [none], fun known => known.all Option.isSome,
    fun known => next (known.map received)⟩]

theorem run_each_one (world : Inquest) (step : Eval Inquest ConditionResult)
    (next : Except Error (List (Except Error ConditionResult)) → Strand Inquest Ending)
    (turns : Nat) :
    (Loop.start world (Eval.each [step] next)).run (turns + 1) =
      (waitingFor world step fun outcomes => next (.ok outcomes)).run turns :=
  rfl

theorem mirrors_waitingFor {mirror : Mirror Inquest Inquest Ending} (hshift : mirror.shift = 1)
    {world world' : Inquest} (hworld : mirror.related world world')
    {step : Eval Inquest ConditionResult} {strand' : Strand Inquest Ending}
    {next : List (Except Error ConditionResult) → Strand Inquest Ending}
    (hstrand : Strand.Mirrors mirror true step.strand strand')
    (hnext : ∀ ending, Heard mirror ending 0 (next [received (some ending)])) :
    Loop.Mirrors mirror (waitingFor world step next) (Loop.start world' strand') := by
  refine ⟨hworld, ?_, ⟨by rw [hshift]; rfl, fun place _ => ?_⟩,
    ⟨by rw [hshift]; rfl, fun place hplace => ?_⟩, Nat.zero_lt_one, ?_, ?_, ?_⟩
  · have hturn : Event.Mirrors mirror (.turn (0 + mirror.shift) step.strand) (.turn 0 strand') :=
      .turn 0 hstrand
    rw [hshift] at hturn
    simpa [waitingFor, Loop.start, Event.isBelow, hshift] using hturn
  · rw [hshift]
    exact .none
  · obtain ⟨later, rfl⟩ := Nat.exists_eq_add_of_le hplace
    rw [hshift, Nat.add_comm 1]
    exact .none
  · rw [hshift]
    exact .none
  · rintro record ⟨⟩
    rfl
  · constructor
    · rw [hshift]
      rintro number hnumber wait hwait
      obtain rfl := Nat.lt_one_iff.1 hnumber
      obtain rfl := Option.some.inj (Option.some.inj hwait)
      exact ⟨Nat.zero_lt_one, fun ending => ⟨rfl, hnext ending⟩⟩
    · intro number place ending hnews
      cases List.mem_singleton.1 hnews
    · rw [hshift]
      intro strand rest hturn hstrand
      obtain ⟨rfl, _⟩ := Event.turn.inj (List.mem_singleton.1 hturn)
      exact absurd hstrand (Nat.lt_irrefl 1)
    · rw [hshift]
      rintro strand hstrand record hrecord
      obtain rfl := Nat.lt_one_iff.1 hstrand
      obtain rfl := Option.some.inj hrecord
      refine ⟨rfl, fun last hlast => by cases hlast⟩
    · rw [hshift]
      rintro record hrecord hearer hhearer
      obtain rfl := Option.some.inj hrecord
      exact ⟨0, Nat.zero_lt_one, List.mem_singleton.1 hhearer⟩

/-- An inquest into a combinator has its match in the one into the only child that is evaluated. -/
theorem exists_matches_single (hrest : session.almanac.cache.AtRest)
    (hlength : results.length = children.length)
    (hcourse : Course join (toldIn session.almanac children results) kept)
    (hone : remaining children results = [(child, sole)]) (hsize : 2 ≤ children.length) {turns : Nat}
    (hturns : ((loop session depth deeper named
      (join.condition children name priority)).run turns).outcome? 0 =
        some (.ok (Parceled.pack (told join name priority verdict results)))) :
    ∃ turns', Matches session.almanac (told join name priority verdict [sole])
      ((loop session depth deeper named (join.condition children name priority)).run turns)
      ((loop session depth deeper named (join.condition [child] name priority)).run turns') := by
  obtain ⟨place, rest, htold, hdecides, hskipped⟩ := exists_sole hlength hcourse hone hsize
  obtain ⟨before, rfl⟩ : ∃ before, turns = before + 1 := by
    cases turns with
    | zero => cases hturns
    | succ before => exact ⟨before, rfl⟩
  have hsteps : ((stepsOf (evaluating depth deeper named) [((child, sole), place)]).map
      fun entry => entry.1.run) = [evaluating depth deeper named child] := rfl
  rw [run_loop_several hsize hlength, htold, List.map_cons, runBatches_cons, bind_next, hsteps,
    run_each_one] at hturns ⊢
  let mirror := below session.almanac join name priority verdict results sole
  have hmeaning : (meaning depth named).Mirrors mirror session.almanac (meaning depth named) :=
    mirrors_meaning rfl depth named
  have hworld : Mirrors 1 session.almanac (counted join (opening session))
      (counted join (opening session)) :=
    ⟨(Session.Mirrors.refl hrest 1).counting _ _, rfl⟩
  have hstrand : Strand.Mirrors mirror true (evaluating depth deeper named child).strand
      (evaluating depth deeper named child (concludeOne join name priority)) :=
    hmeaning.evaluateIn deeper child true _ _ fun result => .tip ⟨result, rfl, rfl⟩
  have hheard : ∀ ending, Heard mirror ending 0 (proceed join
      (stepsOf (evaluating depth deeper named) [((child, sole), place)])
        (rest.map (stepsOf (evaluating depth deeper named))) [received (some ending)]
          (conclude join name priority children.length)) := heard_proceed hlength htold hdecides hskipped
  have hloops : Loop.Mirrors mirror
      (waitingFor (counted join (opening session)) (evaluating depth deeper named child)
        fun outcomes => proceed join (stepsOf (evaluating depth deeper named) [((child, sole), place)])
          (rest.map (stepsOf (evaluating depth deeper named))) outcomes (conclude join name priority children.length))
      (Loop.start (counted join (opening session))
        (evaluating depth deeper named child (concludeOne join name priority))) :=
    mirrors_waitingFor rfl hworld hstrand hheard
  obtain ⟨begun, hturn⟩ := (Loop.inTurn_start (counted join (opening session))
    (Eval.each [evaluating depth deeper named child] fun result => match result with
      | .ok outcomes => proceed join (stepsOf (evaluating depth deeper named) [((child, sole), place)])
          (rest.map (stepsOf (evaluating depth deeper named))) outcomes (conclude join name priority children.length)
      | .error e => conclude join name priority children.length (.error e))).step rfl
  obtain ⟨turns', hmirrors⟩ := hloops.exists_run hturn (fun _ _ hlost => hlost) hturns
    fun hother => hother rfl
  obtain ⟨record, hrecord, hlast⟩ := Option.bind_eq_some_iff.1 hturns
  obtain ⟨_, hecho⟩ := hmirrors.echoes.records 0 Nat.zero_lt_one record hrecord
  obtain ⟨outcome, houtcome, rfl, -, hverdict⟩ := hecho _ hlast
  obtain ⟨outcome', houtcome', result, hresult, hconclude⟩ := hmirrors.exists_tip houtcome
  have hsole : (.ok sole : Except Error ConditionResult) = result := pack_injective hresult
  subst hsole
  have hholds : sole.holds = verdict := by
    rw [hverdict]
    simpa [decides, placedOf] using hdecides
  have hfound : outcome' = .ok (Parceled.pack (told join name priority verdict [sole])) := by
    rw [← hholds]
    exact (Strand.done.inj hconclude).symm
  rw [hfound] at houtcome'
  cases turns' with
  | zero => cases houtcome'
  | succ turns' =>
      have hrun : (loop session depth deeper named (join.condition [child] name priority)).run
            (turns' + 1) =
          (Loop.start (counted join (opening session)) (evaluating depth deeper named child
            (concludeOne join name priority))).run (turns' + 1) := by
        rw [loop, evaluateIn_combinator]
        exact run_combine_single _ _ turns'
      refine ⟨turns' + 1, ?_⟩
      rw [hrun]
      exact matches_of_mirrors rfl hmirrors houtcome'

/-! ### Every combinator -/

theorem remaining_ne_nil {almanac : Almanac} (hlength : results.length = children.length)
    (hcourse : Course join (toldIn almanac children results) kept) (hne : children ≠ []) :
    remaining children results ≠ [] := by
  intro hnil
  have hkept := hcourse.batches_eq
  rw [hnil] at hkept
  obtain rfl := List.map_eq_nil_iff.1 hkept
  generalize hall : toldIn almanac children results = batches at hcourse
  cases hcourse
  have hcount := length_flatten_toldIn hlength almanac
  rw [hall] at hcount
  exact hne (List.length_eq_zero_iff.1 hcount.symm)

/-- An only child is not skipped. -/
theorem remaining_of_length_lt_two {almanac : Almanac} (hlength : results.length = children.length)
    (hcourse : Course join (toldIn almanac children results) kept) (hsize : children.length < 2) :
    remaining children results = children.zip results := by
  have hsublist : (remaining children results).Sublist (children.zip results) := List.filter_sublist
  refine hsublist.eq_of_length_le ?_
  rw [List.length_zip, hlength, Nat.min_self]
  cases children with
  | nil => exact Nat.zero_le _
  | cons child others =>
      have hne := remaining_ne_nil hlength hcourse (List.cons_ne_nil _ _)
      exact (Nat.le_of_lt_succ hsize).trans (List.length_pos_iff.2 hne)

/-- An inquest has its match in itself. -/
theorem matches_self (hrest : session.almanac.cache.AtRest) {condition : Condition}
    {result : ConditionResult} {turns : Nat}
    (hturns : ((loop session depth deeper named condition).run turns).outcome? 0 =
      some (.ok (Parceled.pack result))) :
    Matches session.almanac result ((loop session depth deeper named condition).run turns)
      ((loop session depth deeper named condition).run turns) := by
  let mirror : Mirror Inquest Inquest Ending :=
    ⟨Mirrors 0 session.almanac, 0, Eq, fun _ _ => False, fun _ _ => False⟩
  have hmeaning : (meaning depth named).Mirrors mirror session.almanac (meaning depth named) :=
    mirrors_meaning rfl depth named
  have hstrand : Strand.Mirrors mirror true
      (condition.evaluateIn (meaning depth named) deeper).strand
      (condition.evaluateIn (meaning depth named) deeper).strand :=
    hmeaning.evaluateIn deeper condition true _ _ fun _ => .tip rfl
  have hworld : Mirrors 0 session.almanac (opening session) (opening session) :=
    ⟨Session.Mirrors.refl hrest 0, rfl⟩
  have hrun := (Loop.Mirrors.start rfl hworld hstrand).run_beside rfl (fun _ _ hlost => hlost)
    (Loop.inTurn_start _ _) turns
  exact matches_of_mirrors rfl hrun hturns

/-- An inquest into a combinator has its match in the one into what is left of it. -/
theorem exists_matches (hrest : session.almanac.cache.AtRest)
    (hlength : results.length = children.length)
    (hcourse : Course join (toldIn session.almanac children results) kept) {turns : Nat}
    (hturns : ((loop session depth deeper named
      (join.condition children name priority)).run turns).outcome? 0 =
        some (.ok (Parceled.pack (told join name priority verdict results)))) :
    ∃ turns', Matches session.almanac
      (told join name priority verdict ((remaining children results).map (·.2)))
      ((loop session depth deeper named (join.condition children name priority)).run turns)
      ((loop session depth deeper named (join.condition
        ((remaining children results).map (·.1)) name priority)).run turns') := by
  by_cases hall : children.length < 2
  · have hzip := remaining_of_length_lt_two hlength hcourse hall
    rw [hzip, List.map_fst_zip hlength.ge, List.map_snd_zip hlength.le]
    exact ⟨turns, matches_self hrest hturns⟩
  · have hchildren : children ≠ [] := by
      rintro rfl
      exact hall Nat.zero_lt_two
    have hne := remaining_ne_nil hlength hcourse hchildren
    by_cases hsize : 2 ≤ (remaining children results).length
    · exact exists_matches_several hrest hlength hcourse hsize hturns
    · have hpos := List.length_pos_iff.2 hne
      have hlength_one : (remaining children results).length = 1 := by omega
      obtain ⟨⟨child, sole⟩, hone⟩ := List.length_eq_one_iff.1 hlength_one
      rw [hone]
      exact exists_matches_single hrest hlength hcourse hone (Nat.le_of_not_lt hall) hturns

theorem exists_conditionBatches {almanac : Almanac} {run : Condition → Eval Inquest ConditionResult}
    (hlength : results.length = children.length)
    (hcourse : Course join (toldIn almanac children results) kept) :
    ∃ later, conditionBatches almanac (children.map fun child => ⟨child, run child⟩) =
      conditionBatches almanac (((remaining children results).map (·.1)).map fun child =>
        ⟨child, run child⟩) ++ later := by
  obtain ⟨later, hall, -, -⟩ := hcourse.exists_append
  have hchildren : (children.zip results).zipIdx.map (fun entry => entry.1.1) = children := by
    have hfirst := congrArg (List.map Prod.fst) (List.zipIdx_map_fst 0 (children.zip results))
    rwa [List.map_map, List.map_fst_zip hlength.ge] at hfirst
  have hbatches : batchesBy (Condition.effectivePriority almanac) children =
      (kept ++ later).map (List.map fun entry => entry.1.1) := by
    rw [← hall, toldIn]
    exact (congrArg (batchesBy _) hchildren).symm.trans (batchesBy_map _ _)
  refine ⟨later.map (List.map fun entry => entry.1.1), ?_⟩
  rw [conditionBatches_map, conditionBatches_map, hbatches, batchesBy_map, ← hcourse.batches_eq,
    List.map_append, List.map_map]
  refine congrArg (· ++ _) (List.map_congr_left fun batch _ => ?_)
  rw [Function.comp_apply, List.map_map]
  rfl

/-- What a combinator does is what it does without the children that are skipped: those of which a
sibling with a lower effective priority came to the deciding value. -/
structure SkipsExactly (session : Session) (depth deeper : Nat) (named : Table Value Condition)
    (join : Join) (children : List Condition) (name : Option String) (priority : Priority)
    (verdict : Bool) (results : List ConditionResult) : Prop where
  length : results.length = children.length
  skipped : ∀ (place : Nat) (child : Condition) (found : ConditionResult),
    children[place]? = some child → results[place]? = some found →
      (found.isSkipped = true ↔ ∃ (sibling : Nat) (other : Condition) (decisive : ConditionResult),
        children[sibling]? = some other ∧ results[sibling]? = some decisive ∧
          other.effectivePriority session.almanac < child.effectivePriority session.almanac ∧
            decisive.head.verdict = some join.deciding)
  batches : ∃ later, conditionBatches session.almanac
      (children.map fun child => ⟨child, evaluating depth deeper named child⟩) =
    conditionBatches session.almanac (((remaining children results).map (·.1)).map fun child =>
      ⟨child, evaluating depth deeper named child⟩) ++ later
  yields : Yields session ((join.condition ((remaining children results).map (·.1)) name
      priority).evaluateIn ⟨Leaf.compare depth, fun _ => named⟩ deeper)
    (.ok (told join name priority verdict ((remaining children results).map (·.2))))
  inquiries : ∀ turns, ((loop session depth deeper named
      (join.condition children name priority)).run turns).outcome? 0 =
        some (.ok (Parceled.pack (told join name priority verdict results))) →
    ∃ turns', Matches session.almanac
      (told join name priority verdict ((remaining children results).map (·.2)))
      ((loop session depth deeper named (join.condition children name priority)).run turns)
      ((loop session depth deeper named (join.condition
        ((remaining children results).map (·.1)) name priority)).run turns')

/-- Exactly those children of a combinator are skipped of which a sibling with a lower effective
priority came to the deciding value.  What is asked for and computed is what is asked for and
computed for the combinator without them, in the same order and in the same batches. -/
theorem skipsExactly (session : Session) (hrest : session.almanac.cache.AtRest) (depth deeper : Nat)
    (named : Table Value Condition) (join : Join) (children : List Condition) (name : Option String)
    (priority : Priority) (result : ConditionResult)
    (h : Yields session ((join.condition children name priority).evaluateIn
      ⟨Leaf.compare depth, fun _ => named⟩ deeper) (.ok result)) :
    ∃ verdict results, result = told join name priority verdict results ∧
      SkipsExactly session depth deeper named join children name priority verdict results := by
  obtain ⟨verdict, results, kept, rfl, hlength, hcourse⟩ := runs_of_yields h result rfl
  have hinquiries : ∀ turns, ((loop session depth deeper named
      (join.condition children name priority)).run turns).outcome? 0 =
        some (.ok (Parceled.pack (told join name priority verdict results))) →
      ∃ turns', Matches session.almanac
        (told join name priority verdict ((remaining children results).map (·.2)))
        ((loop session depth deeper named (join.condition children name priority)).run turns)
        ((loop session depth deeper named (join.condition
          ((remaining children results).map (·.1)) name priority)).run turns') :=
    fun _ hturns => exists_matches hrest hlength hcourse hturns
  refine ⟨verdict, results, rfl, ?_⟩
  exact
    { length := hlength
      skipped := fun _ _ _ hchild hfound => hcourse.isSkipped_iff_of_getElem? hchild hfound
      batches := exists_conditionBatches hlength hcourse
      yields := by
        obtain ⟨turns, hturns⟩ := (yields_iff hrest depth named deeper _ _).2 h
        obtain ⟨turns', hmatches⟩ := hinquiries turns hturns
        exact (yields_iff hrest depth named deeper _ _).1 ⟨turns', hmatches.outcome⟩
      inquiries := hinquiries }

theorem skipsExactly_decidedLast :
    Condition.lenientSession.almanac.cache.AtRest ∧
      ∃ verdict results,
        Condition.decidedLastResult = told .any none Priority.first verdict results ∧
          SkipsExactly Condition.lenientSession depthLimit depthLimit [] .any
            [.all [.never none] none ⟨2, Nat.le_succ 1⟩, .reference "gone" (some "mine") none,
              .not (.never none) none Priority.first] none Priority.first verdict results := by
  have hrest : Condition.lenientSession.almanac.cache.AtRest := fun signature job hjob => by
    cases hjob
  have hyields : Yields Condition.lenientSession (Condition.decidedLast.evaluate fun _ => [])
      (.ok Condition.decidedLastResult) := ⟨20, rfl⟩
  exact ⟨hrest, skipsExactly _ hrest _ _ _ _ _ _ _ _ hyields⟩

end Inquest

end Rulebook
