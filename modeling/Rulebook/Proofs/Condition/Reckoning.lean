import Rulebook.Proofs.Condition.Depth
import Rulebook.Proofs.Fact.Agreement
import Rulebook.Proofs.Priority

/-!
What conditions come to, whatever goes on besides.

`Condition.reckonIn` evaluates a condition in one go, without turns, strands or a cache, from how its
comparisons come out.  Evaluating it beside others comes to just that result, skipped parts
included, or fails as well (`comes_evaluateIn`).
-/

namespace Rulebook

open Eval Session Strand

/-- What conditions are reckoned from: what the names in references stand for, the almanac with the
priorities of facts, and how comparisons come out, unless they fail. -/
structure Outlook where
  named : Table Value Condition
  almanac : Almanac
  compare : Leaf → Option (Bool × Sides)

/-- Whoever keeps what holds of the tasks and the world leaves facts and their priorities as they
are, and may count what happens, and start strands that make no job. -/
structure Steady {σ : Type} [HasSession σ] (inv : List Task → σ → Prop) (almanac : Almanac) :
    Prop where
  opens : Open inv
  counts : ∀ tasks world (counter : Counter) label, counter.ofCache = false → inv tasks world →
    inv tasks (HasSession.withSession ((HasSession.session world).counting counter label) world)
  facts : ∀ tasks world, inv tasks world →
    (HasSession.session world).almanac.facts = almanac.facts
  lenient : ∀ tasks world, inv tasks world →
    (HasSession.session world).almanac.allowUndefinedConditions = almanac.allowUndefinedConditions

theorem Steady.comes_count {σ : Type} [HasSession σ] {inv : List Task → σ → Prop}
    {almanac : Almanac} {rank : Nat} (h : Steady inv almanac) {counter : Counter}
    (hcounter : counter.ofCache = false) (label : String) :
    Comes inv rank (count counter label : Eval σ Unit) (· = .ok ()) :=
  .modify fun tasks world hinv => h.counts tasks world counter label hcounter hinv

/-- A step that looks at the session first. -/
theorem comes_current_bind {σ α : Type} [HasSession σ] {inv : List Task → σ → Prop} {rank : Nat}
    {next : Session → Eval σ α} {post : Except Error α → Prop}
    (h : ∀ tasks world, inv tasks world → Comes inv rank (next (HasSession.session world)) post) :
    Comes inv rank (current >>= next) post :=
  Comes.get_bind h

/-- A child of a combinator with what it comes to, unless it fails. -/
abbrev Prospect := Condition × Option ConditionResult

namespace Schedule

/-- What batches of children come to. -/
def reckonBatches (join : Join) : List (List (Prospect × Nat)) → Option (Bool × List Placed)
  | [] => some (!join.deciding, [])
  | batch :: rest => do
      let results ← batch.mapM fun entry => entry.1.2.map fun result => (result, entry.2)
      if decides join results then
        some (join.deciding, results ++ rest.flatten.map fun entry => (entry.1.1.skip, entry.2))
      else
        (reckonBatches join rest).map fun found => (found.1, results ++ found.2)

/-- What the children of a combinator come to. -/
def reckon (join : Join) (almanac : Almanac) :
    List Prospect → Option (Bool × List ConditionResult)
  | [] => some (true, [])
  | [child] => child.2.map fun result => (result.holds, [result])
  | children =>
      (reckonBatches join (batchesBy (fun entry => entry.1.1.effectivePriority almanac)
        children.zipIdx)).map fun found => (found.1, inOrder children.length found.2)

end Schedule

namespace Condition

mutual

/-- What a condition comes to, unless it fails; `follow` says it of the targets of references. -/
def reckonWith (outlook : Outlook) (follow : Condition → Option ConditionResult) :
    Condition → Option ConditionResult
  | .all children name priority =>
      (Schedule.reckon .all outlook.almanac (reckonEach outlook follow children)).map fun found =>
        .all ⟨some found.1, some priority, name, none⟩ found.2
  | .any children name priority =>
      (Schedule.reckon .any outlook.almanac (reckonEach outlook follow children)).map fun found =>
        .any ⟨some found.1, some priority, name, none⟩ found.2
  | .not child name priority =>
      (child.reckonWith outlook follow).map fun result =>
        .not ⟨some (!result.holds), some priority, name, none⟩ result
  | .never name => some (.never ⟨some false, some Priority.first, name, none⟩)
  | .reference target name priority =>
      match outlook.named.find? (.str target) with
      | some condition => (follow condition).map (ConditionResult.referred target name)
      | none =>
          if outlook.almanac.allowUndefinedConditions then
            some (.reference ⟨some false, priority, name, some target⟩)
          else none
  | .comparison leaf name priority =>
      let shown := Condition.priority? outlook.almanac (.comparison leaf name priority)
      (outlook.compare leaf).map fun found =>
        .comparison ⟨some found.1, shown, name, none⟩ leaf (some found.2)

/-- Conditions with what they come to. -/
def reckonEach (outlook : Outlook) (follow : Condition → Option ConditionResult) :
    List Condition → List Prospect
  | [] => []
  | condition :: rest =>
      (condition, condition.reckonWith outlook follow) :: reckonEach outlook follow rest

end

/-- What a condition comes to, where references inside references are followed at most `depth`
deep. -/
def reckonIn (outlook : Outlook) : (depth : Nat) → Condition → Option ConditionResult
  | 0 => reckonWith outlook fun _ => none
  | depth + 1 => reckonWith outlook (reckonIn outlook depth)

theorem reckonEach_eq_map (outlook : Outlook) (follow : Condition → Option ConditionResult)
    (children : List Condition) : reckonEach outlook follow children =
      children.map fun child => (child, child.reckonWith outlook follow) := by
  induction children with
  | nil => rfl
  | cons child rest ih => rw [reckonEach, ih, List.map_cons]

end Condition

/-! ### Children side by side -/

namespace Schedule

variable {σ : Type} {worth : Condition → Option ConditionResult} {rank : Nat}

/-- A child of a combinator, with what it comes to in place of the step. -/
def prospect (worth : Condition → Option ConditionResult) (branch : Branch σ) : Prospect :=
  (branch.condition, worth branch.condition)

/-- The results of a batch are all of its outcomes, if none of these is a failure. -/
theorem toOption_allOk {batch : Batch σ} {outcomes : List (Except Error ConditionResult)}
    (h : List.Forall₂ (fun entry (outcome : Except Error ConditionResult) =>
      outcome.toOption = worth entry.1.condition) batch outcomes) :
    (allOk outcomes).toOption.map (fun results => results.zip (batch.map (·.2))) =
      (batch.map (Prod.map (prospect worth) id)).mapM fun entry =>
        entry.1.2.map fun result => (result, entry.2) := by
  induction h with
  | nil => rfl
  | @cons entry outcome batch outcomes hentry _ ih =>
      rw [List.map_cons, List.map_cons, List.mapM_cons, ← ih]
      cases outcome with
      | error e =>
          have hworth : (prospect worth entry.1).2 = none := hentry.symm
          rw [Prod.map_fst, hworth]
          rfl
      | ok result =>
          have hworth : (prospect worth entry.1).2 = some result := hentry.symm
          rw [Prod.map_fst, hworth, allOk]
          cases allOk outcomes <;> rfl

theorem comes_runBatch {inv : List Task → σ → Prop} (hopen : Open inv) {batch : Batch σ}
    (h : ∀ entry ∈ batch, Comes inv rank entry.1.run (·.toOption = worth entry.1.condition)) :
    Comes inv (rank + 1) (runBatch batch) (·.toOption = (batch.map (Prod.map (prospect worth) id)).mapM
      fun entry => entry.1.2.map fun result => (result, entry.2)) := by
  refine (Comes.each hopen h).bind (fun outcomes houtcomes => ?_)
    fun _ ⟨_, hwrong, _⟩ => nomatch hwrong
  obtain ⟨_, heq, hall⟩ := houtcomes
  obtain rfl := Except.ok.inj heq
  rw [← toOption_allOk hall]
  cases allOk outcomes with
  | ok results => exact .outcome rfl
  | error e => exact .outcome rfl

variable [HasSession σ] {inv : List Task → σ → Prop} {almanac : Almanac}

theorem comes_skipEach (hsteady : Steady inv almanac) (batch : Batch σ) :
    Comes inv rank (skipEach batch)
      (· = .ok (batch.map fun entry => (entry.1.condition.skip, entry.2))) := by
  induction batch with
  | nil => exact .outcome rfl
  | cons entry batch ih =>
      obtain ⟨branch, place⟩ := entry
      exact (hsteady.comes_count rfl _).bind_ok (ih.bind_ok (.outcome rfl))

theorem comes_runBatches (hsteady : Steady inv almanac) (join : Join)
    {batches : List (Batch σ)} (h : ∀ batch ∈ batches, ∀ entry ∈ batch,
      Comes inv rank entry.1.run (·.toOption = worth entry.1.condition)) :
    Comes inv (rank + 1) (runBatches join batches)
      (·.toOption =
        reckonBatches join (batches.map (List.map (Prod.map (prospect worth) id)))) := by
  induction batches with
  | nil => exact .outcome rfl
  | cons batch batches ih =>
      obtain ⟨hbatch, hbatches⟩ := List.forall_mem_cons.1 h
      rw [List.map_cons, reckonBatches]
      refine (comes_runBatch hsteady.opens hbatch).bind_toOption fun results _ => ?_
      dsimp only
      split
      · refine (comes_skipEach hsteady batches.flatten).bind_ok (.outcome ?_)
        rw [← List.map_flatten, List.map_map]
        rfl
      · exact (ih hbatches).map_toOption fun found => (found.1, results ++ found.2)

omit [HasSession σ] in
theorem reckon_of_several (join : Join) (almanac : Almanac) {branches : List (Branch σ)}
    (hnil : branches ≠ []) (hone : ∀ branch, branches ≠ [branch]) :
    reckon join almanac (branches.map (prospect worth)) =
      (reckonBatches join ((batches almanac branches).map
        (List.map (Prod.map (prospect worth) id)))).map
          fun found => (found.1, inOrder branches.length found.2) := by
  have hbatches : batchesBy (fun entry : Prospect × Nat => entry.1.1.effectivePriority almanac)
      (branches.map (prospect worth)).zipIdx =
        (batches almanac branches).map (List.map (Prod.map (prospect worth) id)) := by
    rw [List.zipIdx_map]
    exact batchesBy_map (Prod.map (prospect worth) id) branches.zipIdx
  cases branches with
  | nil => exact absurd rfl hnil
  | cons first others =>
      cases others with
      | nil => exact absurd rfl (hone first)
      | cons second others =>
          rw [← hbatches, ← List.length_map (prospect worth)]
          rfl

/-- The children of a combinator come to what is reckoned for them. -/
theorem comes_run (hsteady : Steady inv almanac) (join : Join) {branches : List (Branch σ)}
    (h : ∀ branch ∈ branches,
      Comes inv rank branch.run (·.toOption = worth branch.condition)) :
    Comes inv (rank + 1) (run join branches)
      (·.toOption = reckon join almanac (branches.map (prospect worth))) := by
  unfold run
  split
  · exact .outcome rfl
  · next branch =>
      exact ((h branch List.mem_cons_self).raise (Nat.le_succ rank)).map_toOption
        fun result => (result.holds, [result])
  · next hnil hone =>
      rw [reckon_of_several join almanac hnil hone]
      refine comes_current_bind fun tasks seen hseen => ?_
      dsimp only
      rw [batches_congr (hsteady.facts tasks seen hseen)]
      refine (comes_runBatches hsteady join fun batch hbatch entry hentry => ?_).map_toOption
        fun found => (found.1, inOrder branches.length found.2)
      exact h entry.1 (mem_of_mem_batch hbatch hentry)

end Schedule

/-! ### Conditions -/

namespace Condition

variable {σ : Type} [HasSession σ] {inv : List Task → σ → Prop} {named : Table Value Condition}
  {meaning : Meaning σ} {outlook : Outlook} {follow : Condition → Eval σ ConditionResult}
  {worth : Condition → Option ConditionResult} {rank : Nat}

/-- Names and priorities are what the outlook says, to whoever keeps what holds of the tasks and the
world. -/
structure Foreseen (inv : List Task → σ → Prop) (meaning : Meaning σ) (outlook : Outlook) :
    Prop where
  steady : Steady inv outlook.almanac
  named : ∀ tasks world, inv tasks world → meaning.named world = outlook.named

theorem branches_prospects (meaning : Meaning σ) (outlook : Outlook)
    (follow : Condition → Eval σ ConditionResult) (worth : Condition → Option ConditionResult)
    (children : List Condition) :
    (branches meaning follow children).map (Schedule.prospect (reckonWith outlook worth)) =
      reckonEach outlook worth children := by
  rw [branches_eq_map, reckonEach_eq_map, List.map_map]
  rfl

/-- The children of a combinator, given what each of them comes to. -/
theorem comes_children (h : Steady inv outlook.almanac) (join : Join)
    {children : List Condition} (hchildren : ∀ child ∈ children,
      Comes inv (rank + sizeOf child) (child.evaluateWith meaning follow)
        (·.toOption = child.reckonWith outlook worth)) :
    Comes inv (rank + sizeOf children + 1)
      (Schedule.run join (branches meaning follow children))
      (·.toOption = Schedule.reckon join outlook.almanac (reckonEach outlook worth children)) := by
  rw [← branches_prospects meaning outlook follow worth]
  refine Schedule.comes_run h join fun branch hbranch => ?_
  rw [branches_eq_map] at hbranch
  obtain ⟨child, hchild, rfl⟩ := List.mem_map.1 hbranch
  exact (hchildren child hchild).raise
    (Nat.add_le_add_left (Nat.le_of_lt (List.sizeOf_lt_of_mem hchild)) rank)

theorem comes_reference (h : Foreseen inv meaning outlook) {target : String}
    (name : Option String) (priority : Option Priority)
    (hfollow : ∀ condition, outlook.named.find? (.str target) = some condition →
      Comes inv rank (follow condition)
        (·.toOption = worth condition)) :
    Comes inv rank
      ((Condition.reference target name priority).evaluateWith meaning follow)
      (·.toOption = (Condition.reference target name priority).reckonWith outlook worth) := by
  rw [evaluateWith, reckonWith]
  refine (h.steady.comes_count rfl _).bind_ok (Comes.get_bind fun tasks seen hseen => ?_)
  dsimp only
  rw [h.named tasks seen hseen]
  cases hfound : outlook.named.find? (.str target) with
  | some condition =>
      exact (hfollow condition hfound).map_toOption (ConditionResult.referred target name)
  | none =>
      refine comes_current_bind fun tasks now hnow => ?_
      dsimp only
      rw [h.steady.lenient tasks now hnow]
      split
      · exact .outcome rfl
      · split
        · exact .throw rfl
        · exact .throw rfl

/-- An evaluation that goes on with `follow` where a reference leads, given what the comparisons and
the references in the condition come to.  It waits as far as these do, and further for each combinator
around them. -/
theorem comes_evaluateWith (h : Steady inv outlook.almanac) (condition : Condition)
    (hcompare : ∀ leaf name priority, .comparison leaf name priority ∈ condition.parts →
      Comes inv rank (meaning.compare leaf) (·.toOption = outlook.compare leaf))
    (hrefer : ∀ target name priority, .reference target name priority ∈ condition.parts →
      Comes inv rank ((Condition.reference target name priority).evaluateWith meaning follow)
        (·.toOption = (Condition.reference target name priority).reckonWith outlook worth)) :
    Comes inv (rank + sizeOf condition) (condition.evaluateWith meaning follow)
      (·.toOption = condition.reckonWith outlook worth) := by
  induction condition with
  | all children name priority ih =>
      rw [evaluateWith, reckonWith]
      have hsize : rank + sizeOf children + 1 ≤
          rank + sizeOf (Condition.all children name priority) := by
        rw [Condition.all.sizeOf_spec]
        omega
      refine (h.comes_count rfl _).bind_ok
        (((comes_children h .all fun child hchild => ?_).raise hsize).map_toOption
          fun found => ConditionResult.all ⟨some found.1, some priority, name, none⟩ found.2)
      have hpart : ∀ part ∈ child.parts, part ∈ partsEach children :=
        fun part hmem => mem_partsEach.2 ⟨child, hchild, hmem⟩
      exact ih child hchild
        (fun leaf name priority hleaf => hcompare leaf name priority (.tail _ (hpart _ hleaf)))
        fun target name priority htarget => hrefer target name priority (.tail _ (hpart _ htarget))
  | any children name priority ih =>
      rw [evaluateWith, reckonWith]
      have hsize : rank + sizeOf children + 1 ≤
          rank + sizeOf (Condition.any children name priority) := by
        rw [Condition.any.sizeOf_spec]
        omega
      refine (h.comes_count rfl _).bind_ok
        (((comes_children h .any fun child hchild => ?_).raise hsize).map_toOption
          fun found => ConditionResult.any ⟨some found.1, some priority, name, none⟩ found.2)
      have hpart : ∀ part ∈ child.parts, part ∈ partsEach children :=
        fun part hmem => mem_partsEach.2 ⟨child, hchild, hmem⟩
      exact ih child hchild
        (fun leaf name priority hleaf => hcompare leaf name priority (.tail _ (hpart _ hleaf)))
        fun target name priority htarget => hrefer target name priority (.tail _ (hpart _ htarget))
  | not child name priority ih =>
      rw [evaluateWith, reckonWith]
      have hsize : sizeOf child ≤ sizeOf (Condition.not child name priority) := by
        rw [Condition.not.sizeOf_spec]
        omega
      refine (h.comes_count rfl _).bind_ok (((ih ?_ ?_).raise
        (Nat.add_le_add_left hsize rank)).map_toOption
        fun result => ConditionResult.not ⟨some (!result.holds), some priority, name, none⟩ result)
      · exact fun leaf name priority hleaf => hcompare leaf name priority (.tail _ hleaf)
      · exact fun target name priority htarget => hrefer target name priority (.tail _ htarget)
  | never name =>
      rw [evaluateWith, reckonWith]
      exact (h.comes_count rfl _).bind_ok (.outcome rfl)
  | reference target name priority =>
      exact (hrefer target name priority List.mem_cons_self).raise (Nat.le_add_right _ _)
  | comparison leaf name priority =>
      rw [evaluateWith, reckonWith, Option.map_eq_bind]
      refine (h.comes_count rfl _).bind_ok
        (((hcompare leaf name priority List.mem_cons_self).raise
          (Nat.le_add_right _ _)).bind_toOption fun found _ => ?_)
      refine comes_current_bind fun tasks now hnow => .outcome ?_
      rw [priority?_congr (h.facts tasks now hnow)]
      rfl

/-- Whatever goes on besides, a condition comes to what is reckoned for it. -/
theorem comes_evaluateIn (h : Foreseen inv meaning outlook)
    {condition : Condition}
    (hcompare : ∀ leaf name priority,
      Meets outlook.named condition (.comparison leaf name priority) →
        Comes inv rank (meaning.compare leaf)
          (·.toOption = outlook.compare leaf)) (depth : Nat) :
    Comes inv (rank + depth * sizeOf outlook.named + sizeOf condition)
      (condition.evaluateIn meaning depth)
      (·.toOption = condition.reckonIn outlook depth) := by
  induction depth generalizing condition with
  | zero =>
      rw [Nat.zero_mul]
      exact comes_evaluateWith h.steady condition
        (fun leaf name priority hpart => hcompare leaf name priority (meets_of_mem_parts hpart))
        fun _ name priority _ => comes_reference h name priority fun _ _ => .throw rfl
  | succ depth ih =>
      refine comes_evaluateWith h.steady condition
        (fun leaf name priority hpart =>
          (hcompare leaf name priority (meets_of_mem_parts hpart)).raise (Nat.le_add_right _ _))
        fun target name priority hpart => comes_reference h name priority fun found hfound => ?_
      have hmeets : Meets outlook.named condition found :=
        .tail (meets_of_mem_parts hpart) (.reference name priority hfound)
      refine (ih fun leaf name priority hleaf =>
        hcompare leaf name priority (hmeets.trans hleaf)).raise ?_
      obtain ⟨key, _, hmem⟩ := Table.exists_mem_of_find? hfound
      have hentry := List.sizeOf_lt_of_mem hmem
      rw [Prod.mk.sizeOf_spec] at hentry
      rw [Nat.succ_mul]
      omega

end Condition

namespace Reckoning

/-- Sessions that agree with a reckoning keep facts and their priorities. -/
theorem steady_shared {σ : Type} [HasSession σ] {reckoning : Reckoning} {start : Session}
    {rest : σ → Prop} (hrest : SessionFree rest) :
    Steady (shared reckoning start rest) start.almanac where
  opens := open_shared
  counts _ _ _ _ _ h := shared_withSession hrest (h.1.aside rfl rfl) h.2
  facts _ _ h := by rw [h.1.almanac]
  lenient _ _ h := by rw [h.1.almanac]

end Reckoning

end Rulebook
