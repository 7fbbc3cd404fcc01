import Rulebook.Condition.Evaluate
import Rulebook.Proofs.Condition.Induction
import Rulebook.Proofs.Condition.Schedule

/-!
The trail that an evaluation leaves.

`Trail` relates a condition with the results that evaluating or skipping it may have, node by node,
and `Blames` relates it with the failures that evaluating it may have.  Neither of them mentions
priorities, turns or batches.  `ensures_evaluateIn` says that an evaluation has no other outcomes.
-/

namespace Rulebook.Condition

open Session Eval Strand

/-- What the parts of a condition stand for: the names in references, whether a name may stand for
nothing, and what a comparison may come to. -/
structure Reading where
  named : Table Value Condition
  lenient : Bool
  compares : Leaf → Except Error (Bool × Sides) → Prop

/-- The result is one of evaluating or of skipping the condition. -/
inductive Trail (reading : Reading) : Condition → ConditionResult → Prop where
  | skipped (condition : Condition) : Trail reading condition condition.skip
  | all {children : List Condition} {results : List ConditionResult} {verdict : Bool}
      (name : Option String) (priority : Priority) (length : children.length = results.length)
      (each : ∀ (place : Nat) (child : Condition) (result : ConditionResult),
        children[place]? = some child → results[place]? = some result → Trail reading child result)
      (joined : Schedule.Joined .all verdict results) :
      Trail reading (.all children name priority)
        (.all ⟨some verdict, some priority, name, none⟩ results)
  | any {children : List Condition} {results : List ConditionResult} {verdict : Bool}
      (name : Option String) (priority : Priority) (length : children.length = results.length)
      (each : ∀ (place : Nat) (child : Condition) (result : ConditionResult),
        children[place]? = some child → results[place]? = some result → Trail reading child result)
      (joined : Schedule.Joined .any verdict results) :
      Trail reading (.any children name priority)
        (.any ⟨some verdict, some priority, name, none⟩ results)
  | not {child : Condition} {result : ConditionResult} (name : Option String) (priority : Priority)
      (evaluated : result.isSkipped = false) (trail : Trail reading child result) :
      Trail reading (.not child name priority)
        (.not ⟨some (!result.holds), some priority, name, none⟩ result)
  | never (name : Option String) :
      Trail reading (.never name) (.never ⟨some false, some Priority.first, name, none⟩)
  | reference {target : String} {condition : Condition} {result : ConditionResult}
      (name : Option String) (priority : Option Priority)
      (found : reading.named.find? (.str target) = some condition)
      (evaluated : result.isSkipped = false) (trail : Trail reading condition result) :
      Trail reading (.reference target name priority)
        (result.withHead ⟨result.head.verdict, result.head.priority,
          (name.filter fun own => !own.isEmpty).or result.head.name, some target⟩)
  | undefined {target : String} (name : Option String) (priority : Option Priority)
      (missing : reading.named.find? (.str target) = none) (lenient : reading.lenient = true) :
      Trail reading (.reference target name priority)
        (.reference ⟨some false, priority, name, some target⟩)
  | comparison {leaf : Leaf} {verdict : Bool} {sides : Sides} {priority shown : Option Priority}
      (name : Option String) (compared : reading.compares leaf (.ok (verdict, sides)))
      (own : ∀ level, priority = some level → shown = some level) :
      Trail reading (.comparison leaf name priority)
        (.comparison ⟨some verdict, shown, name, none⟩ leaf (some sides))

/-- The failure is one that evaluating the condition may have, if references inside references are
followed so deep. -/
inductive Blames (reading : Reading) : Nat → Condition → Error → Prop where
  | all {depth : Nat} {children : List Condition} {child : Condition} {e : Error}
      (name : Option String) (priority : Priority) (mem : child ∈ children)
      (blames : Blames reading depth child e) :
      Blames reading depth (.all children name priority) e
  | any {depth : Nat} {children : List Condition} {child : Condition} {e : Error}
      (name : Option String) (priority : Priority) (mem : child ∈ children)
      (blames : Blames reading depth child e) :
      Blames reading depth (.any children name priority) e
  | not {depth : Nat} {child : Condition} {e : Error} (name : Option String) (priority : Priority)
      (blames : Blames reading depth child e) : Blames reading depth (.not child name priority) e
  | missing (depth : Nat) (target : String) (name : Option String) (priority : Option Priority)
      (strict : reading.lenient = false) (none : reading.named.isEmpty = true) :
      Blames reading depth (.reference target name priority) (.missingConditionMap target)
  | undefined (depth : Nat) {target : String} (name : Option String) (priority : Option Priority)
      (strict : reading.lenient = false) (missing : reading.named.find? (.str target) = none) :
      Blames reading depth (.reference target name priority) (.undefinedCondition target)
  | exhausted {target : String} {condition : Condition} (name : Option String)
      (priority : Option Priority) (found : reading.named.find? (.str target) = some condition) :
      Blames reading 0 (.reference target name priority) .exhausted
  | reference {depth : Nat} {target : String} {condition : Condition} {e : Error}
      (name : Option String) (priority : Option Priority)
      (found : reading.named.find? (.str target) = some condition)
      (blames : Blames reading depth condition e) :
      Blames reading (depth + 1) (.reference target name priority) e
  | comparison (depth : Nat) {leaf : Leaf} {e : Error} (name : Option String)
      (priority : Option Priority) (failed : reading.compares leaf (.error e)) :
      Blames reading depth (.comparison leaf name priority) e

theorem verdict_skip (condition : Condition) : condition.skip.head.verdict = none := by
  cases condition <;> rfl

section Places

variable {α : Type} {children : List Condition} {results : List α}
  {related : Condition → α → Prop}

/-- Every result belongs to a child. -/
theorem exists_child_of_mem (hlength : children.length = results.length)
    (h : ∀ (place : Nat) (child : Condition) (result : α),
      children[place]? = some child → results[place]? = some result → related child result)
    {result : α} (hresult : result ∈ results) :
    ∃ child ∈ children, related child result := by
  obtain ⟨place, hplace, rfl⟩ := List.mem_iff_getElem.1 hresult
  have hchild : place < children.length := hlength ▸ hplace
  exact ⟨children[place], List.getElem_mem hchild,
    h place _ _ (List.getElem?_eq_getElem hchild) (List.getElem?_eq_getElem hplace)⟩

/-- Every child has a result. -/
theorem exists_result_of_mem (hlength : children.length = results.length)
    (h : ∀ (place : Nat) (child : Condition) (result : α),
      children[place]? = some child → results[place]? = some result → related child result)
    {child : Condition} (hchild : child ∈ children) :
    ∃ result ∈ results, related child result := by
  obtain ⟨place, hplace, rfl⟩ := List.mem_iff_getElem.1 hchild
  have hresult : place < results.length := hlength ▸ hplace
  exact ⟨results[place], List.getElem_mem hresult,
    h place _ _ (List.getElem?_eq_getElem hplace) (List.getElem?_eq_getElem hresult)⟩

end Places

/-- What evaluating a condition may come to: a result with its trail, or a failure of some kind. -/
def Outcome (reading : Reading) (fails : Error → Prop) (condition : Condition) :
    Except Error ConditionResult → Prop
  | .ok result => result.isSkipped = false ∧ Trail reading condition result
  | .error e => fails e

/-- What evaluating the children of a combinator may come to. -/
def ChildrenOutcome (reading : Reading) (depth : Nat) (join : Join) (children : List Condition) :
    Except Error (Bool × List ConditionResult) → Prop
  | .ok (verdict, results) =>
      children.length = results.length ∧
        (∀ (place : Nat) (child : Condition) (result : ConditionResult),
          children[place]? = some child → results[place]? = some result →
            Trail reading child result) ∧
        Schedule.Joined join verdict results
  | .error e => ∃ child ∈ children, Blames reading depth child e

/-! ### Evaluation -/

/-- Steps none of which waits for ever do not wait for ever together. -/
theorem exists_waits {σ α : Type} {inv : Invariant σ Ending} {rank : ℕ∞} {items : List α}
    {make : α → Eval σ ConditionResult} {post : α → Except Error ConditionResult → Prop}
    (h : ∀ item ∈ items, ∃ waits : ℕ, Ensures inv (rank + waits) (make item) (post item)) :
    ∃ waits : ℕ, ∀ item ∈ items, Ensures inv (rank + waits) (make item) (post item) := by
  induction items with
  | nil => exact ⟨0, fun item hitem => nomatch hitem⟩
  | cons item rest ih =>
      obtain ⟨first, hfirst⟩ := h item List.mem_cons_self
      obtain ⟨others, hothers⟩ := ih fun other hother => h other (List.mem_cons_of_mem _ hother)
      refine ⟨first + others, fun other hother => ?_⟩
      rcases List.mem_cons.1 hother with rfl | hrest
      · exact hfirst.raise (by gcongr; exact le_self_add)
      · exact (hothers other hrest).raise (by gcongr; exact le_add_self)

variable {σ : Type} [HasSession σ]

/-- Whatever goes on in the world, conditions mean what the reading says. -/
structure Reads (inv : Invariant σ Ending) (rank : ℕ∞) (meaning : Meaning σ) (reading : Reading) :
    Prop where
  tallyFree : TallyFree inv
  named : ∀ pledges world, inv pledges world → meaning.named world = reading.named
  lenient : ∀ pledges world, inv pledges world →
    (HasSession.session world).almanac.allowUndefinedConditions = reading.lenient
  compare : ∀ leaf, Ensures inv rank (meaning.compare leaf) (reading.compares leaf)

theorem branches_eq_map (meaning : Meaning σ) (follow : Condition → Eval σ ConditionResult)
    (children : List Condition) :
    branches meaning follow children =
      children.map fun child => ⟨child, child.evaluateWith meaning follow⟩ := by
  induction children with
  | nil => rfl
  | cons child rest ih => rw [branches, ih, List.map_cons]

variable {inv : Invariant σ Ending} {rank : ℕ∞} {meaning : Meaning σ} {reading : Reading}
  {follow : Condition → Eval σ ConditionResult} {depth : Nat}

theorem childrenOutcome_of_ran {join : Join} {children : List Condition}
    {result : Except Error (Bool × List ConditionResult)}
    (h : Schedule.Ran (fun branch => Outcome reading (Blames reading depth branch.condition)
      branch.condition) join (branches meaning follow children) result) :
    ChildrenOutcome reading depth join children result := by
  rw [branches_eq_map] at h
  cases result with
  | error e =>
      obtain ⟨branch, hbranch, hblames⟩ := h
      obtain ⟨child, hchild, rfl⟩ := List.mem_map.1 hbranch
      exact ⟨child, hchild, hblames⟩
  | ok found =>
      obtain ⟨hfits, hjoined⟩ := h
      rw [List.forall₂_map_left_iff] at hfits
      refine ⟨hfits.length_eq, fun place child result hchild hresult => ?_, hjoined⟩
      obtain ⟨hplace, rfl⟩ := List.getElem?_eq_some_iff.1 hchild
      obtain ⟨hplace', rfl⟩ := List.getElem?_eq_some_iff.1 hresult
      rcases hfits.get hplace hplace' with ⟨_, htrail⟩ | hskip
      · exact htrail
      · rw [List.get_eq_getElem] at hskip
        rw [hskip]
        exact .skipped _

/-- The children of a combinator, given what each of them ensures. -/
theorem ensures_children (hreads : Reads inv rank meaning reading) (join : Join)
    {children : List Condition} {waits : ℕ∞}
    (h : ∀ child ∈ children, Ensures inv waits (child.evaluateWith meaning follow)
      (Outcome reading (Blames reading depth child) child)) :
    Ensures inv (waits + 1) (Schedule.run join (branches meaning follow children))
      (ChildrenOutcome reading depth join children) := by
  have hbranches : ∀ branch ∈ branches meaning follow children, Ensures inv waits branch.run
      (Outcome reading (Blames reading depth branch.condition) branch.condition) := by
    rw [branches_eq_map]
    intro branch hbranch
    obtain ⟨child, hchild, rfl⟩ := List.mem_map.1 hbranch
    exact h child hchild
  exact (Schedule.ensures_run hreads.tallyFree join (fun _ _ houtcome => houtcome.1) hbranches).imp
    fun _ => childrenOutcome_of_ran

theorem head_withHead (head : ResultHead) (result : ConditionResult) :
    (result.withHead head).head = head := by
  cases result <;> rfl

/-- The result of a reference has the name of the reference, if that is one. -/
theorem referred_eq (target : String) (name : Option String) (result : ConditionResult) :
    result.referred target name = result.withHead ⟨result.head.verdict, result.head.priority,
      (name.filter fun own => !own.isEmpty).or result.head.name, some target⟩ := by
  unfold ConditionResult.referred ConditionResult.referredName
  cases name with
  | none => rfl
  | some own => cases h : own.isEmpty <;> simp [Option.filter, h]

theorem ensures_reference (hreads : Reads inv rank meaning reading) {target : String}
    (name : Option String) (priority : Option Priority) {waits : ℕ∞}
    (hfollow : ∀ condition, reading.named.find? (.str target) = some condition →
      Ensures inv waits (follow condition) (Outcome reading
        (Blames reading depth (.reference target name priority)) condition)) :
    Ensures inv waits ((Condition.reference target name priority).evaluateWith meaning follow)
      (Outcome reading (Blames reading depth (.reference target name priority))
        (.reference target name priority)) := by
  rw [evaluateWith]
  apply ensures_count_bind hreads.tallyFree rfl
  apply Ensures.get_bind _ hreads.named
  intro world hnamed
  simp only [hnamed]
  split
  · next condition hfound =>
      refine (hfollow condition hfound).bind (fun result hresult => ?_) fun e he => he
      refine Ensures.pure ⟨?_, ?_⟩ <;> rw [referred_eq]
      · rw [ConditionResult.isSkipped, head_withHead]
        exact hresult.1
      · exact .reference name priority hfound hresult.1 hresult.2
  · next hmissing =>
      refine ensures_current_bind
        (fun session => session.almanac.allowUndefinedConditions = reading.lenient)
        hreads.lenient fun session hlenient => ?_
      rw [hlenient]
      split
      · next h => exact Ensures.pure ⟨rfl, .undefined name priority hmissing h⟩
      · next h =>
          have hstrict := Bool.eq_false_of_not_eq_true h
          split
          · next hempty => exact Ensures.throw (.missing depth target name priority hstrict hempty)
          · exact Ensures.throw (.undefined depth name priority hstrict hmissing)

theorem ensures_comparison (hreads : Reads inv rank meaning reading) (leaf : Leaf)
    (name : Option String) (priority : Option Priority) :
    Ensures inv rank ((Condition.comparison leaf name priority).evaluateWith meaning follow)
      (Outcome reading (Blames reading depth (.comparison leaf name priority))
        (.comparison leaf name priority)) := by
  rw [evaluateWith]
  apply ensures_count_bind hreads.tallyFree rfl
  refine (hreads.compare leaf).bind (fun found hfound => ?_) fun e he =>
    .comparison depth name priority he
  refine ensures_current_bind (fun _ => True) (fun _ _ _ => trivial) fun session _ => ?_
  refine Ensures.pure ⟨rfl, .comparison name hfound fun level hlevel => ?_⟩
  rw [hlevel]
  rfl

/-- A combinator, given what each of its children ensures. -/
theorem ensures_combinator (hreads : Reads inv rank meaning reading) (join : Join)
    {children : List Condition} {waits : ℕ∞} {label : String} {condition : Condition}
    {make : Bool → List ConditionResult → ConditionResult}
    (h : ∀ child ∈ children, Ensures inv waits (child.evaluateWith meaning follow)
      (Outcome reading (Blames reading depth child) child))
    (hmake : ∀ verdict results,
      ChildrenOutcome reading depth join children (.ok (verdict, results)) →
        (make verdict results).isSkipped = false ∧ Trail reading condition (make verdict results))
    (hblames : ∀ child ∈ children, ∀ e, Blames reading depth child e →
      Blames reading depth condition e) :
    Ensures inv (waits + 1) (do
        count .evaluations label
        let (verdict, results) ← Schedule.run join (branches meaning follow children)
        return make verdict results)
      (Outcome reading (Blames reading depth condition) condition) := by
  apply ensures_count_bind hreads.tallyFree rfl
  apply (ensures_children hreads join h).bind
  · intro found hfound
    exact Ensures.pure (hmake found.1 found.2 hfound)
  · intro e he
    obtain ⟨child, hchild, hblame⟩ := he
    exact hblames child hchild e hblame

/-- An evaluation that goes on with `follow` where a reference leads. -/
theorem ensures_evaluateWith (hreads : Reads inv rank meaning reading)
    (hfollow : ∀ target name priority condition,
      reading.named.find? (.str target) = some condition → ∃ waits : ℕ,
        Ensures inv (rank + waits) (follow condition) (Outcome reading
          (Blames reading depth (.reference target name priority)) condition))
    (condition : Condition) : ∃ waits : ℕ, Ensures inv (rank + waits)
      (condition.evaluateWith meaning follow)
      (Outcome reading (Blames reading depth condition) condition) := by
  induction condition with
  | all children name priority ih =>
      obtain ⟨waits, hchildren⟩ := exists_waits ih
      refine ⟨waits + 1, ?_⟩
      rw [evaluateWith, Nat.cast_add, Nat.cast_one, ← add_assoc]
      exact ensures_combinator hreads .all hchildren
        (fun verdict results h => ⟨rfl, .all name priority h.1 h.2.1 h.2.2⟩)
        fun child hchild e hblames => .all name priority hchild hblames
  | any children name priority ih =>
      obtain ⟨waits, hchildren⟩ := exists_waits ih
      refine ⟨waits + 1, ?_⟩
      rw [evaluateWith, Nat.cast_add, Nat.cast_one, ← add_assoc]
      exact ensures_combinator hreads .any hchildren
        (fun verdict results h => ⟨rfl, .any name priority h.1 h.2.1 h.2.2⟩)
        fun child hchild e hblames => .any name priority hchild hblames
  | not child name priority ih =>
      obtain ⟨waits, hchild⟩ := ih
      refine ⟨waits, ?_⟩
      rw [evaluateWith]
      apply ensures_count_bind hreads.tallyFree rfl
      apply hchild.bind
      · intro result hresult
        exact Ensures.pure ⟨rfl, .not name priority hresult.1 hresult.2⟩
      · intro e he
        exact .not name priority he
  | never name =>
      refine ⟨0, ?_⟩
      rw [evaluateWith]
      exact ensures_count_bind hreads.tallyFree rfl (Ensures.pure ⟨rfl, .never name⟩)
  | reference target name priority =>
      cases hfind : reading.named.find? (.str target) with
      | none =>
          refine ⟨0, ensures_reference hreads name priority fun condition hfound => ?_⟩
          rw [hfind] at hfound
          cases hfound
      | some condition =>
          obtain ⟨waits, hcondition⟩ := hfollow target name priority condition hfind
          refine ⟨waits, ensures_reference hreads name priority fun other hfound => ?_⟩
          rw [hfind, Option.some.injEq] at hfound
          exact hfound ▸ hcondition
  | comparison leaf name priority =>
      exact ⟨0, (ensures_comparison hreads leaf name priority).raise le_self_add⟩

/-- Evaluating a condition leaves its trail or fails as its parts do, and does not wait for ever
unless comparing does. -/
theorem ensures_evaluateIn (hreads : Reads inv rank meaning reading) (depth : Nat)
    (condition : Condition) : ∃ waits : ℕ, Ensures inv (rank + waits)
      (condition.evaluateIn meaning depth)
      (Outcome reading (Blames reading depth condition) condition) := by
  induction depth generalizing condition with
  | zero =>
      exact ensures_evaluateWith hreads (fun target name priority condition hfound =>
        ⟨0, Ensures.throw (.exhausted name priority hfound)⟩) condition
  | succ depth ih =>
      refine ensures_evaluateWith hreads (fun target name priority condition hfound => ?_) condition
      obtain ⟨waits, h⟩ := ih condition
      refine ⟨waits, h.imp fun result hresult => ?_⟩
      cases result with
      | ok result => exact hresult
      | error e => exact .reference name priority hfound hresult

end Rulebook.Condition
