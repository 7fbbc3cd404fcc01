import Rulebook.Proofs.Condition.Audit
import Rulebook.Proofs.Condition.Constant
import Rulebook.Proofs.Condition.Depth

/-!
A reference means what it names.

A condition that leads in no circle can be inlined: each reference gives way to what it names, which
is inlined itself, and one that names nothing gives way to `never` (`exists_inlines`).  References
are scheduled under priorities of their own, so that a condition and its inlining are evaluated in
different orders and skip different parts.  They have the same verdict all the same, and every
result of a reference has that of the inlining of its target (`verdict_of_inlines`).
-/

namespace Rulebook.Condition

open ConditionResult Eval Strand

variable {named other : Table Value Condition} {lenient : Bool} {outcome : Leaf → Option Bool}
  {condition tree : Condition} {verdict : Bool}

/-! ### Inlining -/

/-- The tree is the condition with each reference replaced by the inlining of what it names, or by
`never` if that is nothing. -/
inductive Inlines (named : Table Value Condition) : Condition → Condition → Prop where
  | all {children trees : List Condition} (name : Option String) (priority : Priority)
      (length : children.length = trees.length)
      (each : ∀ (place : Nat) (child tree : Condition),
        children[place]? = some child → trees[place]? = some tree → Inlines named child tree) :
      Inlines named (.all children name priority) (.all trees name priority)
  | any {children trees : List Condition} (name : Option String) (priority : Priority)
      (length : children.length = trees.length)
      (each : ∀ (place : Nat) (child tree : Condition),
        children[place]? = some child → trees[place]? = some tree → Inlines named child tree) :
      Inlines named (.any children name priority) (.any trees name priority)
  | not {child tree : Condition} (name : Option String) (priority : Priority)
      (one : Inlines named child tree) :
      Inlines named (.not child name priority) (.not tree name priority)
  | never (name : Option String) : Inlines named (.never name) (.never name)
  | reference {target : String} {condition tree : Condition} (name : Option String)
      (priority : Option Priority) (found : named.find? (.str target) = some condition)
      (one : Inlines named condition tree) : Inlines named (.reference target name priority) tree
  | undefined {target : String} (name : Option String) (priority : Option Priority)
      (missing : named.find? (.str target) = none) :
      Inlines named (.reference target name priority) (.never none)
  | comparison (leaf : Leaf) (name : Option String) (priority : Option Priority) :
      Inlines named (.comparison leaf name priority) (.comparison leaf name priority)

/-- Neither the name nor the priority of a reference matters to what it is inlined to. -/
theorem Inlines.renamed {target : String} {name name' : Option String}
    {priority priority' : Option Priority} (h : Inlines named (.reference target name priority) tree) :
    Inlines named (.reference target name' priority') tree := by
  cases h with
  | reference _ _ hfound hone => exact .reference name' priority' hfound hone
  | undefined _ _ hmissing => exact .undefined name' priority' hmissing

/-- Children that can be inlined can be inlined together. -/
theorem exists_trees {children : List Condition}
    (h : ∀ child ∈ children, ∃ tree, Inlines named child tree) :
    ∃ trees : List Condition, children.length = trees.length ∧
      ∀ (place : Nat) (child tree : Condition),
        children[place]? = some child → trees[place]? = some tree → Inlines named child tree := by
  choose! inlined hinlined using h
  refine ⟨children.map inlined, by simp, fun place child tree hchild htree => ?_⟩
  rw [List.getElem?_map, hchild, Option.map_some, Option.some.injEq] at htree
  exact htree ▸ hinlined child (List.mem_of_getElem? hchild)

/-- Where nothing leads in a circle, everything can be inlined. -/
theorem exists_inlines (h : Acyclic named condition) : ∃ tree, Inlines named condition tree := by
  have hmet : ∀ met : {met // Meets named condition met}, ∃ tree, Inlines named met.1 tree := by
    intro met
    induction met using (wellFounded_leads h).induction with
    | h met ih =>
        have hnext : ∀ next, Leads named met.1 next → ∃ tree, Inlines named next tree :=
          fun next hleads => ih ⟨next, met.2.tail hleads⟩ (.single hleads)
        obtain ⟨met, _⟩ := met
        cases met with
        | all children name priority =>
            obtain ⟨trees, hlength, heach⟩ :=
              exists_trees fun child hchild => hnext child (.all name priority hchild)
            exact ⟨_, .all name priority hlength heach⟩
        | any children name priority =>
            obtain ⟨trees, hlength, heach⟩ :=
              exists_trees fun child hchild => hnext child (.any name priority hchild)
            exact ⟨_, .any name priority hlength heach⟩
        | not child name priority =>
            obtain ⟨tree, htree⟩ := hnext child (.not child name priority)
            exact ⟨_, .not name priority htree⟩
        | never name => exact ⟨_, .never name⟩
        | reference target name priority =>
            cases hfound : named.find? (.str target) with
            | none => exact ⟨_, .undefined name priority hfound⟩
            | some found =>
                obtain ⟨tree, htree⟩ := hnext found (.reference name priority hfound)
                exact ⟨tree, .reference name priority hfound htree⟩
        | comparison leaf name priority => exact ⟨_, .comparison leaf name priority⟩
  exact hmet ⟨condition, .refl⟩

/-- What a condition is determined to be, its inlining is as well, whatever names stand for there. -/
theorem Inlines.determined (h : Inlines named condition tree)
    (hverdict : Determined named outcome condition verdict) :
    Determined other outcome tree verdict := by
  induction h generalizing verdict with
  | all name priority hlength _ ih =>
      have hsame := fun place child tree hchild htree verdict =>
        @ih place child tree hchild htree verdict
      cases hverdict with
      | allTrue _ _ heach =>
          apply Determined.allTrue name priority
          intro tree htree
          obtain ⟨child, hchild, hgoes⟩ := exists_child_of_mem hlength hsame htree
          exact hgoes true (heach child hchild)
      | allFalse _ _ hmem hone =>
          obtain ⟨tree, htree, hgoes⟩ := exists_result_of_mem hlength hsame hmem
          exact .allFalse name priority htree (hgoes false hone)
  | any name priority hlength _ ih =>
      have hsame := fun place child tree hchild htree verdict =>
        @ih place child tree hchild htree verdict
      cases hverdict with
      | anyNone _ _ =>
          obtain rfl := List.eq_nil_of_length_eq_zero hlength.symm
          exact .anyNone name priority
      | anyTrue _ _ hmem hone =>
          obtain ⟨tree, htree, hgoes⟩ := exists_result_of_mem hlength hsame hmem
          exact .anyTrue name priority htree (hgoes true hone)
      | anyFalse _ _ hsome heach =>
          refine .anyFalse name priority ?_ fun tree htree => ?_
          · rintro rfl
            exact hsome (List.eq_nil_of_length_eq_zero hlength)
          · obtain ⟨child, hchild, hgoes⟩ := exists_child_of_mem hlength hsame htree
            exact hgoes false (heach child hchild)
  | not name priority _ ih =>
      cases hverdict with
      | not _ _ hone => exact .not name priority (ih hone)
  | never name =>
      cases hverdict
      exact .never name
  | reference name priority hfound _ ih =>
      cases hverdict with
      | reference _ _ hfound' hone =>
          obtain rfl := Option.some.inj (hfound.symm.trans hfound')
          exact ih hone
      | undefined _ _ hmissing => cases hfound.symm.trans hmissing
  | undefined name priority hmissing =>
      cases hverdict with
      | reference _ _ hfound _ => cases hfound.symm.trans hmissing
      | undefined => exact .never none
  | comparison leaf name priority =>
      cases hverdict with
      | comparison _ _ hcompared => exact .comparison name priority hcompared

/-! ### Nothing fails -/

/-- Every comparison that is met has an outcome, every reference that is met leads somewhere unless
it need not, and nothing leads in a circle. -/
structure Evaluable (named : Table Value Condition) (lenient : Bool) (outcome : Leaf → Option Bool)
    (condition : Condition) : Prop where
  compared : ∀ leaf name priority, Meets named condition (.comparison leaf name priority) →
    (outcome leaf).isSome = true
  resolves : lenient = true ∨ ∀ target name priority,
    Meets named condition (.reference target name priority) →
      (named.find? (.str target)).isSome = true
  acyclic : Acyclic named condition

theorem Evaluable.of_meets {met : Condition} (h : Evaluable named lenient outcome condition)
    (hmeets : Meets named condition met) : Evaluable named lenient outcome met where
  compared leaf name priority hleaf := h.compared leaf name priority (hmeets.trans hleaf)
  resolves := h.resolves.imp_right fun hdefined target name priority htarget =>
    hdefined target name priority (hmeets.trans htarget)
  acyclic := h.acyclic.of_meets hmeets

theorem Evaluable.of_leads {next : Condition} (h : Evaluable named lenient outcome condition)
    (hleads : Leads named condition next) : Evaluable named lenient outcome next :=
  h.of_meets (.single hleads)

/-- Where a name has to stand for something, it does. -/
theorem Evaluable.find?_ne_none {target : String} {name : Option String}
    {priority : Option Priority} (h : Evaluable named lenient outcome (.reference target name priority))
    (hstrict : lenient = false) : named.find? (.str target) ≠ none := by
  rcases h.resolves with hlenient | hdefined
  · cases hstrict.symm.trans hlenient
  · exact Option.isSome_iff_ne_none.1 (hdefined target name priority .refl)

/-- A comparison that has an outcome does not fail. -/
theorem not_compares_error {leaf : Leaf} {e : Error} (h : (outcome leaf).isSome = true) :
    ¬ (fixedReading named lenient outcome).compares leaf (.error e) := by
  intro hfailed
  have hnone : none = outcome leaf := hfailed
  rw [← hnone] at h
  cases h

/-- Following references as deep as there are names is enough not to fail. -/
theorem Evaluable.not_blames_of_covers {depth : Nat} {e : Error} {names : Finset String}
    (h : Evaluable named lenient outcome condition) (hcovers : Covers named condition names)
    (hdepth : names.card ≤ depth) :
    ¬ Blames (fixedReading named lenient outcome) depth condition e := by
  intro hblames
  induction hblames generalizing names with
  | all name priority hmem _ ih =>
      have hleads : Leads named _ _ := .all name priority hmem
      exact ih (h.of_leads hleads) (hcovers.of_meets (.single hleads)) hdepth
  | any name priority hmem _ ih =>
      have hleads : Leads named _ _ := .any name priority hmem
      exact ih (h.of_leads hleads) (hcovers.of_meets (.single hleads)) hdepth
  | @not depth child e name priority _ ih =>
      have hleads : Leads named _ _ := .not child name priority
      exact ih (h.of_leads hleads) (hcovers.of_meets (.single hleads)) hdepth
  | missing depth target name priority hstrict hnone =>
      obtain rfl : named = [] := List.isEmpty_iff.1 hnone
      exact h.find?_ne_none hstrict rfl
  | undefined depth name priority hstrict hmissing => exact h.find?_ne_none hstrict hmissing
  | exhausted name priority hfound =>
      have hcard := (hcovers.erase h.acyclic .refl hfound).2
      omega
  | reference name priority hfound _ ih =>
      obtain ⟨hrest, hcard⟩ := hcovers.erase h.acyclic .refl hfound
      exact ih (h.of_leads (.reference name priority hfound)) hrest (by omega)
  | comparison depth name priority hfailed =>
      exact not_compares_error (h.compared _ name priority .refl) hfailed

theorem Evaluable.not_blames {depth : Nat} {e : Error}
    (h : Evaluable named lenient outcome condition) (hdepth : named.length ≤ depth) :
    ¬ Blames (fixedReading named lenient outcome) depth condition e :=
  h.not_blames_of_covers (covers_texts named condition) (named.card_texts_le.trans hdepth)

/-- What was inlined has no names to follow. -/
theorem Inlines.not_blames {depth : Nat} {e : Error} (h : Inlines named condition tree)
    (hevaluable : Evaluable named lenient outcome condition) :
    ¬ Blames (fixedReading other lenient outcome) depth tree e := by
  intro hblames
  induction h with
  | all name priority hlength _ ih =>
      cases hblames with
      | all _ _ hmem hfails =>
          obtain ⟨child, hchild, hnot⟩ := exists_child_of_mem hlength ih hmem
          exact hnot (hevaluable.of_leads (.all name priority hchild)) hfails
  | any name priority hlength _ ih =>
      cases hblames with
      | any _ _ hmem hfails =>
          obtain ⟨child, hchild, hnot⟩ := exists_child_of_mem hlength ih hmem
          exact hnot (hevaluable.of_leads (.any name priority hchild)) hfails
  | not name priority _ ih =>
      cases hblames with
      | not _ _ hfails => exact ih (hevaluable.of_leads (.not _ name priority)) hfails
  | never name => cases hblames
  | reference name priority hfound _ ih =>
      exact ih (hevaluable.of_leads (.reference name priority hfound)) hblames
  | undefined name priority hmissing => cases hblames
  | comparison leaf name priority =>
      cases hblames with
      | comparison _ _ _ hfailed =>
          exact not_compares_error (hevaluable.compared leaf name priority .refl) hfailed

/-! ### Results of references -/

theorem verdict_within_skips {conditions : List Condition} {part node : ConditionResult}
    (h : ∀ condition ∈ conditions, ∀ node, Within node condition.skip → node.head.verdict = none)
    (hmem : part ∈ skips conditions) (hwithin : Within node part) : node.head.verdict = none := by
  rw [skips_eq_map] at hmem
  obtain ⟨condition, hcondition, rfl⟩ := List.mem_map.1 hmem
  exact h condition hcondition node hwithin

/-- Nothing in a condition that is skipped has a verdict. -/
theorem verdict_within_skip (condition : Condition) :
    ∀ node, Within node condition.skip → node.head.verdict = none := by
  induction condition with
  | all children name priority ih =>
      rintro node (_ | ⟨hmem, hwithin⟩)
      · rfl
      · exact verdict_within_skips ih hmem hwithin
  | any children name priority ih =>
      rintro node (_ | ⟨hmem, hwithin⟩)
      · rfl
      · exact verdict_within_skips ih hmem hwithin
  | not child name priority ih =>
      rintro node (_ | ⟨hmem, hwithin⟩)
      · rfl
      · exact ih node (List.mem_singleton.1 hmem ▸ hwithin)
  | never name =>
      rintro node (_ | ⟨hmem, _⟩)
      · rfl
      · cases hmem
  | reference target name priority =>
      rintro node (_ | ⟨hmem, _⟩)
      · rfl
      · cases hmem
  | comparison leaf name priority =>
      rintro node (_ | ⟨hmem, _⟩)
      · rfl
      · cases hmem

theorem parts_withHead (head : ResultHead) (result : ConditionResult) :
    (result.withHead head).parts = result.parts := by
  cases result <;> rfl

/-- A result that tells of a reference is one of a reference that was met, and tells what that is
determined to be. -/
theorem Trail.determined_within {result node : ConditionResult} {target : String}
    (h : Trail (fixedReading named lenient outcome) condition result) (hwithin : Within node result)
    (hreference : node.head.reference = some target) (hverdict : node.head.verdict = some verdict) :
    ∃ name priority, Meets named condition (.reference target name priority) ∧
      Determined named outcome (.reference target name priority) verdict := by
  induction h with
  | skipped condition => cases (verdict_within_skip condition node hwithin).symm.trans hverdict
  | all name priority hlength _ _ ih =>
      cases hwithin with
      | self => cases hreference
      | part hmem hwithin =>
          obtain ⟨child, hchild, hmet⟩ := exists_child_of_mem hlength ih hmem
          obtain ⟨name', priority', hmeets, hdetermined⟩ := hmet hwithin
          exact ⟨name', priority', .head (.all name priority hchild) hmeets, hdetermined⟩
  | any name priority hlength _ _ ih =>
      cases hwithin with
      | self => cases hreference
      | part hmem hwithin =>
          obtain ⟨child, hchild, hmet⟩ := exists_child_of_mem hlength ih hmem
          obtain ⟨name', priority', hmeets, hdetermined⟩ := hmet hwithin
          exact ⟨name', priority', .head (.any name priority hchild) hmeets, hdetermined⟩
  | not name priority _ _ ih =>
      cases hwithin with
      | self => cases hreference
      | part hmem hwithin =>
          obtain ⟨name', priority', hmeets, hdetermined⟩ := ih (List.mem_singleton.1 hmem ▸ hwithin)
          exact ⟨name', priority', .head (.not _ name priority) hmeets, hdetermined⟩
  | never name =>
      cases hwithin with
      | self => cases hreference
      | part hmem _ => cases hmem
  | @reference target' found result name priority hfound hevaluated htrail ih =>
      cases hwithin with
      | self =>
          rw [head_withHead] at hreference hverdict
          obtain rfl := Option.some.inj hreference
          exact ⟨name, priority, .refl, .reference name priority hfound (htrail.determined hverdict)⟩
      | part hmem hwithin =>
          rw [parts_withHead] at hmem
          obtain ⟨name', priority', hmeets, hdetermined⟩ := ih (.part hmem hwithin)
          exact ⟨name', priority', .head (.reference name priority hfound) hmeets, hdetermined⟩
  | undefined name priority hmissing _ =>
      cases hwithin with
      | self =>
          obtain rfl := Option.some.inj hreference
          obtain rfl := Option.some.inj hverdict
          exact ⟨name, priority, .refl, .undefined name priority hmissing⟩
      | part hmem _ => cases hmem
  | comparison name _ _ =>
      cases hwithin with
      | self => cases hreference
      | part hmem _ => cases hmem

/-! ### Verdicts -/

variable {σ : Type} [HasSession σ] {inv : σ → Prop} {waits : ℕ} {meaning : Meaning σ} {world : σ}

/-- Making the step returns a result, and whatever it comes to is a result with this verdict. -/
def Returns (world : σ) (step : Eval σ ConditionResult) (verdict : Bool) : Prop :=
  (∃ result, Yields world step (.ok result)) ∧ ∀ found, Yields world step found →
    ∃ result, found = .ok result ∧ result.head.verdict = some verdict

/-- An evaluation that cannot fail returns what is determined. -/
theorem exists_returns (hreads : Reads (.ofWorld inv) waits meaning (fixedReading named lenient outcome))
    (hinv : inv world) {depth : Nat}
    (hnot : ∀ e, ¬ Blames (fixedReading named lenient outcome) depth condition e) :
    ∃ verdict, Determined named outcome condition verdict ∧
      Returns world (condition.evaluateIn meaning depth) verdict := by
  obtain ⟨more, hensures⟩ := ensures_evaluateIn hreads depth condition
  have hreturns : ∀ found, Yields world (condition.evaluateIn meaning depth) found →
      ∃ result verdict, found = .ok result ∧ result.head.verdict = some verdict ∧
        Determined named outcome condition verdict := by
    intro found hyields
    have houtcome := hensures.post_of_yields hinv hyields
    cases found with
    | error e => exact absurd houtcome (hnot e)
    | ok result =>
        have hverdict := Schedule.verdict_eq_some_holds houtcome.1
        exact ⟨result, _, rfl, hverdict, houtcome.2.determined hverdict⟩
  obtain ⟨found, hyields, _⟩ := hensures.exists_yields (ENat.natCast_ne_top (waits + more)) hinv
  obtain ⟨result, verdict, rfl, _, hdetermined⟩ := hreturns found hyields
  refine ⟨verdict, hdetermined, ⟨result, hyields⟩, fun other hother => ?_⟩
  obtain ⟨result', verdict', rfl, hverdict', hdetermined'⟩ := hreturns other hother
  exact ⟨result', rfl, hdetermined.unique hdetermined' ▸ hverdict'⟩

/-- The inlining of a condition that cannot fail returns what the condition is determined to be. -/
theorem Inlines.returns (h : Inlines named condition tree)
    (hreads : Reads (.ofWorld inv) waits meaning (fixedReading named lenient outcome))
    (hinv : inv world) (hevaluable : Evaluable named lenient outcome condition)
    (hdetermined : Determined named outcome condition verdict) (depth : Nat) :
    Returns world (tree.evaluateIn meaning depth) verdict := by
  have hnot : ∀ e, ¬ Blames (fixedReading named lenient outcome) depth tree e :=
    fun _ => h.not_blames hevaluable
  obtain ⟨verdict', hdetermined', hreturns⟩ := exists_returns hreads hinv hnot
  rwa [(h.determined hdetermined).unique hdetermined']

/-- Evaluating a condition and evaluating its inlining both return, with one verdict, if comparisons
have fixed outcomes, references lead in no circle, and each of them leads somewhere unless it need
not.  Whatever result in between tells of a reference and was not skipped, the inlining of that
reference returns its verdict. -/
theorem verdict_of_inlines
    (hreads : Reads (.ofWorld inv) waits meaning (fixedReading named lenient outcome))
    (hinv : inv world) (hevaluable : Evaluable named lenient outcome condition) :
    (∃ tree, Inlines named condition tree) ∧
      ∀ depth, named.length ≤ depth → ∀ further,
        (∃ verdict, Returns world (condition.evaluateIn meaning depth) verdict ∧
          ∀ tree, Inlines named condition tree →
            Returns world (tree.evaluateIn meaning further) verdict) ∧
        ∀ result node target verdict,
          Yields world (condition.evaluateIn meaning depth) (.ok result) → Within node result →
            node.head.reference = some target → node.head.verdict = some verdict →
              (∃ tree, Inlines named (.reference target none none) tree) ∧
                ∀ tree, Inlines named (.reference target none none) tree →
                  Returns world (tree.evaluateIn meaning further) verdict := by
  refine ⟨exists_inlines hevaluable.acyclic, fun depth hdepth further => ⟨?_, ?_⟩⟩
  · obtain ⟨verdict, hdetermined, hreturns⟩ :=
      exists_returns hreads hinv fun e => hevaluable.not_blames hdepth
    exact ⟨verdict, hreturns, fun tree htree =>
      htree.returns hreads hinv hevaluable hdetermined further⟩
  · intro result node target verdict hyields hwithin hreference hverdict
    obtain ⟨_, hensures⟩ := ensures_evaluateIn hreads depth condition
    obtain ⟨_, htrail⟩ := hensures.post_of_yields hinv hyields
    obtain ⟨name, priority, hmeets, hdetermined⟩ :=
      htrail.determined_within hwithin hreference hverdict
    have hmet := hevaluable.of_meets hmeets
    obtain ⟨part, hpart⟩ := exists_inlines hmet.acyclic
    refine ⟨⟨part, hpart.renamed⟩, fun tree htree => ?_⟩
    exact htree.renamed.returns hreads hinv hmet hdetermined further

theorem evaluable_eligible : Evaluable (grownNames none) false
    (ageSession Priority.first).constantOutcome (eligible none) where
  compared := sound_eligible.compared
  resolves := .inr sound_eligible.defined
  acyclic := sound_eligible.acyclic

/-- The reference in the condition gives way to what it names. -/
theorem inlines_eligible : Inlines (grownNames none) (eligible none)
    (.any [.never none, grown none] none Priority.first) := by
  refine .any none Priority.first rfl fun place child tree hchild htree => ?_
  match place with
  | 0 =>
      obtain rfl := Option.some.inj hchild
      obtain rfl := Option.some.inj htree
      exact .never none
  | 1 =>
      obtain rfl := Option.some.inj hchild
      obtain rfl := Option.some.inj htree
      exact .reference none none (find?_grown none) (.comparison _ none none)
  | place + 2 => cases hchild

theorem verdict_of_inlines_eligible :
    Evaluable (grownNames none) false (ageSession Priority.first).constantOutcome (eligible none) ∧
      ∃ verdict,
        Returns (ageSession Priority.first) ((eligible none).evaluateIn
          ⟨Leaf.compare depthLimit, fun _ => grownNames none⟩ depthLimit) verdict ∧
        Returns (ageSession Priority.first)
          (Condition.evaluateIn ⟨Leaf.compare depthLimit, fun _ => grownNames none⟩ depthLimit
            (.any [.never none, grown none] none Priority.first)) verdict := by
  have hreads : Reads (.ofWorld (ageSession Priority.first).Alike) (1 : ℕ)
      ⟨Leaf.compare depthLimit, fun _ => grownNames none⟩
      (fixedReading (grownNames none) false (ageSession Priority.first).constantOutcome) :=
    reads_compare (constant_ageSession Priority.first) (grownNames none) 999
  have halike : (ageSession Priority.first).Alike (ageSession Priority.first) :=
    ⟨rfl, rfl, rfl, remembers_ageSession Priority.first⟩
  obtain ⟨_, hsame⟩ := verdict_of_inlines hreads halike evaluable_eligible
  obtain ⟨⟨verdict, hreturns, htrees⟩, _⟩ := hsame depthLimit (by decide) depthLimit
  exact ⟨evaluable_eligible, verdict, hreturns, htrees _ inlines_eligible⟩

end Rulebook.Condition
