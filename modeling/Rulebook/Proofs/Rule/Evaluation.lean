import Rulebook.Proofs.Condition.Trail
import Rulebook.Proofs.Fact.Changes
import Rulebook.Proofs.Tally
import Rulebook.Rule.Evaluate

/-!
What evaluating conditions changes.

Looking up facts and evaluating conditions changes the session only, and there what is counted of
rules and of failures stays as it is (`AllowsEvaluation.within_evaluate`).  That holds of every
program, in whichever order things happen, and however deep requests and references go.
-/

namespace Rulebook

open Session Eval

/-- What is counted of rules and of failures, and how often the duration of a rule was taken. -/
structure Score where
  rules : Table String Nat
  errors : Table String Nat
  timings : Nat

/-- What a tally tells of rules and failures. -/
def Tally.score (tally : Tally) : Score := ⟨tally.labels .rules, tally.labels .errors, tally.timings⟩

/-- What was counted of rules and failures, if anything is counted. -/
def Session.score (session : Session) : Option Score := session.tally.map Tally.score

/-- How many rules were counted under each label, if anything is counted. -/
def Session.ruleCounts (session : Session) : Option (String → Nat) :=
  session.tally.map fun tally => tally.amount .rules

theorem Session.ruleCounts_eq_of_score {session other : Session} (h : session.score = other.score) :
    session.ruleCounts = other.ruleCounts := by
  have hscore : ∀ session : Session, session.ruleCounts =
      session.score.map fun score label => (Table.find? score.rules label).getD 0 := by
    intro session
    rw [score, Option.map_map, ruleCounts]
    exact congrArg (session.tally.map ·) (funext fun tally => funext fun label =>
      tally.amount_eq_labels .rules label)
  rw [hscore, hscore, h]

theorem Session.score_count {counter : Counter} (hrules : counter ≠ .rules) (herrors : counter ≠ .errors)
    (label : String) (session : Session) :
    score { session with
      tally := session.tally.map fun tally => tally.count counter label } = session.score := by
  have hsame : ∀ tally : Tally, (tally.count counter label).score = tally.score := by
    intro tally
    rw [Tally.score, Tally.score, Tally.labels_count, Tally.labels_count, if_neg hrules,
      if_neg herrors]
    rfl
  change (session.tally.map fun tally => tally.count counter label).map Tally.score = _
  rw [Option.map_map]
  exact congrArg (session.tally.map ·) (funext hsame)

variable {σ : Type} [HasSession σ]

/-- Every change of the session that leaves the counts of rules is allowed. -/
def AllowsLookups (changes : σ → σ → Prop) : Prop :=
  ∀ world session, session.ruleCounts = (HasSession.session world).ruleCounts →
    changes world (HasSession.withSession session world)

/-- Every change of the session is allowed that leaves what is counted of rules and failures. -/
def AllowsEvaluation (changes : σ → σ → Prop) : Prop :=
  ∀ world session, session.score = (HasSession.session world).score →
    changes world (HasSession.withSession session world)

theorem AllowsLookups.allowsEvaluation {changes : σ → σ → Prop} (h : AllowsLookups changes) :
    AllowsEvaluation changes :=
  fun world session hscore => h world session (Session.ruleCounts_eq_of_score hscore)

/-- Where the counts of rules are left other counters may be changed. -/
theorem AllowsLookups.within_count {changes : σ → σ → Prop} (h : AllowsLookups changes)
    {counter : Counter} (hcounter : counter ≠ .rules) (label : String) :
    Within changes (count counter label) := by
  refine .modify fun world => h world _ ?_
  dsimp only
  cases htally : (HasSession.session world).tally with
  | none => simp [Session.ruleCounts, htally]
  | some tally =>
      have hsame : (tally.count counter label).amount .rules = tally.amount .rules := by
        funext name
        simp [Tally.amount_count, hcounter]
      simp [Session.ruleCounts, htally, hsame]

namespace AllowsEvaluation

variable {changes : σ → σ → Prop}

theorem within_count (h : AllowsEvaluation changes) {counter : Counter} (hrules : counter ≠ .rules)
    (herrors : counter ≠ .errors) (label : String) : Within changes (count counter label) :=
  .modify fun world => h world _ (Session.score_count hrules herrors label _)

/-- Looking up facts leaves what is counted of rules and failures. -/
theorem allowsFacts (h : AllowsEvaluation changes) : AllowsFacts changes where
  session world session htally := h world session (by rw [Session.score, htally, ← Session.score])
  counting counter hcounter world label := by
    refine h world _ ?_
    have hrules : counter ≠ .rules := by rintro rfl; cases hcounter
    have herrors : counter ≠ .errors := by rintro rfl; cases hcounter
    exact Session.score_count hrules herrors label (HasSession.session world)

/-! ### Conditions -/

omit [HasSession σ] in
theorem within_runBatch {batch : Batch σ} (hbatch : ∀ entry ∈ batch, Within changes entry.1.run) :
    Within changes (Schedule.runBatch batch) := by
  refine .bind (.each fun step hstep => ?_) fun outcomes => ?_
  · obtain ⟨entry, hentry, rfl⟩ := List.mem_map.1 hstep
    exact hbatch entry hentry
  · exact .bind (.outcome (Schedule.allOk outcomes)) fun results => .outcome _

theorem within_skipEach (h : AllowsEvaluation changes) (batch : Batch σ) :
    Within changes (Schedule.skipEach batch) := by
  induction batch with
  | nil => exact .outcome _
  | cons entry rest ih =>
      exact .bind (h.within_count (by decide) (by decide) _) fun _ => .bind ih fun results => .outcome _

theorem within_runBatches (h : AllowsEvaluation changes) (join : Join) {batches : List (Batch σ)}
    (hbatches : ∀ batch ∈ batches, ∀ entry ∈ batch, Within changes entry.1.run) :
    Within changes (Schedule.runBatches join batches) := by
  induction batches with
  | nil => exact .outcome _
  | cons batch rest ih =>
      rw [List.forall_mem_cons] at hbatches
      refine .bind (within_runBatch hbatches.1) fun results => ?_
      split
      · exact .bind (h.within_skipEach rest.flatten) fun skipped => .outcome _
      · exact .bind (ih hbatches.2) fun others => .outcome _

theorem within_schedule (h : AllowsEvaluation changes) (join : Join) {branches : List (Branch σ)}
    (hbranches : ∀ branch ∈ branches, Within changes branch.run) :
    Within changes (Schedule.run join branches) := by
  unfold Schedule.run
  split
  · exact .outcome _
  · next branch =>
      exact .bind (hbranches branch List.mem_cons_self) fun result => .outcome _
  · apply within_current_bind
    intro session
    refine .bind (h.within_runBatches join fun batch hbatch entry hentry => ?_)
      fun found => .outcome _
    exact hbranches entry.1 (mem_of_mem_batch hbatch hentry)

theorem within_evaluateWith (h : AllowsEvaluation changes) {meaning : Meaning σ}
    (hcompare : ∀ leaf, Within changes (meaning.compare leaf))
    {follow : Condition → Eval σ ConditionResult} (hfollow : ∀ target, Within changes (follow target))
    (condition : Condition) : Within changes (condition.evaluateWith meaning follow) := by
  have hbranches : ∀ children : List Condition,
      (∀ child ∈ children, Within changes (child.evaluateWith meaning follow)) →
        ∀ branch ∈ Condition.branches meaning follow children, Within changes branch.run := by
    intro children hchildren branch hbranch
    rw [Condition.branches_eq_map] at hbranch
    obtain ⟨child, hchild, rfl⟩ := List.mem_map.1 hbranch
    exact hchildren child hchild
  induction condition with
  | all children name priority ih =>
      rw [Condition.evaluateWith]
      refine .bind (h.within_count (by decide) (by decide) _) fun _ => ?_
      exact .bind (h.within_schedule .all (hbranches children ih)) fun found => .outcome _
  | any children name priority ih =>
      rw [Condition.evaluateWith]
      refine .bind (h.within_count (by decide) (by decide) _) fun _ => ?_
      exact .bind (h.within_schedule .any (hbranches children ih)) fun found => .outcome _
  | not child name priority ih =>
      rw [Condition.evaluateWith]
      exact .bind (h.within_count (by decide) (by decide) _) fun _ => .bind ih fun result => .outcome _
  | never name =>
      rw [Condition.evaluateWith]
      exact .bind (h.within_count (by decide) (by decide) _) fun _ => .outcome _
  | reference target name priority =>
      rw [Condition.evaluateWith]
      refine .bind (h.within_count (by decide) (by decide) _) fun _ => .get_bind fun seen => ?_
      dsimp only
      split
      · exact .bind (hfollow _) fun result => .outcome _
      · apply within_current_bind
        intro session
        split
        · exact .outcome _
        · split
          · exact .outcome _
          · exact .outcome _
  | comparison leaf name priority =>
      rw [Condition.evaluateWith]
      refine .bind (h.within_count (by decide) (by decide) _) fun _ => .bind (hcompare leaf) fun found => ?_
      exact within_current_bind fun session => .outcome _

/-- Evaluating a condition leaves what is counted of rules and failures. -/
theorem within_evaluate (h : AllowsEvaluation changes) (named : σ → Table Value Condition)
    (condition : Condition) : Within changes (condition.evaluate named) := by
  have hdepth : ∀ depth condition, Within changes
      (Condition.evaluateIn ⟨Leaf.compare depthLimit, named⟩ depth condition) := by
    intro depth
    induction depth with
    | zero => exact fun condition =>
        h.within_evaluateWith (h.allowsFacts.within_compare depthLimit) (fun _ => .outcome _) condition
    | succ depth ih => exact h.within_evaluateWith (h.allowsFacts.within_compare depthLimit) ih
  exact hdepth depthLimit condition

end AllowsEvaluation

/-! ### Rules -/

/-- A result is that of a rule; its event may have been changed. -/
structure RuleResult.Of (rule : Rule) (result : RuleResult) : Prop where
  name : result.name = rule.name
  priority : result.priority = rule.priority
  result : result.result = result.conditions.holds

/-- The world after a rule was counted. -/
def Rule.counting (verdict : Bool) (world : σ) : σ :=
  let counted := HasSession.withSession { HasSession.session world with
    tally := (HasSession.session world).tally.map fun tally =>
      tally.count .rules (outcomeLabel verdict) } world
  HasSession.withSession { HasSession.session counted with
    tally := (HasSession.session counted).tally.map Tally.time } counted

theorem Rule.ruleCounts_counting (verdict : Bool) (world : σ) :
    (HasSession.session (Rule.counting verdict world)).ruleCounts =
      (HasSession.session world).ruleCounts.map fun count label =>
        count label + if outcomeLabel verdict = label then 1 else 0 := by
  simp only [Rule.counting, HasSession.session_withSession, ruleCounts]
  cases (HasSession.session world).tally with
  | none => rfl
  | some tally =>
      refine congrArg some (funext fun label => ?_)
      exact (tally.amount_count .rules .rules (outcomeLabel verdict) label).trans (by simp)

variable {Λ : Type} [Preorder Λ] {charter : Strand.Charter σ Ending Λ} {own : Nat} {a : Λ}

/-- A rule was evaluated and counted, unless its evaluation failed. -/
def Rule.Evaluated (charter : Strand.Charter σ Ending Λ) (own : Nat) (a : Λ) (rule : Rule) :
    Except Error RuleResult → Strand.Ledger Λ → σ → Prop
  | .ok result, ledger, world => result.Of rule ∧
      ∃ before, At charter own a ledger before ∧ world = Rule.counting result.result before
  | .error _, ledger, world => At charter own a ledger world

theorem Rule.triple_evaluate [charter.Unranked] {changes : σ → σ → Prop} {idle : Λ}
    (hidle : Idle charter changes idle)
    (hallows : AllowsEvaluation changes) (named : σ → Table Value Condition) (rule : Rule) :
    Triple charter own (At charter own a) (rule.evaluate named)
      (Rule.Evaluated charter own a rule) := by
  refine ((hallows.within_evaluate named rule.conditions).triple hidle own a).bind
    (fun conditions => ?_) fun _ _ _ hat => hat
  exact fun next hnext ledger world hat => hnext _ ledger _ ⟨⟨rfl, rfl, rfl⟩, world, hat, rfl⟩

end Rulebook
