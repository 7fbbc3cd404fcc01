import Mathlib.Data.Fintype.Card
import Mathlib.Logic.Relation
import Rulebook.Proofs.Condition.Determined

/-!
Plain verdicts.

The plain verdict of a condition is found by evaluating every part of it.  It is determined
(`determined_of_plain`), and there is one if no comparison that is met fails and the references
that are met lead somewhere and not in a circle (`exists_plain`).
-/

namespace Rulebook.Condition

/-! ### Evaluating everything -/

mutual

/-- The verdict of a condition all of whose parts are evaluated; there is none if a part has none.
`follow` is the verdict of the targets of references. -/
def plainWith (outcome : Leaf → Option Bool) (follow : String → Option Bool) :
    Condition → Option Bool
  | .all children _ _ => (plainEach outcome follow children).map fun verdicts => verdicts.all id
  | .any children _ _ =>
      (plainEach outcome follow children).map fun verdicts => verdicts.isEmpty || verdicts.any id
  | .not child _ _ => (child.plainWith outcome follow).map (!·)
  | .never _ => some false
  | .reference target _ _ => follow target
  | .comparison leaf _ _ => outcome leaf

/-- The verdicts of conditions all of whose parts are evaluated. -/
def plainEach (outcome : Leaf → Option Bool) (follow : String → Option Bool) :
    List Condition → Option (List Bool)
  | [] => some []
  | condition :: rest =>
      (condition.plainWith outcome follow).bind fun verdict =>
        (plainEach outcome follow rest).map (verdict :: ·)

end

/-- The verdict of the target of a reference, references inside it being followed less than `depth`
deep. -/
def plainTarget (named : Table Value Condition) (outcome : Leaf → Option Bool) :
    (depth : Nat) → String → Option Bool
  | 0, _ => none
  | depth + 1, target =>
      (named.find? (.str target)).bind (plainWith outcome (plainTarget named outcome depth))

/-- The verdict of a condition all of whose parts are evaluated, references inside references being
followed at most `depth` deep. -/
def plain (named : Table Value Condition) (outcome : Leaf → Option Bool) (depth : Nat) :
    Condition → Option Bool :=
  plainWith outcome (plainTarget named outcome depth)

variable {named : Table Value Condition} {outcome : Leaf → Option Bool}
  {follow further : String → Option Bool} {children : List Condition} {verdicts : List Bool}

theorem forall₂_of_plainEach (h : plainEach outcome follow children = some verdicts) :
    List.Forall₂ (fun child verdict => plainWith outcome follow child = some verdict)
      children verdicts := by
  induction children generalizing verdicts with
  | nil =>
      cases h
      exact .nil
  | cons child rest ih =>
      rw [plainEach, Option.bind_eq_some_iff] at h
      obtain ⟨verdict, hverdict, hrest⟩ := h
      obtain ⟨others, hothers, rfl⟩ := Option.map_eq_some_iff.1 hrest
      exact .cons hverdict (ih hothers)

theorem exists_plainEach (h : ∀ child ∈ children, ∃ verdict,
    plainWith outcome follow child = some verdict) :
    ∃ verdicts, plainEach outcome follow children = some verdicts := by
  induction children with
  | nil => exact ⟨[], rfl⟩
  | cons child rest ih =>
      obtain ⟨verdict, hverdict⟩ := h child List.mem_cons_self
      obtain ⟨verdicts, hverdicts⟩ := ih fun other hother => h other (List.mem_cons_of_mem _ hother)
      exact ⟨verdict :: verdicts, by rw [plainEach, hverdict, Option.bind_some, hverdicts]; rfl⟩

theorem exists_verdict_of_mem (h : plainEach outcome follow children = some verdicts)
    {child : Condition} (hchild : child ∈ children) :
    ∃ verdict ∈ verdicts, plainWith outcome follow child = some verdict :=
  Schedule.exists_of_mem_right (forall₂_of_plainEach h).flip hchild

theorem exists_child_of_mem_verdicts (h : plainEach outcome follow children = some verdicts)
    {verdict : Bool} (hverdict : verdict ∈ verdicts) :
    ∃ child ∈ children, plainWith outcome follow child = some verdict :=
  Schedule.exists_of_mem_right (forall₂_of_plainEach h) hverdict

theorem plainEach_mono (h : ∀ child ∈ children, ∀ verdict,
      plainWith outcome follow child = some verdict →
        plainWith outcome further child = some verdict)
    (hverdicts : plainEach outcome follow children = some verdicts) :
    plainEach outcome further children = some verdicts := by
  induction children generalizing verdicts with
  | nil => exact hverdicts
  | cons child rest ih =>
      rw [plainEach, Option.bind_eq_some_iff] at hverdicts ⊢
      obtain ⟨verdict, hverdict, hrest⟩ := hverdicts
      obtain ⟨others, hothers, rfl⟩ := Option.map_eq_some_iff.1 hrest
      refine ⟨verdict, h child List.mem_cons_self verdict hverdict, ?_⟩
      rw [ih (fun other hother => h other (List.mem_cons_of_mem _ hother)) hothers, Option.map_some]

/-- Following references further leaves verdicts as they are. -/
theorem plainWith_mono (hfollow : ∀ target verdict, follow target = some verdict →
      further target = some verdict) {condition : Condition} {verdict : Bool}
    (h : plainWith outcome follow condition = some verdict) :
    plainWith outcome further condition = some verdict := by
  induction condition generalizing verdict with
  | all children name priority ih =>
      rw [plainWith, Option.map_eq_some_iff] at h ⊢
      obtain ⟨verdicts, hverdicts, rfl⟩ := h
      exact ⟨verdicts, plainEach_mono (fun child hchild _ => ih child hchild) hverdicts, rfl⟩
  | any children name priority ih =>
      rw [plainWith, Option.map_eq_some_iff] at h ⊢
      obtain ⟨verdicts, hverdicts, rfl⟩ := h
      exact ⟨verdicts, plainEach_mono (fun child hchild _ => ih child hchild) hverdicts, rfl⟩
  | not child name priority ih =>
      rw [plainWith, Option.map_eq_some_iff] at h ⊢
      obtain ⟨found, hfound, rfl⟩ := h
      exact ⟨found, ih hfound, rfl⟩
  | never name => exact h
  | reference target name priority => exact hfollow target verdict h
  | comparison leaf name priority => exact h

theorem plainTarget_succ {depth : Nat} {target : String} {verdict : Bool}
    (h : plainTarget named outcome depth target = some verdict) :
    plainTarget named outcome (depth + 1) target = some verdict := by
  induction depth generalizing target verdict with
  | zero => cases h
  | succ depth ih =>
      rw [plainTarget, Option.bind_eq_some_iff] at h ⊢
      obtain ⟨condition, hfound, hverdict⟩ := h
      exact ⟨condition, hfound, plainWith_mono (fun _ _ => ih) hverdict⟩

theorem plain_mono {depth deeper : Nat} (hle : depth ≤ deeper) {condition : Condition}
    {verdict : Bool} (h : plain named outcome depth condition = some verdict) :
    plain named outcome deeper condition = some verdict := by
  induction hle with
  | refl => exact h
  | step _ ih => exact plainWith_mono (fun _ _ => plainTarget_succ) ih

/-! ### Plain verdicts are determined -/

theorem determined_of_plainWith (hfollow : ∀ target verdict, follow target = some verdict →
      ∃ condition, named.find? (.str target) = some condition ∧
        Determined named outcome condition verdict)
    {condition : Condition} {verdict : Bool}
    (h : plainWith outcome follow condition = some verdict) :
    Determined named outcome condition verdict := by
  induction condition generalizing verdict with
  | all children name priority ih =>
      rw [plainWith, Option.map_eq_some_iff] at h
      obtain ⟨verdicts, hverdicts, rfl⟩ := h
      cases hall : verdicts.all id with
      | true =>
          rw [List.all_eq_true] at hall
          apply Determined.allTrue name priority
          intro child hchild
          obtain ⟨verdict, hmem, hverdict⟩ := exists_verdict_of_mem hverdicts hchild
          exact ih child hchild ((hall verdict hmem : verdict = true) ▸ hverdict)
      | false =>
          obtain ⟨verdict, hmem, hfalse⟩ := List.all_eq_false.1 hall
          obtain ⟨child, hchild, hverdict⟩ := exists_child_of_mem_verdicts hverdicts hmem
          exact .allFalse name priority hchild
            (ih child hchild (Bool.eq_false_of_not_eq_true hfalse ▸ hverdict))
  | any children name priority ih =>
      rw [plainWith, Option.map_eq_some_iff] at h
      obtain ⟨verdicts, hverdicts, rfl⟩ := h
      cases children with
      | nil =>
          cases hverdicts
          exact .anyNone name priority
      | cons first rest =>
          obtain ⟨_, hfirst, _⟩ := exists_verdict_of_mem hverdicts List.mem_cons_self
          rw [List.isEmpty_eq_false_iff.2 (List.ne_nil_of_mem hfirst), Bool.false_or]
          cases hany : verdicts.any id with
          | true =>
              obtain ⟨verdict, hmem, htrue⟩ := List.any_eq_true.1 hany
              obtain ⟨child, hchild, hverdict⟩ := exists_child_of_mem_verdicts hverdicts hmem
              exact .anyTrue name priority hchild
                (ih child hchild ((htrue : verdict = true) ▸ hverdict))
          | false =>
              rw [List.any_eq_false] at hany
              apply Determined.anyFalse name priority (List.cons_ne_nil _ _)
              intro child hchild
              obtain ⟨verdict, hmem, hverdict⟩ := exists_verdict_of_mem hverdicts hchild
              exact ih child hchild (Bool.eq_false_of_not_eq_true (hany verdict hmem) ▸ hverdict)
  | not child name priority ih =>
      rw [plainWith, Option.map_eq_some_iff] at h
      obtain ⟨found, hfound, rfl⟩ := h
      exact .not name priority (ih hfound)
  | never name =>
      cases h
      exact .never name
  | reference target name priority =>
      obtain ⟨condition, hfound, hdetermined⟩ := hfollow target verdict h
      exact .reference name priority hfound hdetermined
  | comparison leaf name priority => exact .comparison name priority h

theorem determined_of_plainTarget {depth : Nat} {target : String} {verdict : Bool}
    (h : plainTarget named outcome depth target = some verdict) :
    ∃ condition, named.find? (.str target) = some condition ∧
      Determined named outcome condition verdict := by
  induction depth generalizing target verdict with
  | zero => cases h
  | succ depth ih =>
      rw [plainTarget, Option.bind_eq_some_iff] at h
      obtain ⟨condition, hfound, hverdict⟩ := h
      exact ⟨condition, hfound, determined_of_plainWith (fun _ _ => ih) hverdict⟩

theorem determined_of_plain {depth : Nat} {condition : Condition} {verdict : Bool}
    (h : plain named outcome depth condition = some verdict) :
    Determined named outcome condition verdict :=
  determined_of_plainWith (fun _ _ => determined_of_plainTarget) h

/-! ### Priorities do not matter -/

theorem plainEach_map {change : Condition → Condition}
    (h : ∀ child ∈ children, plainWith outcome further (change child) =
      plainWith outcome follow child) :
    plainEach outcome further (children.map change) = plainEach outcome follow children := by
  induction children with
  | nil => rfl
  | cons child rest ih =>
      rw [List.map_cons, plainEach, plainEach, h child List.mem_cons_self,
        ih fun other hother => h other (List.mem_cons_of_mem _ hother)]

theorem plainWith_unranked (hfollow : ∀ target, further target = follow target)
    (condition : Condition) :
    plainWith outcome further condition.unranked = plainWith outcome follow condition := by
  induction condition with
  | all children name priority ih =>
      rw [unranked, plainWith, plainWith, unrankedEach_eq_map, plainEach_map ih]
  | any children name priority ih =>
      rw [unranked, plainWith, plainWith, unrankedEach_eq_map, plainEach_map ih]
  | not child name priority ih => rw [unranked, plainWith, plainWith, ih]
  | never name => rfl
  | reference target name priority => exact hfollow target
  | comparison leaf name priority => rfl

theorem plainTarget_unranked (depth : Nat) (target : String) :
    plainTarget (unrankedNames named) outcome depth target =
      plainTarget named outcome depth target := by
  induction depth generalizing target with
  | zero => rfl
  | succ depth ih =>
      rw [plainTarget, plainTarget, find?_unrankedNames]
      cases named.find? (.str target) with
      | none => rfl
      | some condition => exact plainWith_unranked ih condition

/-- Plain verdicts do not depend on priorities. -/
theorem plain_unranked (depth : Nat) (condition : Condition) :
    plain (unrankedNames named) outcome depth condition.unranked =
      plain named outcome depth condition :=
  plainWith_unranked (plainTarget_unranked depth) condition

/-! ### Where there is a plain verdict -/

/-- Nothing fails where there is a plain verdict. -/
theorem not_blames_of_plain {lenient : Bool} {depth deeper : Nat} {condition : Condition}
    {verdict : Bool} {e : Error} (h : plain named outcome depth condition = some verdict)
    (hle : depth ≤ deeper) :
    ¬ Blames (fixedReading named lenient outcome) deeper condition e := by
  intro hblames
  induction hblames generalizing depth verdict with
  | all name priority hmem _ ih =>
      rw [plain, plainWith, Option.map_eq_some_iff] at h
      obtain ⟨verdicts, hverdicts, _⟩ := h
      obtain ⟨verdict, _, hverdict⟩ := exists_verdict_of_mem hverdicts hmem
      exact ih hverdict hle
  | any name priority hmem _ ih =>
      rw [plain, plainWith, Option.map_eq_some_iff] at h
      obtain ⟨verdicts, hverdicts, _⟩ := h
      obtain ⟨verdict, _, hverdict⟩ := exists_verdict_of_mem hverdicts hmem
      exact ih hverdict hle
  | not name priority _ ih =>
      rw [plain, plainWith, Option.map_eq_some_iff] at h
      obtain ⟨verdict, hverdict, _⟩ := h
      exact ih hverdict hle
  | missing deeper target name priority _ hnone =>
      obtain ⟨condition, hfound, _⟩ := determined_of_plainTarget h
      rw [(List.isEmpty_iff.1 hnone : named = [])] at hfound
      cases hfound
  | undefined deeper name priority _ hmissing =>
      obtain ⟨condition, hfound, _⟩ := determined_of_plainTarget h
      exact nomatch hmissing.symm.trans hfound
  | exhausted name priority hfound =>
      rw [Nat.le_zero.1 hle] at h
      cases h
  | reference name priority hfound _ ih =>
      cases depth with
      | zero => cases h
      | succ depth =>
          rw [plain, plainWith, plainTarget, Option.bind_eq_some_iff] at h
          obtain ⟨condition, hfound', hverdict⟩ := h
          obtain rfl := Option.some.inj (hfound.symm.trans hfound')
          exact ih hverdict (Nat.le_of_succ_le_succ hle)
  | comparison deeper name priority hfailed =>
      exact nomatch hfailed.trans h

/-- Evaluating everything in one condition leads to the other next. -/
inductive Leads (named : Table Value Condition) : Condition → Condition → Prop where
  | all {children : List Condition} {child : Condition} (name : Option String)
      (priority : Priority) (mem : child ∈ children) :
      Leads named (.all children name priority) child
  | any {children : List Condition} {child : Condition} (name : Option String)
      (priority : Priority) (mem : child ∈ children) :
      Leads named (.any children name priority) child
  | not (child : Condition) (name : Option String) (priority : Priority) :
      Leads named (.not child name priority) child
  | reference {target : String} {condition : Condition} (name : Option String)
      (priority : Option Priority) (found : named.find? (.str target) = some condition) :
      Leads named (.reference target name priority) condition

/-- Evaluating everything in one condition comes to the other. -/
abbrev Meets (named : Table Value Condition) : Condition → Condition → Prop :=
  Relation.ReflTransGen (Leads named)

/-- No comparison that is met fails, and every reference that is met leads to a condition, but not
in a circle. -/
structure Sound (named : Table Value Condition) (outcome : Leaf → Option Bool)
    (condition : Condition) : Prop where
  compared : ∀ leaf name priority, Meets named condition (.comparison leaf name priority) →
    (outcome leaf).isSome = true
  defined : ∀ target name priority, Meets named condition (.reference target name priority) →
    (named.find? (.str target)).isSome = true
  acyclic : ∀ met, Meets named condition met → ¬ Relation.TransGen (Leads named) met met

mutual

/-- A condition and all conditions in it. -/
def parts : Condition → List Condition
  | .all children name priority => .all children name priority :: partsEach children
  | .any children name priority => .any children name priority :: partsEach children
  | .not child name priority => .not child name priority :: child.parts
  | .never name => [.never name]
  | .reference target name priority => [.reference target name priority]
  | .comparison leaf name priority => [.comparison leaf name priority]

/-- Conditions and all conditions in them. -/
def partsEach : List Condition → List Condition
  | [] => []
  | condition :: rest => condition.parts ++ partsEach rest

end

theorem mem_parts_self (condition : Condition) : condition ∈ condition.parts := by
  cases condition <;> simp [parts]

theorem mem_partsEach {conditions : List Condition} {part : Condition} :
    part ∈ partsEach conditions ↔ ∃ condition ∈ conditions, part ∈ condition.parts := by
  induction conditions with
  | nil => simp [partsEach]
  | cons condition rest ih => simp [partsEach, ih]

/-- What a part of conditions leads to is a part of them as well. -/
theorem mem_partsEach_of_leads {conditions : List Condition} {part next : Condition}
    (h : ∀ condition ∈ conditions, part ∈ condition.parts →
      next ∈ condition.parts ∨ next ∈ named.values) (hpart : part ∈ partsEach conditions) :
    next ∈ partsEach conditions ∨ next ∈ named.values := by
  obtain ⟨condition, hcondition, hmem⟩ := mem_partsEach.1 hpart
  rcases h condition hcondition hmem with hnext | hnamed
  · exact .inl (mem_partsEach.2 ⟨condition, hcondition, hnext⟩)
  · exact .inr hnamed

/-- What a part leads to is a part as well, or has a name. -/
theorem mem_parts_of_leads {condition part next : Condition} (hleads : Leads named part next)
    (hpart : part ∈ condition.parts) : next ∈ condition.parts ∨ next ∈ named.values := by
  induction condition with
  | all children name priority ih =>
      rcases List.mem_cons.1 hpart with rfl | hrest
      · cases hleads with
        | all _ _ hmem => exact .inl (List.mem_cons_of_mem _ (mem_partsEach.2
            ⟨next, hmem, mem_parts_self next⟩))
      · exact (mem_partsEach_of_leads ih hrest).imp_left (List.mem_cons_of_mem _)
  | any children name priority ih =>
      rcases List.mem_cons.1 hpart with rfl | hrest
      · cases hleads with
        | any _ _ hmem => exact .inl (List.mem_cons_of_mem _ (mem_partsEach.2
            ⟨next, hmem, mem_parts_self next⟩))
      · exact (mem_partsEach_of_leads ih hrest).imp_left (List.mem_cons_of_mem _)
  | not child name priority ih =>
      rcases List.mem_cons.1 hpart with rfl | hrest
      · cases hleads
        exact .inl (List.mem_cons_of_mem _ (mem_parts_self next))
      · exact (ih hrest).imp_left (List.mem_cons_of_mem _)
  | never name =>
      obtain rfl := List.mem_singleton.1 hpart
      cases hleads
  | reference target name priority =>
      obtain rfl := List.mem_singleton.1 hpart
      cases hleads with
      | reference _ _ hfound => exact .inr (Table.mem_values_of_find? hfound)
  | comparison leaf name priority =>
      obtain rfl := List.mem_singleton.1 hpart
      cases hleads

/-- Only finitely many conditions are met. -/
theorem finite_meets (named : Table Value Condition) (condition : Condition) :
    Set.Finite {met | Meets named condition met} := by
  apply (List.finite_toSet (partsEach (condition :: named.values))).subset
  intro met hmet
  change met ∈ partsEach (condition :: named.values)
  have hvalues : ∀ next ∈ named.values, next ∈ partsEach (condition :: named.values) :=
    fun next hnext => mem_partsEach.2 ⟨next, List.mem_cons_of_mem _ hnext, mem_parts_self next⟩
  induction hmet with
  | refl => exact mem_partsEach.2 ⟨condition, List.mem_cons_self, mem_parts_self condition⟩
  | tail _ hleads ih =>
      exact (mem_partsEach_of_leads (fun _ _ => mem_parts_of_leads hleads) ih).elim id (hvalues _)

/-- Where conditions lead each other in no circle, there is an order to go through them. -/
theorem wellFounded_leads {condition : Condition}
    (h : ∀ met, Meets named condition met → ¬ Relation.TransGen (Leads named) met met) :
    WellFounded fun later earlier : {met // Meets named condition met} =>
      Relation.TransGen (Leads named) earlier.1 later.1 := by
  have : Finite {met // Meets named condition met} := finite_meets named condition
  have : IsTrans {met // Meets named condition met} fun later earlier =>
      Relation.TransGen (Leads named) earlier.1 later.1 :=
    ⟨fun _ _ _ hfirst hsecond => hsecond.trans hfirst⟩
  have : Std.Irrefl fun later earlier : {met // Meets named condition met} =>
      Relation.TransGen (Leads named) earlier.1 later.1 := ⟨fun met => h met.1 met.2⟩
  exact Finite.wellFounded_of_trans_of_irrefl _

/-- Verdicts that are found at some depth each are all found at one depth. -/
theorem exists_depth (h : ∀ child ∈ children, ∃ depth verdict,
      plain named outcome depth child = some verdict) :
    ∃ depth, ∀ child ∈ children, ∃ verdict, plain named outcome depth child = some verdict := by
  induction children with
  | nil => exact ⟨0, nofun⟩
  | cons child rest ih =>
      obtain ⟨first, verdict, hverdict⟩ := h child List.mem_cons_self
      obtain ⟨others, hothers⟩ := ih fun other hother => h other (List.mem_cons_of_mem _ hother)
      refine ⟨max first others, fun other hother => ?_⟩
      rcases List.mem_cons.1 hother with rfl | hrest
      · exact ⟨verdict, plain_mono (le_max_left _ _) hverdict⟩
      · obtain ⟨verdict, hverdict⟩ := hothers other hrest
        exact ⟨verdict, plain_mono (le_max_right _ _) hverdict⟩

/-- A sound condition has a plain verdict. -/
theorem exists_plain {condition : Condition} (h : Sound named outcome condition) :
    ∃ depth verdict, plain named outcome depth condition = some verdict := by
  have hmet : ∀ met : {met // Meets named condition met},
      ∃ depth verdict, plain named outcome depth met.1 = some verdict := by
    intro met
    induction met using (wellFounded_leads h.acyclic).induction with
    | h met ih =>
        have hnext : ∀ next, Leads named met.1 next →
            ∃ depth verdict, plain named outcome depth next = some verdict :=
          fun next hleads => ih ⟨next, met.2.tail hleads⟩ (.single hleads)
        obtain ⟨met, hmeets⟩ := met
        cases met with
        | all children name priority =>
            obtain ⟨depth, hdepth⟩ := exists_depth fun child hchild =>
              hnext child (.all name priority hchild)
            obtain ⟨verdicts, hverdicts⟩ := exists_plainEach hdepth
            exact ⟨depth, _, by rw [plain, plainWith, hverdicts]; rfl⟩
        | any children name priority =>
            obtain ⟨depth, hdepth⟩ := exists_depth fun child hchild =>
              hnext child (.any name priority hchild)
            obtain ⟨verdicts, hverdicts⟩ := exists_plainEach hdepth
            exact ⟨depth, _, by rw [plain, plainWith, hverdicts]; rfl⟩
        | not child name priority =>
            obtain ⟨depth, verdict, hverdict⟩ := hnext child (.not child name priority)
            exact ⟨depth, !verdict, by rw [plain, plainWith, ← plain, hverdict]; rfl⟩
        | never name => exact ⟨0, false, rfl⟩
        | reference target name priority =>
            obtain ⟨found, hfound⟩ := Option.isSome_iff_exists.1
              (h.defined target name priority hmeets)
            obtain ⟨depth, verdict, hverdict⟩ := hnext found (.reference name priority hfound)
            refine ⟨depth + 1, verdict, ?_⟩
            rw [plain, plainWith, plainTarget, hfound, Option.bind_some]
            exact hverdict
        | comparison leaf name priority =>
            obtain ⟨verdict, hverdict⟩ := Option.isSome_iff_exists.1
              (h.compared leaf name priority hmeets)
            exact ⟨0, verdict, hverdict⟩
  exact hmet ⟨condition, .refl⟩

end Rulebook.Condition
