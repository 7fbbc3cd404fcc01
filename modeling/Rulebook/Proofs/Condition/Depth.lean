import Mathlib.Data.Finset.Card
import Rulebook.Proofs.Condition.Plain

/-!
How deep references are followed.

Evaluating a condition depends on how its comparisons come out and on where its references lead, and
on nothing else (`evaluateWith_congr`).  Where no condition leads back to itself, each reference that
is followed uses up a name, so that references are followed no deeper than there are names
(`evaluateUpTo_eq`).
-/

namespace Rulebook

namespace Table

variable {α : Type}

/-- The texts among the keys of a table. -/
def texts (table : Table Value α) : Finset String :=
  (table.filterMap fun entry =>
    match entry.1 with
    | .str text => some text
    | _ => none).toFinset

theorem card_texts_le (table : Table Value α) : table.texts.card ≤ table.length :=
  (List.toFinset_card_le _).trans (List.length_filterMap_le _ _)

/-- A text under which something is found is one of them. -/
theorem mem_texts_of_find? {table : Table Value α} {text : String} {found : α}
    (h : table.find? (.str text) = some found) : text ∈ table.texts := by
  obtain ⟨known, hknown, hmem⟩ := exists_mem_of_find? h
  obtain rfl := Value.beq_str_iff.1 hknown
  exact List.mem_toFinset.2 (List.mem_filterMap.2 ⟨_, hmem, rfl⟩)

end Table

namespace Condition

/-! ### What an evaluation depends on -/

variable {σ : Type} [HasSession σ] {meaning other : Meaning σ}
  {follow further beyond : Condition → Eval σ ConditionResult}

theorem branches_congr {children : List Condition}
    (h : ∀ child ∈ children, child.evaluateWith other further = child.evaluateWith meaning follow) :
    branches other further children = branches meaning follow children := by
  rw [branches_eq_map, branches_eq_map]
  apply List.map_congr_left
  intro child hchild
  rw [h child hchild]

/-- An evaluation depends on the comparisons in a condition, and on what is done where the
references in it lead. -/
theorem evaluateWith_congr (condition : Condition) (hnamed : other.named = meaning.named)
    (hcompare : ∀ leaf name priority, .comparison leaf name priority ∈ condition.parts →
      other.compare leaf = meaning.compare leaf)
    (hfollow : ∀ target name priority, .reference target name priority ∈ condition.parts →
      ∀ world found, (meaning.named world).find? (.str target) = some found →
        further found = follow found) :
    condition.evaluateWith other further = condition.evaluateWith meaning follow := by
  induction condition with
  | all children name priority ih =>
      have hchildren : branches other further children = branches meaning follow children := by
        refine branches_congr fun child hchild => ih child hchild
          (fun leaf name priority hleaf => hcompare leaf name priority ?_)
          fun target name priority htarget => hfollow target name priority ?_
        · exact List.mem_cons_of_mem _ (mem_partsEach.2 ⟨child, hchild, hleaf⟩)
        · exact List.mem_cons_of_mem _ (mem_partsEach.2 ⟨child, hchild, htarget⟩)
      rw [evaluateWith, evaluateWith, hchildren]
  | any children name priority ih =>
      have hchildren : branches other further children = branches meaning follow children := by
        refine branches_congr fun child hchild => ih child hchild
          (fun leaf name priority hleaf => hcompare leaf name priority ?_)
          fun target name priority htarget => hfollow target name priority ?_
        · exact List.mem_cons_of_mem _ (mem_partsEach.2 ⟨child, hchild, hleaf⟩)
        · exact List.mem_cons_of_mem _ (mem_partsEach.2 ⟨child, hchild, htarget⟩)
      rw [evaluateWith, evaluateWith, hchildren]
  | not child name priority ih =>
      have hchild : child.evaluateWith other further = child.evaluateWith meaning follow :=
        ih (fun leaf name priority hleaf => hcompare leaf name priority
            (List.mem_cons_of_mem _ hleaf))
          fun target name priority htarget => hfollow target name priority
            (List.mem_cons_of_mem _ htarget)
      rw [evaluateWith, evaluateWith, hchild]
  | never name => rfl
  | reference target name priority =>
      rw [evaluateWith, evaluateWith, hnamed]
      congr 1
      funext _
      congr 1
      funext world
      dsimp only
      split
      · next found hfound =>
          rw [hfollow target name priority List.mem_cons_self world found hfound]
      · rfl
  | comparison leaf name priority =>
      rw [evaluateWith, evaluateWith, hcompare leaf name priority List.mem_cons_self]

variable {named : Table Value Condition} {condition : Condition}

/-- Every part of a condition is met. -/
theorem meets_of_mem_parts {part : Condition} (h : part ∈ condition.parts) :
    Meets named condition part := by
  induction condition with
  | all children name priority ih =>
      rcases List.mem_cons.1 h with rfl | hrest
      · exact .refl
      · obtain ⟨child, hchild, hpart⟩ := mem_partsEach.1 hrest
        exact .head (.all name priority hchild) (ih child hchild hpart)
  | any children name priority ih =>
      rcases List.mem_cons.1 h with rfl | hrest
      · exact .refl
      · obtain ⟨child, hchild, hpart⟩ := mem_partsEach.1 hrest
        exact .head (.any name priority hchild) (ih child hchild hpart)
  | not child name priority ih =>
      rcases List.mem_cons.1 h with rfl | hrest
      · exact .refl
      · exact .head (.not child name priority) (ih hrest)
  | never name =>
      obtain rfl := List.mem_singleton.1 h
      exact .refl
  | reference target name priority =>
      obtain rfl := List.mem_singleton.1 h
      exact .refl
  | comparison leaf name priority =>
      obtain rfl := List.mem_singleton.1 h
      exact .refl

/-- An evaluation depends on the comparisons that are met. -/
theorem evaluateIn_congr {compare compare' : Leaf → Eval σ (Bool × Sides)}
    (hcompare : ∀ leaf name priority, Meets named condition (.comparison leaf name priority) →
      compare' leaf = compare leaf) (depth : Nat) :
    condition.evaluateIn ⟨compare', fun _ => named⟩ depth =
      condition.evaluateIn ⟨compare, fun _ => named⟩ depth := by
  induction depth generalizing condition with
  | zero =>
      exact evaluateWith_congr condition rfl
        (fun leaf name priority hpart => hcompare leaf name priority (meets_of_mem_parts hpart))
        fun _ _ _ _ _ _ _ => rfl
  | succ depth ih =>
      refine evaluateWith_congr condition rfl
        (fun leaf name priority hpart => hcompare leaf name priority (meets_of_mem_parts hpart))
        fun target name priority hpart _ found hfound => ?_
      have hmeets : Meets named condition found :=
        .tail (meets_of_mem_parts hpart) (.reference name priority hfound)
      exact ih fun leaf name priority hleaf => hcompare leaf name priority (hmeets.trans hleaf)

/-! ### Depth -/

/-- Evaluate a condition, following references less than `depth` deep; `beyond` evaluates what lies
deeper. -/
def evaluateUpTo (meaning : Meaning σ) (beyond : Condition → Eval σ ConditionResult) :
    (depth : Nat) → Condition → Eval σ ConditionResult
  | 0 => beyond
  | depth + 1 => evaluateWith meaning (evaluateUpTo meaning beyond depth)

theorem evaluateIn_eq_evaluateUpTo (meaning : Meaning σ) (depth : Nat) :
    evaluateIn meaning depth = evaluateUpTo meaning (fun _ => throw .exhausted) (depth + 1) := by
  induction depth with
  | zero => rfl
  | succ depth ih => rw [evaluateIn, evaluateUpTo, ih]

/-- No condition that is met leads back to itself. -/
def Acyclic (named : Table Value Condition) (condition : Condition) : Prop :=
  ∀ met, Meets named condition met → ¬ Relation.TransGen (Leads named) met met

theorem Acyclic.of_meets {met : Condition} (h : Acyclic named condition)
    (hmeets : Meets named condition met) : Acyclic named met :=
  fun other hother => h other (hmeets.trans hother)

/-- The names through which a condition leads further are some of these. -/
def Covers (named : Table Value Condition) (condition : Condition) (names : Finset String) : Prop :=
  ∀ target name priority found, Meets named condition (.reference target name priority) →
    named.find? (.str target) = some found → target ∈ names

theorem covers_texts (named : Table Value Condition) (condition : Condition) :
    Covers named condition named.texts :=
  fun _ _ _ _ _ hfound => Table.mem_texts_of_find? hfound

variable {names : Finset String}

theorem Covers.of_meets {met : Condition} (h : Covers named condition names)
    (hmeets : Meets named condition met) : Covers named met names :=
  fun target name priority found hreference hfound =>
    h target name priority found (hmeets.trans hreference) hfound

/-- A name that was followed is not met again, as it would lead back to what it stands for. -/
theorem Covers.erase {target : String} {name : Option String} {priority : Option Priority}
    {found : Condition} (h : Covers named condition names) (hacyclic : Acyclic named condition)
    (hmeets : Meets named condition (.reference target name priority))
    (hfound : named.find? (.str target) = some found) :
    Covers named found (names.erase target) ∧ (names.erase target).card < names.card := by
  have hnext : Meets named condition found := hmeets.tail (.reference name priority hfound)
  refine ⟨?_, Finset.card_erase_lt_of_mem (h target name priority found hmeets hfound)⟩
  intro again name' priority' found' hagain hfound'
  refine Finset.mem_erase.2 ⟨?_, h again name' priority' found' (hnext.trans hagain) hfound'⟩
  rintro rfl
  exact hacyclic found hnext (.tail' hagain (.reference name' priority' hfound))

/-- A condition whose names are some of the given ones is evaluated no deeper than there are such
names. -/
theorem evaluateUpTo_eq_of_covers (hnamed : meaning.named = fun _ => named)
    (hacyclic : Acyclic named condition) (hcovers : Covers named condition names)
    {depth deeper : Nat} (hdepth : names.card < depth) (hdeeper : names.card < deeper) :
    condition.evaluateUpTo meaning further deeper = condition.evaluateUpTo meaning beyond depth := by
  induction depth generalizing condition names deeper with
  | zero => cases hdepth
  | succ depth ih =>
      obtain ⟨deeper, rfl⟩ := Nat.exists_eq_succ_of_ne_zero (Nat.ne_zero_of_lt hdeeper)
      refine evaluateWith_congr condition rfl (fun _ _ _ _ => rfl)
        fun target name priority hpart world found hfound => ?_
      rw [hnamed] at hfound
      have hmeets : Meets named condition (.reference target name priority) :=
        meets_of_mem_parts hpart
      obtain ⟨hrest, hcard⟩ := hcovers.erase hacyclic hmeets hfound
      have hnext := hacyclic.of_meets (hmeets.tail (.reference name priority hfound))
      exact ih hnext hrest (by omega) (by omega)

/-- References are followed no deeper than there are names: what lies deeper does not matter. -/
theorem evaluateUpTo_eq (hnamed : meaning.named = fun _ => named)
    (hacyclic : Acyclic named condition) {depth deeper : Nat} (hdepth : named.length < depth)
    (hdeeper : named.length < deeper) :
    condition.evaluateUpTo meaning further deeper = condition.evaluateUpTo meaning beyond depth :=
  evaluateUpTo_eq_of_covers hnamed hacyclic (covers_texts named condition)
    (named.card_texts_le.trans_lt hdepth) (named.card_texts_le.trans_lt hdeeper)

end Condition

end Rulebook
