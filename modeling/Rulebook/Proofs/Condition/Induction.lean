import Rulebook.Condition.Result

/-!
Induction on conditions and on results, with what is to be proved at hand for every child of a
combinator.
-/

namespace Rulebook

@[elab_as_elim, induction_eliminator]
theorem Condition.induction {motive : Condition → Prop}
    (all : ∀ children name priority, (∀ child ∈ children, motive child) →
      motive (.all children name priority))
    (any : ∀ children name priority, (∀ child ∈ children, motive child) →
      motive (.any children name priority))
    (not : ∀ child name priority, motive child → motive (.not child name priority))
    (never : ∀ name, motive (.never name))
    (reference : ∀ target name priority, motive (.reference target name priority))
    (comparison : ∀ leaf name priority, motive (.comparison leaf name priority))
    (condition : Condition) : motive condition :=
  @Condition.rec motive (fun children => ∀ child ∈ children, motive child)
    all any not never reference comparison (fun _ h => nomatch h)
    (fun _ _ hfirst hrest _ hchild => (List.mem_cons.1 hchild).elim (· ▸ hfirst) (hrest _))
    condition

@[elab_as_elim, induction_eliminator]
theorem ConditionResult.induction {motive : ConditionResult → Prop}
    (all : ∀ head children, (∀ child ∈ children, motive child) → motive (.all head children))
    (any : ∀ head children, (∀ child ∈ children, motive child) → motive (.any head children))
    (not : ∀ head child, motive child → motive (.not head child))
    (never : ∀ head, motive (.never head))
    (reference : ∀ head, motive (.reference head))
    (comparison : ∀ head leaf sides, motive (.comparison head leaf sides))
    (result : ConditionResult) : motive result :=
  @ConditionResult.rec motive (fun children => ∀ child ∈ children, motive child)
    all any not never reference comparison (fun _ h => nomatch h)
    (fun _ _ hfirst hrest _ hchild => (List.mem_cons.1 hchild).elim (· ▸ hfirst) (hrest _))
    result

theorem Condition.skips_eq_map (conditions : List Condition) :
    skips conditions = conditions.map skip := by
  induction conditions with
  | nil => rfl
  | cons condition rest ih => rw [skips, ih, List.map_cons]

end Rulebook
