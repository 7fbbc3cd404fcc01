import Rulebook.Proofs.Operator.Name
import Rulebook.Proofs.Table

/-!
What names of operators stand for.

`Resolves` reads a name as `resolve` does (`resolveSegments_eq_ok_iff`).  Its rules tell which
entries of the registry a resolution depends on: the operators named by what is left of the name
part by part, and the decorators named by the parts before the last.  A change of the registry
forgets the compositions that depend on what it changes (`kept_removeOperator`,
`kept_addDecorator`, `kept_removeDecorator`).
-/

namespace Rulebook.Registry

variable {registry changed : Registry} {parts : List String} {found : Resolution}

/-- The parts of a name are those of a registered operator, or of decorators before what they
decorate. -/
inductive Resolves (registry : Registry) : List String → Resolution → Prop where
  | base {parts : List String} {entry : RegistryEntry} (nonempty : parts ≠ [])
      (found : registry.operators.find? (join parts) = some entry) :
      Resolves registry parts ⟨[], entry⟩
  | decorated {part : String} {rest : List String} {decorator : Decorator} {inner : Resolution}
      (unregistered : registry.operators.find? (join (part :: rest)) = none) (more : rest ≠ [])
      (named : part ≠ "") (found : registry.decorators.find? part = some decorator)
      (resolves : Resolves registry rest inner) :
      Resolves registry (part :: rest) ⟨decorator :: inner.decorators, inner.base⟩

theorem resolveSegments_eq_ok_iff (name : String) :
    registry.resolveSegments name parts = .ok found ↔ Resolves registry parts found := by
  constructor
  · intro h
    induction parts generalizing found with
    | nil => cases h
    | cons part rest ih =>
        rw [resolveSegments] at h
        split at h
        · next entry hentry =>
            cases h
            exact .base (List.cons_ne_nil _ _) hentry
        · next hnone =>
            split at h
            · cases h
            · next hopen =>
                rw [Bool.or_eq_true, not_or] at hopen
                split at h
                · cases h
                · next decorator hdecorator =>
                    split at h
                    · cases h
                    · next inner hinner =>
                        cases h
                        exact .decorated hnone (by simpa using hopen.1) (by simpa using hopen.2)
                          hdecorator (ih hinner)
  · intro h
    induction h with
    | @base parts entry hnonempty hfound =>
        cases parts with
        | nil => exact absurd rfl hnonempty
        | cons part rest => rw [resolveSegments, hfound]
    | decorated hnone hmore hnamed hfound _ ih =>
        rw [resolveSegments, hnone]
        simp [hmore, hnamed, hfound, ih]

theorem Resolves.unique {other : Resolution} (h : Resolves registry parts found)
    (hother : Resolves registry parts other) : found = other := by
  have hsame := (resolveSegments_eq_ok_iff "").2 h
  rw [(resolveSegments_eq_ok_iff "").2 hother] at hsame
  exact (Except.ok.inj hsame).symm

/-- The parts of a name are those of a decorator before what it decorates, whatever the whole name
stands for. -/
inductive Composes (registry : Registry) : List String → Resolution → Prop where
  | intro {part : String} {rest : List String} {decorator : Decorator} {inner : Resolution}
      (more : rest ≠ []) (named : part ≠ "")
      (found : registry.decorators.find? part = some decorator)
      (resolves : Resolves registry rest inner) :
      Composes registry (part :: rest) ⟨decorator :: inner.decorators, inner.base⟩

theorem Composes.resolves (h : Composes registry parts found)
    (hnone : registry.operators.find? (join parts) = none) : Resolves registry parts found := by
  cases h with
  | intro hmore hnamed hfound hresolves => exact .decorated hnone hmore hnamed hfound hresolves

/-- The base is registered under what is left of the name. -/
theorem Resolves.base_registered (h : Resolves registry parts found) :
    ∃ rest, rest ≠ [] ∧ rest <:+ parts ∧
      registry.operators.find? (join rest) = some found.base := by
  induction h with
  | base hnonempty hfound => exact ⟨_, hnonempty, List.suffix_rfl, hfound⟩
  | @decorated part rest _ _ _ _ _ _ _ ih =>
      obtain ⟨tail, htail, hsuffix, hfound⟩ := ih
      exact ⟨tail, htail, hsuffix.trans (List.suffix_cons part rest), hfound⟩

/-! ### What a resolution depends on -/

theorem Resolves.frame (h : Resolves registry parts found)
    (hoperators : ∀ rest, rest ≠ [] → rest <:+ parts →
      changed.operators.find? (join rest) = registry.operators.find? (join rest))
    (hdecorators : ∀ part ∈ parts.dropLast,
      changed.decorators.find? part = registry.decorators.find? part) :
    Resolves changed parts found := by
  induction h with
  | base hnonempty hfound =>
      exact .base hnonempty ((hoperators _ hnonempty List.suffix_rfl).trans hfound)
  | @decorated part rest decorator inner hnone hmore hnamed hfound _ ih =>
      rw [List.dropLast_cons_of_ne_nil hmore] at hdecorators
      refine .decorated ((hoperators _ (List.cons_ne_nil _ _) List.suffix_rfl).trans hnone) hmore
        hnamed ((hdecorators part List.mem_cons_self).trans hfound) (ih ?_ ?_)
      · exact fun parts hparts hsuffix =>
          hoperators parts hparts (hsuffix.trans (List.suffix_cons part rest))
      · exact fun part hpart => hdecorators part (List.mem_cons_of_mem _ hpart)

/-- A composition depends on operators named by what comes after some of its parts, and on
decorators named by parts before the last. -/
theorem Composes.frame (h : Composes registry parts found)
    (hoperators : ∀ before rest, before ≠ [] → rest ≠ [] → before ++ rest = parts →
      changed.operators.find? (join rest) = registry.operators.find? (join rest))
    (hdecorators : ∀ part ∈ parts.dropLast,
      changed.decorators.find? part = registry.decorators.find? part) :
    Composes changed parts found := by
  cases h with
  | @intro part rest decorator inner hmore hnamed hfound hresolves =>
      rw [List.dropLast_cons_of_ne_nil hmore] at hdecorators
      refine .intro hmore hnamed ((hdecorators part List.mem_cons_self).trans hfound)
        (hresolves.frame ?_ ?_)
      · rintro parts hparts ⟨before, rfl⟩
        exact hoperators (part :: before) parts (List.cons_ne_nil _ _) hparts rfl
      · exact fun part hpart => hdecorators part (List.mem_cons_of_mem _ hpart)

theorem operators_addOperator (registry : Registry) (operator : Operator) (name : String) :
    (registry.addOperator operator).operators.find? name =
      if operator.name == name then some ⟨operator, registry.nextSerial⟩
      else registry.operators.find? name :=
  Table.find?_insert registry.operators operator.name name _

/-- With another operator registered, a name stands for what it did, unless it is that operator's
name or ends in it. -/
theorem Resolves.addOperator (h : Resolves registry parts found) (operator : Operator) :
    Resolves (registry.addOperator operator) parts found ∨
      ∃ decorators rest, rest ≠ [] ∧ rest <:+ parts ∧ join rest = operator.name ∧
        Resolves (registry.addOperator operator) parts
          ⟨decorators, ⟨operator, registry.nextSerial⟩⟩ := by
  induction h with
  | @base parts entry hnonempty hfound =>
      by_cases hname : operator.name = join parts
      · refine .inr ⟨[], parts, hnonempty, List.suffix_rfl, hname.symm, .base hnonempty ?_⟩
        rw [operators_addOperator, if_pos (beq_iff_eq.2 hname)]
      · refine .inl (.base hnonempty ?_)
        rw [operators_addOperator, if_neg fun heq => hname (beq_iff_eq.1 heq), hfound]
  | @decorated part rest decorator inner hnone hmore hnamed hfound _ ih =>
      by_cases hname : operator.name = join (part :: rest)
      · refine .inr ⟨[], part :: rest, List.cons_ne_nil _ _, List.suffix_rfl, hname.symm,
          .base (List.cons_ne_nil _ _) ?_⟩
        rw [operators_addOperator, if_pos (beq_iff_eq.2 hname)]
      · have hnone' :
            (registry.addOperator operator).operators.find? (join (part :: rest)) = none := by
          rw [operators_addOperator, if_neg fun heq => hname (beq_iff_eq.1 heq), hnone]
        rcases ih with hsame | ⟨decorators, tail, hsome, hsuffix, hjoin, hresolves⟩
        · exact .inl (.decorated hnone' hmore hnamed hfound hsame)
        · exact .inr ⟨decorator :: decorators, tail, hsome,
            hsuffix.trans (List.suffix_cons part rest), hjoin,
            .decorated hnone' hmore hnamed hfound hresolves⟩

theorem Composes.addOperator (h : Composes registry parts found) (operator : Operator) :
    Composes (registry.addOperator operator) parts found ∨
      ∃ decorators rest, rest ≠ [] ∧ rest <:+ parts ∧ join rest = operator.name ∧
        Composes (registry.addOperator operator) parts
          ⟨decorators, ⟨operator, registry.nextSerial⟩⟩ := by
  cases h with
  | @intro part rest decorator inner hmore hnamed hfound hresolves =>
      have hfound' : (registry.addOperator operator).decorators.find? part = some decorator :=
        hfound
      rcases hresolves.addOperator operator with
        hsame | ⟨decorators, tail, hsome, hsuffix, hjoin, hnew⟩
      · exact .inl (.intro hmore hnamed hfound' hsame)
      · exact .inr ⟨decorator :: decorators, tail, hsome,
          hsuffix.trans (List.suffix_cons part rest), hjoin, .intro hmore hnamed hfound' hnew⟩

/-! ### What a change leaves -/

theorem find?_forget {stale : String → Bool} {name : String} {entry : RegistryEntry}
    (h : (registry.forget stale).composed.find? name = some entry) :
    registry.composed.find? name = some entry ∧ stale name = false := by
  have hfilter := Table.find?_filter registry.composed (fun known => !stale known) name
  rw [forget, hfilter] at h
  split at h
  · next hkeep => exact ⟨h, by simpa using hkeep⟩
  · cases h

theorem lastSegment_of_suffix {name part : String} (h : [part] <:+ segments name) :
    lastSegment name = part := by
  obtain ⟨before, hbefore⟩ := h
  rw [lastSegment, ← hbefore, List.getLast?_concat]
  rfl

/-- A name of several parts holds a separator. -/
theorem mem_join_of_two {first second : String} {rest : List String} :
    ':' ∈ (join (first :: second :: rest)).toList := by
  rw [join_cons (List.cons_ne_nil _ _), String.toList_append, String.toList_append]
  have hseparator : ':' ∈ Decorator.separator.toList := by decide
  exact List.mem_append_left _ (List.mem_append_right _ hseparator)

/-- A name of one part is what is left of a name only as its last part. -/
theorem lastSegment_of_join_suffix {name part : String} {rest : List String} (hplain : Plain part)
    (hrest : rest ≠ []) (hsuffix : rest <:+ segments name) (hjoin : join rest = part) :
    lastSegment name = part := by
  match rest, hrest with
  | [last], _ =>
      have hlast : join [last] = last := String.intercalate_singleton
      rw [lastSegment_of_suffix hsuffix, ← hjoin, hlast]
  | first :: second :: rest, _ =>
      rw [Plain, ← hjoin] at hplain
      exact absurd mem_join_of_two hplain

/-- A proper part of a name that comes last follows a separator. -/
theorem separated_suffix {name : String} {before rest : List String} (hbefore : before ≠ [])
    (hrest : rest ≠ []) (hparts : before ++ rest = segments name) :
    (Decorator.separator ++ join rest).toList <:+ name.toList := by
  have hname : join (segments name) = name := join_segments name
  rw [← hparts, join_append hbefore hrest, String.append_assoc] at hname
  have htext := congrArg String.toList hname
  rw [String.toList_append] at htext
  exact ⟨_, htext⟩

/-- A composition that is kept when an operator is removed ends in nothing of that name. -/
theorem kept_removeOperator {name known : String} {entry : RegistryEntry}
    (h : (registry.removeOperator name).2.composed.find? known = some entry) :
    registry.composed.find? known = some entry ∧ ∀ before rest, before ≠ [] → rest ≠ [] →
      before ++ rest = segments known →
        (registry.removeOperator name).2.operators.find? (join rest) =
          registry.operators.find? (join rest) := by
  have hkept : (registry.forget fun composed => (Decorator.separator ++ name).toList.isSuffixOf
      composed.toList).composed.find? known = some entry := h
  obtain ⟨hold, hends⟩ := find?_forget hkept
  refine ⟨hold, fun before rest hbefore hrest hparts => ?_⟩
  have herase : (registry.operators.erase name).find? (join rest) =
      registry.operators.find? (join rest) := by
    rw [Table.find?_erase, if_neg]
    intro hname
    have hsuffix := separated_suffix hbefore hrest hparts
    rw [beq_iff_eq.1 hname, ← List.isSuffixOf_iff_suffix, hends] at hsuffix
    cases hsuffix
  exact herase

/-- A composition that is kept when a decorator is registered has no part of that name. -/
theorem kept_addDecorator {decorator : Decorator} {known : String} {entry : RegistryEntry}
    (h : (registry.addDecorator decorator).composed.find? known = some entry) :
    registry.composed.find? known = some entry ∧ ∀ part ∈ leadingSegments known,
      (registry.addDecorator decorator).decorators.find? part =
        registry.decorators.find? part := by
  obtain ⟨hold, hleading⟩ := find?_forget h
  refine ⟨hold, fun part hpart => ?_⟩
  have hinsert : (registry.decorators.insert decorator.name decorator).find? part =
      registry.decorators.find? part := by
    rw [Table.find?_insert, if_neg]
    intro hname
    rw [List.contains_eq_mem, decide_eq_false_iff_not, beq_iff_eq.1 hname] at hleading
    exact hleading hpart
  exact hinsert

/-- A composition that is kept when a decorator is removed has no part of that name. -/
theorem kept_removeDecorator {name known : String} {entry : RegistryEntry}
    (h : (registry.removeDecorator name).2.composed.find? known = some entry) :
    registry.composed.find? known = some entry ∧ ∀ part ∈ leadingSegments known,
      (registry.removeDecorator name).2.decorators.find? part =
        registry.decorators.find? part := by
  have hkept : (registry.forget fun composed =>
      (leadingSegments composed).contains name).composed.find? known = some entry := h
  obtain ⟨hold, hleading⟩ := find?_forget hkept
  refine ⟨hold, fun part hpart => ?_⟩
  have herase : (registry.decorators.erase name).find? part = registry.decorators.find? part := by
    rw [Table.find?_erase, if_neg]
    intro hname
    rw [List.contains_eq_mem, decide_eq_false_iff_not, ← beq_iff_eq.1 hname] at hleading
    exact hleading hpart
  exact herase

/-! ### Names of what is registered -/

/-- Everything that is registered stands under its own name. -/
structure Named (registry : Registry) : Prop where
  operator : ∀ name entry, registry.operators.find? name = some entry →
    entry.operator.name = name
  decorator : ∀ name decorator, registry.decorators.find? name = some decorator →
    decorator.name = name

theorem Named.addOperator (h : Named registry) (operator : Operator) :
    Named (registry.addOperator operator) where
  operator name entry hentry := by
    rw [operators_addOperator] at hentry
    split at hentry
    · next hname =>
        obtain rfl := Option.some.inj hentry
        exact beq_iff_eq.1 hname
    · exact h.operator name entry hentry
  decorator := h.decorator

theorem Named.removeOperator (h : Named registry) (name : String) :
    Named (registry.removeOperator name).2 where
  operator known entry hentry := by
    have herase : (registry.operators.erase name).find? known = some entry := hentry
    rw [Table.find?_erase] at herase
    split at herase
    · cases herase
    · exact h.operator known entry herase
  decorator := h.decorator

theorem Named.addDecorator (h : Named registry) (decorator : Decorator) :
    Named (registry.addDecorator decorator) where
  operator := h.operator
  decorator name entry hentry := by
    have hinsert : (registry.decorators.insert decorator.name decorator).find? name =
        some entry := hentry
    rw [Table.find?_insert] at hinsert
    split at hinsert
    · next hname =>
        obtain rfl := Option.some.inj hinsert
        exact beq_iff_eq.1 hname
    · exact h.decorator name entry hinsert

theorem Named.removeDecorator (h : Named registry) (name : String) :
    Named (registry.removeDecorator name).2 where
  operator := h.operator
  decorator known entry hentry := by
    have herase : (registry.decorators.erase name).find? known = some entry := hentry
    rw [Table.find?_erase] at herase
    split at herase
    · cases herase
    · exact h.decorator known entry herase

end Rulebook.Registry
