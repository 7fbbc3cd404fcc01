import Mathlib.Data.List.Forall2
import Rulebook.Proofs.Operator.Coherence

/-!
The grammar of operator names.

A name is read by taking leading parts off until what is left names a registered operator
(`Splits`).  It stands for that operator, wrapped in the decorators that the parts taken off name
(`Splits.exists_resolves`), and it is refused at the first leading part that names none
(`resolveSegments_error`).  With nothing remembered before, what is put together for a name answers
for every part of it afterwards (`lookup_grammar`).
-/

namespace Rulebook

/-- Comparing through decorators, the first one outermost: each asks its guard about the fact value
first, nothing further in runs when that says no, and otherwise its wrapping runs what is further
in. -/
def Operator.through : List Decorator → Operator → Comparison
  | [], base => base.evaluate
  | decorator :: rest, base => fun fact value => do
      if ← decorator.guard fact then decorator.wrap (through rest base) fact value else .ok false

theorem Operator.evaluate_foldr (decorators : List Decorator) (base : Operator) :
    (decorators.foldr Decorator.decorate base).evaluate = through decorators base := by
  induction decorators with
  | nil => rfl
  | cons decorator rest ih =>
      funext fact value
      rw [through, ← ih, evaluate]
      dsimp only [List.foldr_cons, Decorator.decorate]
      cases decorator.guard fact with
      | error e => rfl
      | ok accepted => cases accepted <;> rfl

namespace Registry

variable {registry : Registry} {parts : List String} {found : Resolution} {k : Nat}

/-- The least number of leading parts whose removal leaves the name of a registered operator. -/
structure Splits (registry : Registry) (parts : List String) (k : Nat) : Prop where
  more : k < parts.length
  registered : registry.operators.has (join (parts.drop k)) = true
  least : ∀ j < k, registry.operators.has (join (parts.drop j)) = false

/-- The part is not empty, and it names a registered decorator. -/
def Decorates (registry : Registry) (part : String) : Prop :=
  part ≠ "" ∧ registry.decorators.has part = true

instance : DecidablePred registry.Decorates := fun part =>
  inferInstanceAs (Decidable (part ≠ "" ∧ registry.decorators.has part = true))

/-- The part names the decorator. -/
def Names (registry : Registry) (part : String) (decorator : Decorator) : Prop :=
  part ≠ "" ∧ registry.decorators.find? part = some decorator

theorem Splits.cons {part : String} (h : Splits registry parts k)
    (hnone : registry.operators.has (join (part :: parts)) = false) :
    Splits registry (part :: parts) (k + 1) where
  more := Nat.succ_lt_succ h.more
  registered := h.registered
  least j hj := by
    cases j with
    | zero => exact hnone
    | succ j => exact h.least j (Nat.lt_of_succ_lt_succ hj)

theorem Splits.tail {part : String} (h : Splits registry (part :: parts) (k + 1)) :
    Splits registry parts k where
  more := Nat.lt_of_succ_lt_succ h.more
  registered := h.registered
  least j hj := h.least (j + 1) (Nat.succ_lt_succ hj)

/-- What resolves splits where the base is registered, after parts that name the decorators. -/
theorem Resolves.splits (h : Resolves registry parts found) :
    Splits registry parts found.decorators.length ∧
      registry.operators.find? (join (parts.drop found.decorators.length)) = some found.base ∧
      List.Forall₂ registry.Names (parts.take found.decorators.length) found.decorators := by
  induction h with
  | base hnonempty hfound =>
      refine ⟨⟨List.length_pos_iff.2 hnonempty, ?_, nofun⟩, hfound, .nil⟩
      exact Option.isSome_iff_exists.2 ⟨_, hfound⟩
  | decorated hnone _ hnamed hfound _ ih =>
      obtain ⟨hsplits, hbase, hnames⟩ := ih
      exact ⟨hsplits.cons (by rw [Table.has, hnone, Option.isSome_none]), hbase,
        .cons ⟨hnamed, hfound⟩ hnames⟩

/-- What splits after parts that name decorators resolves. -/
theorem Splits.exists_resolves (h : Splits registry parts k)
    (hdecorates : ∀ part ∈ parts.take k, registry.Decorates part) :
    ∃ found, Resolves registry parts found ∧ found.decorators.length = k := by
  induction parts generalizing k with
  | nil => exact absurd h.more (Nat.not_lt_zero k)
  | cons part rest ih =>
      cases k with
      | zero =>
          obtain ⟨entry, hentry⟩ := Option.isSome_iff_exists.1 h.registered
          exact ⟨⟨[], entry⟩, .base (List.cons_ne_nil _ _) hentry, rfl⟩
      | succ k =>
          rw [List.take_succ_cons, List.forall_mem_cons] at hdecorates
          obtain ⟨⟨hnamed, hhas⟩, hrest⟩ := hdecorates
          obtain ⟨decorator, hfound⟩ := Option.isSome_iff_exists.1 hhas
          obtain ⟨inner, hinner, hlength⟩ := ih h.tail hrest
          have hmore : rest ≠ [] := List.length_pos_iff.1 (Nat.zero_lt_of_lt h.tail.more)
          have hnone := Option.not_isSome_iff_eq_none.1 (Bool.eq_false_iff.1 (h.least 0 (Nat.succ_pos k)))
          exact ⟨⟨decorator :: inner.decorators, inner.base⟩,
            .decorated hnone hmore hnamed hfound hinner, congrArg Nat.succ hlength⟩

/-! ### Names that are refused -/

/-- How a name is refused, given the first leading part that is empty or names no decorator. -/
def refusal (name : String) : Option String → Error
  | none => .unknownOperator name
  | some part => if part.isEmpty then .unknownOperator name else .unknownDecorator name (.str part)

/-- The first part that is empty or names no decorator. -/
def stranger? (registry : Registry) (parts : List String) : Option String :=
  parts.find? fun part => part.isEmpty || !registry.decorators.has part

theorem stranger?_dropLast_cons {part : String} (hmore : parts ≠ []) :
    registry.stranger? (part :: parts).dropLast =
      if part.isEmpty || !registry.decorators.has part then some part
      else registry.stranger? parts.dropLast := by
  rw [List.dropLast_cons_of_ne_nil hmore, stranger?, List.find?_cons]
  cases part.isEmpty || !registry.decorators.has part <;> rfl

/-- A name that does not resolve is refused at the first leading part that is empty or names no
decorator, or else for what all of its leading parts leave. -/
theorem resolveSegments_error {name : String} {e : Error} (hsome : parts ≠ [])
    (h : registry.resolveSegments name parts = .error e) :
    e = refusal name (registry.stranger? parts.dropLast) := by
  induction parts with
  | nil => exact absurd rfl hsome
  | cons part rest ih =>
      rw [resolveSegments] at h
      split at h
      · cases h
      · split at h
        · next hclosed =>
            cases h
            cases rest with
            | nil => rfl
            | cons second others =>
                have hblank : part.isEmpty = true := by simpa using hclosed
                rw [stranger?_dropLast_cons (List.cons_ne_nil _ _), hblank, Bool.true_or, if_pos rfl,
                  refusal, if_pos hblank]
        · next hopen =>
            rw [Bool.or_eq_true, not_or] at hopen
            obtain ⟨hmore, hnamed⟩ := hopen
            have hmore : rest ≠ [] := fun hnil => hmore (List.isEmpty_iff.2 hnil)
            rw [stranger?_dropLast_cons hmore, Bool.eq_false_iff.2 hnamed, Bool.false_or, Table.has]
            split at h
            · next hunknown =>
                cases h
                rw [hunknown, Option.isSome_none, Bool.not_false, if_pos rfl, refusal, if_neg hnamed]
            · next decorator hfound =>
                rw [hfound, Option.isSome_some, Bool.not_true, if_neg Bool.false_ne_true]
                split at h
                · next cause hcause =>
                    cases h
                    exact ih hmore hcause
                · cases h

/-! ### What is remembered afterwards -/

/-- Putting an operator together where nothing was remembered leaves what was put together on the
way, and nothing else. -/
theorem find?_compose (h : Named registry) (hempty : registry.composed = [])
    (hplain : ∀ part ∈ parts, Plain part) (hresolves : Resolves registry parts found) :
    (∀ name, (registry.compose found.base found.decorators).2.composed.has name = true →
      ∃ j < found.decorators.length, name = join (parts.drop j)) ∧
    ∀ j < found.decorators.length, ∃ entry,
      (registry.compose found.base found.decorators).2.composed.find? (join (parts.drop j)) =
        some entry ∧
      entry.operator = (found.decorators.drop j).foldr Decorator.decorate found.base.operator ∧
      (j = 0 → entry = (registry.compose found.base found.decorators).1) := by
  induction hresolves with
  | base _ _ =>
      refine ⟨fun name hname => ?_, fun j hj => absurd hj (Nat.not_lt_zero j)⟩
      rw [compose, hempty] at hname
      cases hname
  | @decorated part rest decorator inner hnone hmore hnamed hfound hresolves ih =>
      obtain ⟨hknown, hfind⟩ := ih fun part hpart => hplain part (List.mem_cons_of_mem _ hpart)
      obtain ⟨hoperator, hname, _⟩ :=
        h.compose (fun part hpart => hplain part (List.mem_cons_of_mem _ hpart)) hresolves
      have hkey : (decorator.decorate
          (registry.compose inner.base inner.decorators).1.operator).name = join (part :: rest) := by
        rw [join_cons hmore, hoperator, ← hname, ← h.decorator _ _ hfound]
        rfl
      have hcomposed :
          (registry.compose inner.base (decorator :: inner.decorators)).2.composed =
            (registry.compose inner.base inner.decorators).2.composed.insertNew
              (join (part :: rest))
              (registry.compose inner.base (decorator :: inner.decorators)).1 := by
        rw [← hkey]
        rfl
      have hfresh : (registry.compose inner.base inner.decorators).2.composed.has
          (join (part :: rest)) = false := by
        refine Bool.eq_false_iff.2 fun hhas => ?_
        obtain ⟨j, hj, hjoin⟩ := hknown _ hhas
        have hlt : j < rest.length := Nat.lt_trans hj hresolves.splits.1.more
        -- A name has one list of parts, and what is left of the others is shorter.
        have hparts : part :: rest = rest.drop j := by
          rw [← segments_join (List.cons_ne_nil _ _) hplain, hjoin]
          exact segments_join (List.drop_eq_nil_iff.not.2 (Nat.not_le.2 hlt)) fun other hother =>
            hplain other (List.mem_cons_of_mem _ (List.mem_of_mem_drop hother))
        have hlength := congrArg List.length hparts
        rw [List.length_cons, List.length_drop] at hlength
        omega
      rw [hcomposed]
      refine ⟨fun name hhas => ?_, fun j hj => ?_⟩
      · obtain ⟨entry, hentry⟩ := Option.isSome_iff_exists.1 hhas
        rcases Table.find?_insertNew hentry with hold | ⟨rfl, _⟩
        · obtain ⟨j, hj, hjoin⟩ := hknown name (Option.isSome_iff_exists.2 ⟨entry, hold⟩)
          exact ⟨j + 1, Nat.succ_lt_succ hj, hjoin⟩
        · exact ⟨0, Nat.succ_pos _, rfl⟩
      · cases j with
        | zero =>
            refine ⟨_, Table.find?_insertNew_self _ hfresh, ?_, fun _ => rfl⟩
            exact congrArg decorator.decorate hoperator
        | succ j =>
            obtain ⟨entry, hentry, hsame, _⟩ := hfind j (Nat.lt_of_succ_lt_succ hj)
            exact ⟨entry, Table.find?_insertNew_of_some _ _ hentry, hsame,
              fun hzero => absurd hzero (Nat.succ_ne_zero j)⟩

/-! ### Looking a name up -/

/-- The name splits after parts that name decorators. -/
def Grammatical (registry : Registry) (name : String) (k : Nat) : Prop :=
  Splits registry (segments name) k ∧ ∀ part ∈ (segments name).take k, registry.Decorates part

theorem Resolves.grammatical {name : String} (h : Resolves registry (segments name) found) :
    registry.Grammatical name found.decorators.length := by
  obtain ⟨hsplits, _, hnames⟩ := h.splits
  have hdecorates := hnames.imp fun part decorator hpart =>
    show registry.Decorates part ∧ registry.Names part decorator from
      ⟨⟨hpart.1, Option.isSome_iff_exists.2 ⟨decorator, hpart.2⟩⟩, hpart⟩
  exact ⟨hsplits, ((List.forall₂_and_left _ _).1 hdecorates).1⟩

/-- A name splits in one way. -/
theorem Splits.unique {other : Nat} (h : Splits registry parts k)
    (hother : Splits registry parts other) : k = other := by
  rcases Nat.lt_trichotomy k other with hlt | heq | hlt
  · exact absurd h.registered (Bool.eq_false_iff.1 (hother.least k hlt))
  · exact heq
  · exact absurd hother.registered (Bool.eq_false_iff.1 (h.least other hlt))

/-- Where nothing is remembered, whoever looks up a name that resolves puts it together. -/
theorem lookup_of_resolves {name : String} (hempty : registry.composed = [])
    (hresolves : Resolves registry (segments name) found) :
    registry.lookup name = (.ok (registry.compose found.base found.decorators).1,
      (registry.compose found.base found.decorators).2) := by
  cases hoperator : registry.operators.find? name with
  | some entry =>
      have hwhole : Resolves registry (segments name) ⟨[], entry⟩ :=
        .base (segments_ne_nil name) (by rw [join_segments, hoperator])
      rw [hresolves.unique hwhole, lookup, hoperator]
      rfl
  | none =>
      have hresolve : registry.resolve name = .ok found :=
        (resolveSegments_eq_ok_iff name).2 hresolves
      rw [lookup, hoperator, hempty, hresolve]
      rfl

/-- Where nothing is remembered, a name that does not resolve is refused, and nothing changes. -/
theorem lookup_of_error {name : String} {e : Error} (hempty : registry.composed = [])
    (hresolve : registry.resolve name = .error e) : registry.lookup name = (.error e, registry) := by
  cases hoperator : registry.operators.find? name with
  | some entry =>
      have hwhole : registry.resolve name = .ok ⟨[], entry⟩ :=
        (resolveSegments_eq_ok_iff name).2
          (.base (segments_ne_nil name) (by rw [join_segments, hoperator]))
      cases hresolve.symm.trans hwhole
  | none =>
      rw [lookup, hoperator, hempty, hresolve]
      rfl

/-- The error that a name is refused with. -/
def complaint (registry : Registry) (name : String) : Error :=
  refusal name (registry.stranger? (leadingSegments name))

/-- How names are read by a registry that remembers nothing.

A name stands for an operator exactly if it is grammatical.  Then it stands for what is registered
under what is left of it, wrapped in the decorators of the parts before, the last one first;
afterwards every part of the name that was put together is looked up without anything being put
together again.  Any other name is refused, and nothing changes. -/
theorem get_grammar (h : Named registry) (hempty : registry.composed = []) (name : String) :
    ((∃ operator, (registry.get name).1 = .ok operator) ↔ ∃ k, registry.Grammatical name k) ∧
    (∀ k, registry.Grammatical name k → ∃ decorators base operator later,
      List.Forall₂ registry.Names ((segments name).take k) decorators ∧
      registry.operators.find? (join ((segments name).drop k)) = some base ∧
      registry.get name = (.ok operator, later) ∧ registry.has name = (true, later) ∧
      operator = decorators.foldr Decorator.decorate base.operator ∧
      operator.evaluate = Operator.through decorators base.operator ∧
      ∀ j < k, ∃ entry, later.lookup (join ((segments name).drop j)) = (.ok entry, later) ∧
        entry.operator = (decorators.drop j).foldr Decorator.decorate base.operator ∧
        (j = 0 → (registry.lookup name).1 = .ok entry)) ∧
    ((¬ ∃ k, registry.Grammatical name k) →
      registry.get name = (.error (registry.complaint name), registry) ∧
      registry.has name = (false, registry)) := by
  refine ⟨⟨fun hget => ?grammatical, fun hgrammatical => ?succeeds⟩, fun k hgrammatical => ?reads,
    fun hnone => ?refused⟩
  case grammatical =>
    obtain ⟨operator, hget⟩ := hget
    cases hresolve : registry.resolve name with
    | ok found => exact ⟨_, ((resolveSegments_eq_ok_iff name).1 hresolve).grammatical⟩
    | error e =>
        rw [get, lookup_of_error hempty hresolve] at hget
        cases hget
  case succeeds =>
    obtain ⟨k, hsplits, hdecorates⟩ := hgrammatical
    obtain ⟨found, hresolves, _⟩ := hsplits.exists_resolves hdecorates
    rw [get, lookup_of_resolves hempty hresolves]
    exact ⟨_, rfl⟩
  case reads =>
    obtain ⟨found, hresolves, rfl⟩ := hgrammatical.1.exists_resolves hgrammatical.2
    obtain ⟨hsplits, hbase, hnames⟩ := hresolves.splits
    have hplain : ∀ part ∈ segments name, Plain part := fun part hpart => plain_of_mem_segments hpart
    have hlookup := lookup_of_resolves hempty hresolves
    obtain ⟨hoperator, _⟩ := h.compose hplain hresolves
    obtain ⟨_, hfind⟩ := find?_compose h hempty hplain hresolves
    refine ⟨found.decorators, found.base, found.operator,
      (registry.compose found.base found.decorators).2, hnames, hbase, ?_, ?_, rfl,
      Operator.evaluate_foldr found.decorators found.base.operator, fun j hj => ?_⟩
    · rw [get, hlookup, ← hoperator]
      rfl
    · rw [has, hlookup]
      rfl
    · obtain ⟨entry, hentry, hsame, hfirst⟩ := hfind j hj
      have hnone := Option.isNone_iff_eq_none.1 (Option.isSome_eq_false_iff.1 (hsplits.least j hj))
      refine ⟨entry, ?_, hsame, fun hzero => ?_⟩
      · rw [lookup, compose_operators, hnone, hentry]
      · rw [hlookup, hfirst hzero]
  case refused =>
    cases hresolve : registry.resolve name with
    | ok found =>
        exact absurd ⟨_, ((resolveSegments_eq_ok_iff name).1 hresolve).grammatical⟩ hnone
    | error e =>
        have hcause := resolveSegments_error (segments_ne_nil name) hresolve
        rw [get, has, lookup_of_error hempty hresolve, complaint, leadingSegments, ← hcause]
        exact ⟨rfl, rfl⟩

/-- An operator whose name holds the separator, and a decorator. -/
def colonRegistry : Registry :=
  (empty.addOperator ⟨"a:b", Guard.none, fun fact value => .ok (fact == value)⟩).addDecorator
    ⟨"x", Guard.none, Builtin.negate⟩

theorem named_colonRegistry : Named colonRegistry :=
  ((sound_empty.1.addOperator _).addDecorator _)

/-- The name of the operator is left of one name, after decorators; in front of it in another stands
a part that names no decorator. -/
theorem get_grammar_colonRegistry :
    colonRegistry.Grammatical "x:x:a:b" 2 ∧
    (∃ operator, (colonRegistry.get "x:x:a:b").1 = .ok operator) ∧
    colonRegistry.get "x:y:a:b" =
      (.error (.unknownDecorator "x:y:a:b" (.str "y")), colonRegistry) := by
  have hgrammatical : colonRegistry.Grammatical "x:x:a:b" 2 :=
    ⟨⟨by decide, by decide, by decide⟩, by decide⟩
  have hnone : ¬ ∃ k, colonRegistry.Grammatical "x:y:a:b" k := by
    rintro ⟨k, hsplits, hdecorates⟩
    have hk : k = 2 := hsplits.unique ⟨by decide, by decide, by decide⟩
    subst hk
    exact absurd (hdecorates "y" (by decide)) (by decide)
  have hgrammar := get_grammar named_colonRegistry rfl
  exact ⟨hgrammatical, (hgrammar "x:x:a:b").1.2 ⟨2, hgrammatical⟩, ((hgrammar "x:y:a:b").2.2 hnone).1⟩

end Registry

end Rulebook
