import Mathlib.Data.ENat.Basic
import Mathlib.Data.List.Forall2
import Rulebook.Strand.Loop

/-!
Pledges of strands.

Strands work on one world and wait for each other, so what one of them may rely on is what the
others have taken upon themselves.  A pledge says what will hold of the outcome of a strand; an
invariant says what holds of the world whenever a strand gives its turn back.  `Keeps` says that a
strand keeps its pledge and the invariant if all others do.

A pledge also has a rank.  A strand of finite rank waits for strands of lower rank only, so such
strands never wait in a circle.
-/

namespace Rulebook.Strand

variable {σ ρ : Type}

/-- What a strand has taken upon itself: what holds of its outcome, and how far it waits. -/
structure Pledge (ρ : Type) where
  rank : ℕ∞
  holds : ρ → Prop

/-- The pledges of all strands so far, by number. -/
abbrev Pledges (ρ : Type) := List (Pledge ρ)

/-- What may hold of a world, given the pledges of the strands in it. -/
abbrev Assertion (σ ρ : Type) := Pledges ρ → σ → Prop

/-- What holds of the world whenever a strand gives its turn back.  Further strands do not break
it. -/
structure Invariant (σ ρ : Type) where
  holds : Assertion σ ρ
  mono : ∀ {pledges later : Pledges ρ} {world : σ}, pledges <+: later → holds pledges world →
    holds later world

instance : CoeFun (Invariant σ ρ) fun _ => Assertion σ ρ := ⟨Invariant.holds⟩

/-- An invariant that is about the world only. -/
def Invariant.ofWorld (holds : σ → Prop) : Invariant σ ρ where
  holds _ world := holds world
  mono _ h := h

/-- The outcome is one that the strand has pledged. -/
def Admits (pledges : Pledges ρ) (strand : Nat) (outcome : ρ) : Prop :=
  ∃ pledge, pledges[strand]? = some pledge ∧ pledge.holds outcome

/-- The outcomes that are known are ones that the strands have pledged. -/
def AdmitsEach (pledges : Pledges ρ) (strands : List Nat) (known : List (Option ρ)) : Prop :=
  List.Forall₂ (fun strand outcome? => ∀ outcome, outcome? = some outcome →
    Admits pledges strand outcome) strands known

/-- Something holds whenever a strand gets its turn from now on. -/
def Lasting (inv : Invariant σ ρ) (pledges : Pledges ρ) (holds : Assertion σ ρ) : Prop :=
  ∀ later world, pledges <+: later → inv later world → holds later world

/-- A strand with this pledge may wait for others.  If its rank is finite, theirs are lower, and
their outcomes are enough. -/
def MayAwait (own : Pledge ρ) (pledges : Pledges ρ) (strands : List Nat)
    (enough : List (Option ρ) → Bool) : Prop :=
  own.rank = ⊤ ∨
    (∀ strand ∈ strands, ∃ pledge, pledges[strand]? = some pledge ∧ pledge.rank < own.rank) ∧
      ∀ known, known.length = strands.length → known.all Option.isSome = true →
        enough known = true

/-- A strand that has its turn in a world keeps its pledge, and the invariant whenever it gives its
turn back. -/
def Keeps (inv : Invariant σ ρ) : Strand σ ρ → Pledge ρ → Assertion σ ρ
  | .done outcome, own, pledges, world => own.holds outcome ∧ inv pledges world
  | .read next, own, pledges, world => Keeps inv (next world) own pledges world
  | .write world next, own, pledges, _ => Keeps inv next own pledges world
  | .pause next, own, pledges, world => inv pledges world ∧ Lasting inv pledges (Keeps inv next own)
  | .spawn child next, own, pledges, world =>
      ∃ pledge, Lasting inv (pledges ++ [pledge]) (Keeps inv child pledge) ∧
        Keeps inv (next pledges.length) own (pledges ++ [pledge]) world
  | .watch strand change next, own, pledges, world =>
      (∀ outcome, Admits pledges strand outcome →
        Lasting inv pledges fun later world => inv later (change outcome world)) ∧
        Keeps inv next own pledges world
  | .await strands enough next, own, pledges, world =>
      inv pledges world ∧ MayAwait own pledges strands enough ∧
        ∀ known, enough known = true → Lasting inv pledges fun later world =>
          AdmitsEach later strands known → Keeps inv (next known) own later world

theorem getElem?_mono {pledges later : Pledges ρ} (hlater : pledges <+: later) {strand : Nat}
    {pledge : Pledge ρ} (h : pledges[strand]? = some pledge) : later[strand]? = some pledge := by
  obtain ⟨hlt, rfl⟩ := List.getElem?_eq_some_iff.1 h
  exact List.prefix_iff_getElem?.1 hlater strand hlt

theorem Admits.mono {pledges later : Pledges ρ} {strand : Nat} {outcome : ρ}
    (h : Admits pledges strand outcome) (hlater : pledges <+: later) :
    Admits later strand outcome := by
  obtain ⟨pledge, hpledge, hholds⟩ := h
  exact ⟨pledge, getElem?_mono hlater hpledge, hholds⟩

/-- What a strand pledged once is all that it ever pledges. -/
theorem Admits.of_later {pledges later : Pledges ρ} {strand : Nat} {outcome : ρ}
    (h : Admits later strand outcome) (hlater : pledges <+: later)
    (hstrand : strand < pledges.length) : Admits pledges strand outcome := by
  obtain ⟨pledge, hpledge, hholds⟩ := h
  have hsame := getElem?_mono hlater (List.getElem?_eq_getElem hstrand)
  rw [hpledge, Option.some.injEq] at hsame
  exact ⟨pledge, by rw [hsame, List.getElem?_eq_getElem hstrand], hholds⟩

theorem AdmitsEach.mono {pledges later : Pledges ρ} {strands : List Nat} {known : List (Option ρ)}
    (h : AdmitsEach pledges strands known) (hlater : pledges <+: later) :
    AdmitsEach later strands known :=
  h.imp fun _ _ hadmits outcome hknown => (hadmits outcome hknown).mono hlater

/-- One more outcome is known of the strands. -/
theorem forall₂_known_set {holds : Nat → ρ → Prop} {strands : List Nat} {known : List (Option ρ)}
    (h : List.Forall₂ (fun strand outcome? => ∀ outcome, outcome? = some outcome →
      holds strand outcome) strands known) {place strand : Nat} {outcome : ρ}
    (hstrand : strands[place]? = some strand) (houtcome : holds strand outcome) :
    List.Forall₂ (fun strand outcome? => ∀ outcome, outcome? = some outcome →
      holds strand outcome) strands (known.set place (some outcome)) := by
  induction h generalizing place with
  | nil => simp at hstrand
  | cons hfirst hrest ih =>
      cases place with
      | zero =>
          obtain rfl := Option.some.inj hstrand
          refine .cons (fun other hother => ?_) hrest
          rwa [← Option.some.inj hother]
      | succ place => exact .cons hfirst (ih (by simpa using hstrand))

theorem AdmitsEach.set {pledges : Pledges ρ} {strands : List Nat} {known : List (Option ρ)}
    (h : AdmitsEach pledges strands known) {place strand : Nat} {outcome : ρ}
    (hstrand : strands[place]? = some strand) (houtcome : Admits pledges strand outcome) :
    AdmitsEach pledges strands (known.set place (some outcome)) :=
  forall₂_known_set h hstrand houtcome

theorem Lasting.mono {inv : Invariant σ ρ} {pledges later : Pledges ρ} {holds : Assertion σ ρ}
    (h : Lasting inv pledges holds) (hlater : pledges <+: later) : Lasting inv later holds :=
  fun latest world hlatest => h latest world (hlater.trans hlatest)

theorem MayAwait.mono {own : Pledge ρ} {pledges later : Pledges ρ} {strands : List Nat}
    {enough : List (Option ρ) → Bool} (h : MayAwait own pledges strands enough)
    (hlater : pledges <+: later) : MayAwait own later strands enough := by
  rcases h with htop | ⟨hranks, henough⟩
  · exact .inl htop
  · refine .inr ⟨fun strand hstrand => ?_, henough⟩
    obtain ⟨pledge, hpledge, hrank⟩ := hranks strand hstrand
    exact ⟨pledge, getElem?_mono hlater hpledge, hrank⟩

end Rulebook.Strand
