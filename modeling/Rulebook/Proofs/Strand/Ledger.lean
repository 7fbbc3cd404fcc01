import Mathlib.Order.Basic
import Rulebook.Proofs.Strand.Pledge

/-!
Accounts of strands.

A pledge says what a strand will have done; an account says how far it has come.  Only the strand
itself changes its account, so what stands there when it gives its turn back still stands there when
it gets its turn again.  A charter says what holds of the world, given all accounts, whenever a
strand gives its turn back, and what an account says of the outcome of its strand.  `Honours` says
that a strand keeps to the charter if all others do.

The ledger also tells how many strands have had their first turn; they have it in the order of their
numbers.  A charter may give ranks to accounts; as with pledges, a strand of finite rank waits for
strands of lower rank only.
-/

namespace Rulebook.Strand

variable {σ ρ Λ : Type}

/-- The accounts of the strands, by number, and how many strands have had their first turn. -/
structure Ledger (Λ : Type) where
  accounts : List Λ
  begun : Nat

namespace Ledger

/-- A strand enters something into its account. -/
def enter (ledger : Ledger Λ) (strand : Nat) (a : Λ) : Ledger Λ :=
  { ledger with accounts := ledger.accounts.set strand a }

/-- A further strand has an account. -/
def openFor (ledger : Ledger Λ) (a : Λ) : Ledger Λ :=
  { ledger with accounts := ledger.accounts ++ [a] }

/-- One more strand has its first turn. -/
def begin (ledger : Ledger Λ) : Ledger Λ := { ledger with begun := ledger.begun + 1 }

/-- The accounts that are there stay as they are, apart from that of one strand, and no other strand
begins. -/
structure Spares (own : Option Nat) (ledger later : Ledger Λ) : Prop where
  account : ∀ strand < ledger.accounts.length, own ≠ some strand →
    later.accounts[strand]? = ledger.accounts[strand]?
  begun : ∀ strand, ledger.begun ≤ strand → own ≠ some strand → later.begun ≤ strand

theorem Spares.refl (own : Option Nat) (ledger : Ledger Λ) : Spares own ledger ledger :=
  ⟨fun _ _ _ => rfl, fun _ hle _ => hle⟩

theorem Spares.trans {own : Option Nat} {ledger later latest : Ledger Λ}
    (h : Spares own ledger later) (hlatest : Spares own later latest) : Spares own ledger latest := by
  refine ⟨fun strand hstrand hne => ?_, fun strand hle hne =>
    hlatest.begun strand (h.begun strand hle hne) hne⟩
  have hsame := h.account strand hstrand hne
  have hlt : strand < later.accounts.length := by
    rw [List.getElem?_eq_getElem hstrand] at hsame
    exact (List.getElem?_eq_some_iff.1 hsame).1
  exact (hlatest.account strand hlt hne).trans hsame

theorem spares_enter (ledger : Ledger Λ) (own : Nat) (a : Λ) :
    Spares (some own) ledger (ledger.enter own a) :=
  ⟨fun _ _ hne => List.getElem?_set_ne fun heq => hne (congrArg some heq), fun _ hle _ => hle⟩

theorem spares_openFor (own : Option Nat) (ledger : Ledger Λ) (a : Λ) :
    Spares own ledger (ledger.openFor a) :=
  ⟨fun _ hstrand _ => List.getElem?_append_left hstrand, fun _ hle _ => hle⟩

theorem spares_begin (ledger : Ledger Λ) : Spares (some ledger.begun) ledger ledger.begin :=
  ⟨fun _ _ _ => rfl, fun _ hle hne =>
    Nat.lt_of_le_of_ne hle fun heq => hne (congrArg some heq)⟩

variable [Preorder Λ]

/-- Accounts only grow, and strands only begin. -/
structure Grows (ledger later : Ledger Λ) : Prop where
  account : ∀ {strand : Nat} {a : Λ}, ledger.accounts[strand]? = some a →
    ∃ b, later.accounts[strand]? = some b ∧ a ≤ b
  begun : ledger.begun ≤ later.begun

theorem Grows.refl (ledger : Ledger Λ) : ledger.Grows ledger :=
  ⟨fun h => ⟨_, h, le_rfl⟩, Nat.le_refl _⟩

theorem Grows.trans {ledger later latest : Ledger Λ} (h : ledger.Grows later)
    (hlatest : later.Grows latest) : ledger.Grows latest := by
  refine ⟨fun {strand a} haccount => ?_, Nat.le_trans h.begun hlatest.begun⟩
  obtain ⟨b, hb, hle⟩ := h.account haccount
  obtain ⟨c, hc, hle'⟩ := hlatest.account hb
  exact ⟨c, hc, hle.trans hle'⟩

theorem grows_openFor (ledger : Ledger Λ) (a : Λ) : ledger.Grows (ledger.openFor a) := by
  refine ⟨fun {strand b} haccount => ⟨b, ?_, le_rfl⟩, Nat.le_refl _⟩
  exact List.getElem?_append_left (List.getElem?_eq_some_iff.1 haccount).1 ▸ haccount

theorem grows_begin (ledger : Ledger Λ) : ledger.Grows ledger.begin :=
  ⟨fun h => ⟨_, h, le_rfl⟩, Nat.le_succ _⟩

/-- What a strand may enter: its account must not shrink. -/
def MayEnter (ledger : Ledger Λ) (strand : Nat) (a : Λ) : Prop :=
  ∃ b, ledger.accounts[strand]? = some b ∧ b ≤ a

theorem MayEnter.grows {ledger : Ledger Λ} {strand : Nat} {a : Λ} (h : ledger.MayEnter strand a) :
    ledger.Grows (ledger.enter strand a) := by
  obtain ⟨b, hb, hle⟩ := h
  refine ⟨fun {other c} haccount => ?_, Nat.le_refl _⟩
  by_cases hsame : strand = other
  · subst hsame
    obtain rfl := Option.some.inj (hb.symm.trans haccount)
    exact ⟨a, List.getElem?_set_self (List.getElem?_eq_some_iff.1 hb).1, hle⟩
  · exact ⟨c, (List.getElem?_set_ne hsame).trans haccount, le_rfl⟩

theorem MayEnter.account {ledger : Ledger Λ} {strand : Nat} {a : Λ}
    (h : ledger.MayEnter strand a) : (ledger.enter strand a).accounts[strand]? = some a := by
  obtain ⟨b, hb, _⟩ := h
  exact List.getElem?_set_self (List.getElem?_eq_some_iff.1 hb).1

theorem MayEnter.of_enter {ledger : Ledger Λ} {strand : Nat} {a b : Λ}
    (h : (ledger.enter strand a).MayEnter strand b) (hmay : ledger.MayEnter strand a) :
    ledger.MayEnter strand b := by
  obtain ⟨c, hc, hle⟩ := h
  rw [hmay.account, Option.some.injEq] at hc
  obtain ⟨d, hd, hle'⟩ := hmay
  exact ⟨d, hd, hle'.trans (hc ▸ hle)⟩

omit [Preorder Λ] in
theorem enter_enter (ledger : Ledger Λ) (strand : Nat) (a b : Λ) :
    (ledger.enter strand a).enter strand b = ledger.enter strand b := by
  simp [enter]

theorem MayEnter.openFor {ledger : Ledger Λ} {strand : Nat} {a : Λ} (h : ledger.MayEnter strand a)
    (b : Λ) : (ledger.openFor b).MayEnter strand a ∧
      (ledger.openFor b).enter strand a = (ledger.enter strand a).openFor b := by
  obtain ⟨c, hc, hle⟩ := h
  have hlt := (List.getElem?_eq_some_iff.1 hc).1
  refine ⟨⟨c, (List.getElem?_append_left hlt).trans hc, hle⟩, ?_⟩
  simp [enter, Ledger.openFor, hlt]

theorem mayEnter_self {ledger : Ledger Λ} {strand : Nat} {a : Λ}
    (h : ledger.accounts[strand]? = some a) : ledger.MayEnter strand a :=
  ⟨a, h, le_rfl⟩

omit [Preorder Λ] in
theorem enter_self {ledger : Ledger Λ} {strand : Nat} {a : Λ}
    (h : ledger.accounts[strand]? = some a) : ledger.enter strand a = ledger := by
  obtain ⟨hlt, rfl⟩ := List.getElem?_eq_some_iff.1 h
  simp [enter]

end Ledger

/-- What holds of the world whenever a strand gives its turn back, given the accounts, what an
account says of an outcome, and how far a strand with an account waits. -/
structure Charter (σ ρ Λ : Type) [Preorder Λ] where
  holds : Ledger Λ → σ → Prop
  settles : Λ → ρ → Prop
  settles_mono : ∀ {a b : Λ} {outcome : ρ}, settles a outcome → a ≤ b → settles b outcome
  rank : Λ → ℕ∞ := fun _ => ⊤
  rank_mono : ∀ {a b : Λ}, a ≤ b → rank a = rank b := by intros; rfl

namespace Charter

variable [Preorder Λ] {charter : Charter σ ρ Λ} {ledger later : Ledger Λ}

/-- How far a strand with an account waits, as a pledge. -/
def pledge (charter : Charter σ ρ Λ) (a : Λ) : Pledge ρ := ⟨charter.rank a, fun _ => True⟩

/-- How far the strands wait. -/
def pledges (charter : Charter σ ρ Λ) (ledger : Ledger Λ) : Pledges ρ :=
  ledger.accounts.map charter.pledge

/-- Any strand may wait for any others. -/
class Unranked (charter : Charter σ ρ Λ) : Prop where
  rank : ∀ a, charter.rank a = ⊤

theorem getElem?_pledges {strand : Nat} {a : Λ} (h : ledger.accounts[strand]? = some a) :
    (charter.pledges ledger)[strand]? = some (charter.pledge a) := by
  rw [pledges, List.getElem?_map, h, Option.map_some]

theorem pledges_grows (h : ledger.Grows later) :
    charter.pledges ledger <+: charter.pledges later := by
  rw [List.prefix_iff_getElem?]
  intro strand hstrand
  rw [pledges, List.length_map] at hstrand
  obtain ⟨b, hb, hle⟩ := h.account (List.getElem?_eq_getElem hstrand)
  simp [pledges, hb, pledge, charter.rank_mono hle]

/-- The outcome is as the strand's account says. -/
def Admits (charter : Charter σ ρ Λ) (ledger : Ledger Λ) (strand : Nat) (outcome : ρ) : Prop :=
  ∃ a, ledger.accounts[strand]? = some a ∧ charter.settles a outcome

/-- The outcomes that are known are as the accounts say. -/
def AdmitsEach (charter : Charter σ ρ Λ) (ledger : Ledger Λ) (strands : List Nat)
    (known : List (Option ρ)) : Prop :=
  List.Forall₂ (fun strand outcome? => ∀ outcome, outcome? = some outcome →
    charter.Admits ledger strand outcome) strands known

/-- Something holds whenever a strand gets its turn from now on, with its account as it is now. -/
def Standing (charter : Charter σ ρ Λ) (ledger : Ledger Λ) (strand : Nat)
    (holds : Ledger Λ → σ → Prop) : Prop :=
  ∀ later world, ledger.Grows later → later.accounts[strand]? = ledger.accounts[strand]? →
    charter.holds later world → holds later world

/-- Something holds when a strand has its first turn, with its account as it was opened. -/
def Starts (charter : Charter σ ρ Λ) (holds : Ledger Λ → σ → Prop) (strand : Nat) (a : Λ) : Prop :=
  ∀ later world, later.accounts[strand]? = some a → later.begun = strand →
    charter.holds later world → holds later.begin world

/-- The outcome of a strand may change the world. -/
def Tolerates (charter : Charter σ ρ Λ) (strand : Nat) (change : ρ → σ → σ) : Prop :=
  ∀ later world outcome, charter.Admits later strand outcome → charter.holds later world →
    charter.holds later (change outcome world)

/-- A strand that has its turn in a world keeps to the charter, now and whenever it has its turn
again. -/
def Honours (charter : Charter σ ρ Λ) : Strand σ ρ → Nat → Ledger Λ → σ → Prop
  | .done outcome, own, ledger, world =>
      ∃ a, ledger.MayEnter own a ∧ charter.settles a outcome ∧
        charter.holds (ledger.enter own a) world
  | .read next, own, ledger, world => Honours charter (next world) own ledger world
  | .write world next, own, ledger, _ => Honours charter next own ledger world
  | .pause next, own, ledger, world =>
      ∃ a, ledger.MayEnter own a ∧ charter.holds (ledger.enter own a) world ∧
        charter.Standing (ledger.enter own a) own (Honours charter next own)
  | .spawn child next, own, ledger, world =>
      ∃ a, charter.Starts (Honours charter child ledger.accounts.length) ledger.accounts.length a ∧
        Honours charter (next ledger.accounts.length) own (ledger.openFor a) world
  | .watch strand change next, own, ledger, world =>
      charter.Tolerates strand change ∧ Honours charter next own ledger world
  | .await strands enough next, own, ledger, world =>
      ∃ a, ledger.MayEnter own a ∧ charter.holds (ledger.enter own a) world ∧
        MayAwait (charter.pledge a) (charter.pledges (ledger.enter own a)) strands enough ∧
          ∀ known, enough known = true → charter.Standing (ledger.enter own a) own fun later world =>
            charter.AdmitsEach later strands known → Honours charter (next known) own later world

theorem Admits.mono {strand : Nat} {outcome : ρ} (h : charter.Admits ledger strand outcome)
    (hlater : ledger.Grows later) : charter.Admits later strand outcome := by
  obtain ⟨a, ha, hsettles⟩ := h
  obtain ⟨b, hb, hle⟩ := hlater.account ha
  exact ⟨b, hb, charter.settles_mono hsettles hle⟩

theorem AdmitsEach.mono {strands : List Nat} {known : List (Option ρ)}
    (h : charter.AdmitsEach ledger strands known) (hlater : ledger.Grows later) :
    charter.AdmitsEach later strands known :=
  List.Forall₂.imp (fun _ _ hadmits outcome hknown => (hadmits outcome hknown).mono hlater) h

theorem AdmitsEach.set {strands : List Nat} {known : List (Option ρ)}
    (h : charter.AdmitsEach ledger strands known) {place strand : Nat} {outcome : ρ}
    (hstrand : strands[place]? = some strand) (houtcome : charter.Admits ledger strand outcome) :
    charter.AdmitsEach ledger strands (known.set place (some outcome)) :=
  forall₂_known_set h hstrand houtcome

theorem Standing.mono {strand : Nat} {holds : Ledger Λ → σ → Prop}
    (h : charter.Standing ledger strand holds) (hlater : ledger.Grows later)
    (hown : later.accounts[strand]? = ledger.accounts[strand]?) :
    charter.Standing later strand holds :=
  fun latest world hlatest hsame => h latest world (hlater.trans hlatest) (hsame.trans hown)

/-- What a strand enters it may as well have entered before. -/
theorem Honours.of_enter {strand : Strand σ ρ} {own : Nat} {a : Λ} {world : σ}
    (h : charter.Honours strand own (ledger.enter own a) world) (hmay : ledger.MayEnter own a) :
    charter.Honours strand own ledger world := by
  induction strand generalizing ledger world with
  | done outcome =>
      obtain ⟨b, hb, hsettles, hholds⟩ := h
      exact ⟨b, hb.of_enter hmay, hsettles, ledger.enter_enter own a b ▸ hholds⟩
  | read next ih => exact ih world h hmay
  | write world next ih => exact ih h hmay
  | pause next _ =>
      obtain ⟨b, hb, hholds⟩ := h
      rw [ledger.enter_enter] at hholds
      exact ⟨b, hb.of_enter hmay, hholds⟩
  | spawn child next _ ih =>
      obtain ⟨b, hchild, hnext⟩ := h
      have hlength : (ledger.enter own a).accounts.length = ledger.accounts.length := by
        simp [Ledger.enter]
      rw [hlength] at hchild hnext
      obtain ⟨hmay', hopen⟩ := hmay.openFor b
      exact ⟨b, hchild, ih _ (hopen ▸ hnext) hmay'⟩
  | watch strand change next ih => exact ⟨h.1, ih h.2 hmay⟩
  | await strands enough next _ =>
      obtain ⟨b, hb, hholds⟩ := h
      rw [ledger.enter_enter] at hholds
      exact ⟨b, hb.of_enter hmay, hholds⟩

end Charter

end Rulebook.Strand
