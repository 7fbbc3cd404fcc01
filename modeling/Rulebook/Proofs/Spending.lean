import Mathlib.Algebra.BigOperators.Group.Finset.Basic
import Rulebook.Proofs.Within

/-!
What steps add to a meter.

A meter reads off the world how much there is of something that only grows.  Strands that run side by
side all add to it, so what one of them has added cannot be told from the world alone.  Here every
strand has a purse, which tells what it has spent itself and what those strands spent for which it has
waited; it takes that over when it goes on.  So when a step is over, the world has got what its purse
tells.  `Spends` says of a step what it spends, given what it comes to; there is one rule for each way
to make a step from others, and `Spends.run` tells what becomes of the meter.
-/

namespace Rulebook.Eval

open Strand

variable {σ M : Type} [AddCommMonoid M]

/-- What a strand has to spend by the time it comes to an ending, what it and the strands taken over
have spent, for which strands it waits, which strands it has taken over, and whether it is over. -/
structure Purse (M : Type) where
  bill : Ending → M → Prop
  spent : M
  held : List Nat
  taken : List Nat
  closed : Bool

namespace Purse

instance : Preorder (Purse M) where
  le a b := a = b ∨ a.closed = false ∧ b.bill = a.bill
  le_refl a := .inl rfl
  le_trans a b c hab hbc := by
    rcases hab with rfl | ⟨hclosed, hbill⟩
    · exact hbc
    · rcases hbc with rfl | ⟨_, hlater⟩
      · exact .inr ⟨hclosed, hbill⟩
      · exact .inr ⟨hclosed, hlater.trans hbill⟩

/-- The purse of a strand that spends nothing. -/
def aside : Purse M := ⟨fun _ _ => True, 0, [], [], true⟩

/-- The purse of a strand that has just been started. -/
def fresh (bill : Ending → M → Prop) : Purse M := ⟨bill, 0, [], [], false⟩

/-- The strands that it waits for or has taken over. -/
def claims (purse : Purse M) : List Nat := purse.held ++ purse.taken

end Purse

/-! ### The books -/

section Books

variable (ledger : Ledger (Purse M))

/-- Some strand has taken it over. -/
def Taken (strand : Nat) : Prop := ∃ purse ∈ ledger.accounts, strand ∈ purse.taken

open Classical in
/-- What a strand has spent, unless another one has taken it over. -/
noncomputable def owing (strand : Nat) : M :=
  if Taken ledger strand then 0 else (ledger.accounts[strand]?.map Purse.spent).getD 0

/-- What was spent, everything counted once. -/
noncomputable def outstanding : M :=
  ∑ strand ∈ Finset.range ledger.accounts.length, owing ledger strand

/-- The meter tells what was spent.  A strand is waited for by, or taken over by, one strand at most, and
that was there before; all others that are not the first spend nothing.  Those that were taken over are
over. -/
structure Books (meter : σ → Option M) (start : M) (world : σ) : Prop where
  total : meter world = some (start + outstanding ledger)
  later : ∀ {i : Nat} {purse : Purse M} {strand : Nat}, ledger.accounts[i]? = some purse →
    strand ∈ purse.claims → i < strand ∧ strand < ledger.accounts.length
  unique : ∀ {i j : Nat} {purse other : Purse M} {strand : Nat}, ledger.accounts[i]? = some purse →
    ledger.accounts[j]? = some other → strand ∈ purse.claims → strand ∈ other.claims → i = j
  nodup : ∀ {i : Nat} {purse : Purse M}, ledger.accounts[i]? = some purse → purse.claims.Nodup
  closed : ∀ {strand : Nat} {purse : Purse M}, ledger.accounts[strand]? = some purse →
    Taken ledger strand → purse.closed = true
  idle : ∀ {strand : Nat} {purse : Purse M}, ledger.accounts[strand]? = some purse →
    purse.closed = true → purse.held = []
  claimed : ∀ {strand : Nat} {purse : Purse M}, ledger.accounts[strand]? = some purse → 0 < strand →
    (purse.closed = true ∧ purse.spent = 0) ∨
      ∃ (i : Nat) (other : Purse M), ledger.accounts[i]? = some other ∧ strand ∈ other.claims

/-- Strands whose purses tell what they have spent. -/
def purses (meter : σ → Option M) (start : M) : Charter σ Ending (Purse M) where
  holds ledger world := Books ledger meter start world
  settles purse ending := purse.closed = true ∧ purse.bill ending purse.spent
  settles_mono := by
    rintro a b ending ⟨hclosed, hbill⟩ hle
    rcases hle with rfl | ⟨hopen, _⟩
    · exact ⟨hclosed, hbill⟩
    · cases hclosed.symm.trans hopen

instance (meter : σ → Option M) (start : M) : (purses meter start).Unranked := ⟨fun _ => rfl⟩

variable {ledger} {meter : σ → Option M} {start : M} {world now : σ} {own : Nat}
  {purse other : Purse M}

omit [AddCommMonoid M] in
theorem taken_iff {strand : Nat} : Taken ledger strand ↔
    ∃ (i : Nat) (purse : Purse M), ledger.accounts[i]? = some purse ∧ strand ∈ purse.taken := by
  constructor
  · rintro ⟨purse, hpurse, hstrand⟩
    obtain ⟨i, hi⟩ := List.mem_iff_getElem?.1 hpurse
    exact ⟨i, purse, hi, hstrand⟩
  · rintro ⟨i, purse, hi, hstrand⟩
    exact ⟨purse, List.mem_of_getElem? hi, hstrand⟩

omit [AddCommMonoid M] in
theorem getElem?_enter (other : Purse M) (hpurse : ledger.accounts[own]? = some purse) (strand : Nat) :
    (ledger.enter own other).accounts[strand]? =
      if own = strand then some other else ledger.accounts[strand]? := by
  have hlt := (List.getElem?_eq_some_iff.1 hpurse).1
  split
  · next h => exact h ▸ List.getElem?_set_self hlt
  · next h => exact List.getElem?_set_ne h

theorem owing_congr {later : Ledger (Purse M)} {strand : Nat}
    (htaken : Taken later strand ↔ Taken ledger strand)
    (haccount : later.accounts[strand]? = ledger.accounts[strand]?) :
    owing later strand = owing ledger strand := by
  by_cases h : Taken ledger strand
  · rw [owing, owing, if_pos (htaken.2 h), if_pos h]
  · rw [owing, owing, if_neg (mt htaken.1 h), if_neg h, haccount]

namespace Books

theorem begin (h : Books ledger meter start world) : Books ledger.begin meter start world :=
  ⟨h.total, h.later, h.unique, h.nodup, h.closed, h.idle, h.claimed⟩

/-- A strand that is not over was not taken over. -/
theorem not_taken (h : Books ledger meter start world)
    (hpurse : ledger.accounts[own]? = some purse) (hopen : purse.closed = false) :
    ¬ Taken ledger own := by
  intro htaken
  cases (h.closed hpurse htaken).symm.trans hopen

/-- No strand that another one waits for was taken over. -/
theorem not_taken_of_held (h : Books ledger meter start world)
    (hpurse : ledger.accounts[own]? = some purse) {strand : Nat} (hstrand : strand ∈ purse.held) :
    ¬ Taken ledger strand := by
  intro htaken
  obtain ⟨i, taker, htaker, hmem⟩ := taken_iff.1 htaken
  obtain rfl := h.unique hpurse htaker (List.mem_append_left _ hstrand)
    (List.mem_append_right _ hmem)
  obtain rfl := Option.some.inj (hpurse.symm.trans htaker)
  exact (List.nodup_append.1 (h.nodup hpurse)).2.2 _ hstrand _ hmem rfl

/-- A strand that is not over enters what it has spent, or that it has taken others over that it has
waited for. -/
theorem enter (h : Books ledger meter start world)
    (hpurse : ledger.accounts[own]? = some purse) (hopen : purse.closed = false)
    (hclaims : other.claims = purse.claims) (hidle : other.closed = true → other.held = [])
    (hclosed : ∀ strand ∈ other.taken, strand ∈ purse.taken ∨
      ∃ taken, ledger.accounts[strand]? = some taken ∧ taken.closed = true)
    (htotal : meter now = some (start + outstanding (ledger.enter own other))) :
    Books (ledger.enter own other) meter start now := by
  have hfind := fun strand => getElem?_enter other hpurse strand
  -- whatever stands in the ledger now stood there before with the same claims
  have hbefore : ∀ {i : Nat} {found : Purse M}, (ledger.enter own other).accounts[i]? = some found →
      ∃ earlier, ledger.accounts[i]? = some earlier ∧ found.claims = earlier.claims := by
    intro i found hfound
    rw [hfind] at hfound
    split at hfound
    · next heq =>
        cases hfound
        exact ⟨purse, heq ▸ hpurse, hclaims⟩
    · exact ⟨found, hfound, rfl⟩
  refine ⟨htotal, fun hi hmem => ?_, fun hi hj hmem hmem' => ?_, fun hi => ?_, fun hi htaken => ?_,
    fun hi hfound => ?_, fun {strand found} hi hpos => ?_⟩
  · obtain ⟨earlier, hearlier, hsame⟩ := hbefore hi
    rw [Ledger.enter, List.length_set]
    exact h.later hearlier (hsame ▸ hmem)
  · obtain ⟨first, hfirst, hsame⟩ := hbefore hi
    obtain ⟨second, hsecond, hsame'⟩ := hbefore hj
    exact h.unique hfirst hsecond (hsame ▸ hmem) (hsame' ▸ hmem')
  · obtain ⟨earlier, hearlier, hsame⟩ := hbefore hi
    exact hsame ▸ h.nodup hearlier
  · next strand found =>
    obtain ⟨i, taker, htaker, hmem⟩ := taken_iff.1 htaken
    have hne : own ≠ strand := by
      rintro rfl
      obtain ⟨earlier, hearlier, hsame⟩ := hbefore htaker
      have hclaim : own ∈ taker.claims := List.mem_append_right _ hmem
      have hlt := (h.later hearlier (hsame ▸ hclaim)).1
      rw [hfind, if_neg (Nat.ne_of_gt hlt)] at htaker
      exact h.not_taken hpurse hopen (taken_iff.2 ⟨i, taker, htaker, hmem⟩)
    rw [hfind, if_neg hne] at hi
    rw [hfind] at htaker
    split at htaker
    · cases htaker
      rcases hclosed strand hmem with htaken | ⟨taken, hfound, hdone⟩
      · exact h.closed hi (taken_iff.2 ⟨own, purse, hpurse, htaken⟩)
      · exact Option.some.inj (hfound.symm.trans hi) ▸ hdone
    · exact h.closed hi (taken_iff.2 ⟨i, taker, htaker, hmem⟩)
  · rw [hfind] at hi
    split at hi
    · cases hi
      exact hidle hfound
    · exact h.idle hi hfound
  · obtain ⟨earlier, hearlier, hsame⟩ := hbefore hi
    have hclaimed : ∀ {i : Nat} {claimer : Purse M}, ledger.accounts[i]? = some claimer →
        strand ∈ claimer.claims → ∃ (i : Nat) (other' : Purse M),
          (ledger.enter own other).accounts[i]? = some other' ∧ strand ∈ other'.claims := by
      intro i claimer hclaimer hmem
      by_cases heq : own = i
      · subst heq
        obtain rfl := Option.some.inj (hclaimer.symm.trans hpurse)
        exact ⟨own, other, by rw [hfind, if_pos rfl], hclaims ▸ hmem⟩
      · exact ⟨i, claimer, by rw [hfind, if_neg heq, hclaimer], hmem⟩
    rcases h.claimed hearlier hpos with ⟨hdone, hspent⟩ | ⟨i, claimer, hclaimer, hmem⟩
    · have hne : own ≠ strand := by
        rintro rfl
        obtain rfl := Option.some.inj (hearlier.symm.trans hpurse)
        cases hdone.symm.trans hopen
      rw [hfind, if_neg hne] at hi
      obtain rfl := Option.some.inj (hi.symm.trans hearlier)
      exact .inl ⟨hdone, hspent⟩
    · exact .inr (hclaimed hclaimer hmem)

/-- What a strand that was not taken over has spent. -/
theorem owing_eq (h : Books ledger meter start world) (hpurse : ledger.accounts[own]? = some purse)
    (hopen : purse.closed = false) : owing ledger own = purse.spent := by
  rw [owing, if_neg (h.not_taken hpurse hopen), hpurse]
  rfl

omit [AddCommMonoid M] in
theorem taken_enter (other : Purse M) (hpurse : ledger.accounts[own]? = some purse)
    (hkept : ∀ strand ∈ purse.taken, strand ∈ other.taken) (strand : Nat) :
    Taken (ledger.enter own other) strand ↔ Taken ledger strand ∨ strand ∈ other.taken := by
  rw [taken_iff, taken_iff]
  constructor
  · rintro ⟨i, taker, htaker, hmem⟩
    rw [getElem?_enter _ hpurse] at htaker
    split at htaker
    · cases htaker
      exact .inr hmem
    · exact .inl ⟨i, taker, htaker, hmem⟩
  · rintro (⟨i, taker, htaker, hmem⟩ | hmem)
    · by_cases heq : own = i
      · subst heq
        obtain rfl := Option.some.inj (htaker.symm.trans hpurse)
        exact ⟨own, other, by rw [getElem?_enter _ hpurse, if_pos rfl], hkept strand hmem⟩
      · exact ⟨i, taker, by rw [getElem?_enter _ hpurse, if_neg heq, htaker], hmem⟩
    · exact ⟨own, other, by rw [getElem?_enter _ hpurse, if_pos rfl], hmem⟩

/-- A strand spends something. -/
theorem outstanding_enter (other : Purse M) (h : Books ledger meter start world)
    (hpurse : ledger.accounts[own]? = some purse) (hopen : purse.closed = false) {cost : M}
    (htaken : other.taken = purse.taken) (hspent : other.spent = purse.spent + cost) :
    outstanding (ledger.enter own other) = outstanding ledger + cost := by
  have hlt := (List.getElem?_eq_some_iff.1 hpurse).1
  have hsame : ∀ strand, Taken (ledger.enter own other) strand ↔ Taken ledger strand := by
    intro strand
    rw [taken_enter _ hpurse fun _ hmem => htaken ▸ hmem, or_iff_left_iff_imp, htaken]
    exact fun hmem => taken_iff.2 ⟨own, purse, hpurse, hmem⟩
  have howing : ∀ strand, owing (ledger.enter own other) strand =
      owing ledger strand + if own = strand then cost else 0 := by
    intro strand
    by_cases heq : own = strand
    · subst heq
      rw [h.owing_eq hpurse hopen, if_pos rfl, owing,
        if_neg (mt (hsame own).1 (h.not_taken hpurse hopen)), getElem?_enter _ hpurse, if_pos rfl]
      exact hspent
    · rw [if_neg heq, add_zero]
      exact owing_congr (hsame strand) (by rw [getElem?_enter _ hpurse, if_neg heq])
  rw [outstanding, outstanding, Finset.sum_congr rfl fun strand _ => howing strand, Ledger.enter,
    List.length_set, Finset.sum_add_distrib, Finset.sum_ite_eq, if_pos (Finset.mem_range.2 hlt)]

/-- A strand takes over what those have spent for which it has waited. -/
theorem outstanding_collect (h : Books ledger meter start world)
    (hpurse : ledger.accounts[own]? = some purse) (hopen : purse.closed = false)
    (htaken : other.taken = purse.claims)
    (hspent : other.spent = purse.spent + (purse.held.map (owing ledger)).sum) :
    outstanding (ledger.enter own other) = outstanding ledger := by
  have hlt := (List.getElem?_eq_some_iff.1 hpurse).1
  have hnodup : purse.held.Nodup := (List.nodup_append.1 (h.nodup hpurse)).1
  have hbounds : ∀ strand ∈ purse.held, own < strand ∧ strand < ledger.accounts.length :=
    fun strand hmem => h.later hpurse (List.mem_append_left _ hmem)
  have hsame := taken_enter other hpurse fun strand hmem =>
    htaken ▸ List.mem_append_right purse.held hmem
  have hheld : ∀ strand ∈ purse.held, owing (ledger.enter own other) strand = 0 := by
    intro strand hmem
    rw [owing, if_pos ((hsame strand).2 (.inr (htaken ▸ List.mem_append_left _ hmem)))]
  have hothers : ∀ strand, strand ∉ purse.held → owing (ledger.enter own other) strand =
      owing ledger strand + if own = strand then (purse.held.map (owing ledger)).sum else 0 := by
    intro strand hmem
    have htaken' : Taken (ledger.enter own other) strand ↔ Taken ledger strand := by
      rw [hsame, or_iff_left_iff_imp, htaken, Purse.claims, List.mem_append]
      exact fun hclaim => taken_iff.2 ⟨own, purse, hpurse, hclaim.resolve_left hmem⟩
    by_cases heq : own = strand
    · subst heq
      rw [h.owing_eq hpurse hopen, if_pos rfl, owing,
        if_neg (mt htaken'.1 (h.not_taken hpurse hopen)), getElem?_enter _ hpurse, if_pos rfl]
      exact hspent
    · rw [if_neg heq, add_zero]
      exact owing_congr htaken' (by rw [getElem?_enter _ hpurse, if_neg heq])
  have hsub : purse.held.toFinset ⊆ Finset.range ledger.accounts.length := fun strand hmem =>
    Finset.mem_range.2 (hbounds strand (List.mem_toFinset.1 hmem)).2
  have hown : own ∈ Finset.range ledger.accounts.length \ purse.held.toFinset := by
    rw [Finset.mem_sdiff, Finset.mem_range, List.mem_toFinset]
    exact ⟨hlt, fun hmem => Nat.lt_irrefl own (hbounds own hmem).1⟩
  have hlength : (ledger.enter own other).accounts.length = ledger.accounts.length :=
    List.length_set
  rw [outstanding, outstanding, hlength, ← Finset.sum_sdiff hsub, ← Finset.sum_sdiff hsub,
    Finset.sum_eq_zero fun strand hmem => hheld strand (List.mem_toFinset.1 hmem), add_zero,
    Finset.sum_congr rfl fun strand hmem => hothers strand fun hheld =>
      (Finset.mem_sdiff.1 hmem).2 (List.mem_toFinset.2 hheld),
    Finset.sum_add_distrib, Finset.sum_ite_eq, if_pos hown, List.sum_toFinset _ hnodup]

end Books

/-! ### Further strands -/

/-- A purse is as it was, but for what its strand waits for. -/
structure Purse.Same (purse now : Purse M) : Prop where
  spent : now.spent = purse.spent
  taken : now.taken = purse.taken
  closed : now.closed = purse.closed

/-- Further strands are started, which have spent nothing.  Either they are over already, or a strand
that waits for no others waits for all of them from now on. -/
structure Extends (ledger later : Ledger (Purse M)) (own : Nat) (more : List (Purse M)) : Prop where
  length : later.accounts.length = ledger.accounts.length + more.length
  fresh : ∀ place, later.accounts[ledger.accounts.length + place]? = more[place]?
  blank : ∀ purse ∈ more, purse.spent = 0 ∧ purse.claims = []
  same : ∀ strand < ledger.accounts.length, strand ≠ own →
    later.accounts[strand]? = ledger.accounts[strand]?
  own : (later.accounts[own]? = ledger.accounts[own]? ∧ ∀ purse ∈ more, purse.closed = true) ∨
    ∃ purse, ledger.accounts[own]? = some purse ∧ purse.held = [] ∧ purse.closed = false ∧
      later.accounts[own]? = some { purse with
        held := List.range' ledger.accounts.length more.length }

namespace Extends

variable {later : Ledger (Purse M)} {more : List (Purse M)}

/-- What stands in the ledger is new, or stood there before; only the strand may wait for others. -/
theorem before (h : Extends ledger later own more) {i : Nat} {now : Purse M}
    (hnow : later.accounts[i]? = some now) :
    (∃ purse, ledger.accounts[i]? = some purse ∧ purse.Same now ∧ (now.held = purse.held ∨
      i = own ∧ purse.held = [] ∧ purse.closed = false ∧
        now.held = List.range' ledger.accounts.length more.length)) ∨
      ledger.accounts.length ≤ i ∧ now ∈ more := by
  rcases Nat.lt_or_ge i ledger.accounts.length with hlt | hle
  · by_cases heq : i = own
    · subst heq
      rcases h.own with ⟨hsame, _⟩ | ⟨purse, hpurse, hheld, hopen, hlater⟩
      · exact .inl ⟨now, hsame ▸ hnow, ⟨rfl, rfl, rfl⟩, .inl rfl⟩
      · cases hlater.symm.trans hnow
        exact .inl ⟨purse, hpurse, ⟨rfl, rfl, rfl⟩, .inr ⟨rfl, hheld, hopen, rfl⟩⟩
    · exact .inl ⟨now, h.same i hlt heq ▸ hnow, ⟨rfl, rfl, rfl⟩, .inl rfl⟩
  · obtain ⟨place, rfl⟩ := Nat.exists_eq_add_of_le hle
    exact .inr ⟨hle, List.mem_of_getElem? ((h.fresh place).symm.trans hnow)⟩

/-- What stood in the ledger still does. -/
theorem after (h : Extends ledger later own more) {i : Nat} {purse : Purse M}
    (hpurse : ledger.accounts[i]? = some purse) :
    ∃ now, later.accounts[i]? = some now ∧ purse.Same now ∧
      ∀ strand ∈ purse.claims, strand ∈ now.claims := by
  by_cases heq : i = own
  · subst heq
    rcases h.own with ⟨hsame, _⟩ | ⟨other, hother, hheld, _, hlater⟩
    · exact ⟨purse, hsame ▸ hpurse, ⟨rfl, rfl, rfl⟩, fun _ hmem => hmem⟩
    · obtain rfl := Option.some.inj (hother.symm.trans hpurse)
      refine ⟨_, hlater, ⟨rfl, rfl, rfl⟩, fun strand hmem => ?_⟩
      rw [Purse.claims, hheld, List.nil_append] at hmem
      exact List.mem_append_right _ hmem
  · have hlt := (List.getElem?_eq_some_iff.1 hpurse).1
    exact ⟨purse, (h.same i hlt heq).trans hpurse, ⟨rfl, rfl, rfl⟩, fun _ hmem => hmem⟩

/-- A strand that is claimed was claimed before, or has just been started by the strand. -/
theorem claims (h : Extends ledger later own more) {i strand : Nat} {now : Purse M}
    (hnow : later.accounts[i]? = some now) (hmem : strand ∈ now.claims) :
    (∃ purse, ledger.accounts[i]? = some purse ∧ strand ∈ purse.claims) ∨
      i = own ∧ own < ledger.accounts.length ∧ ledger.accounts.length ≤ strand ∧
        strand < later.accounts.length := by
  rcases h.before hnow with ⟨purse, hpurse, hsame, hheld | ⟨rfl, _, _, hheld⟩⟩ | ⟨_, hmore⟩
  · rw [Purse.claims, hheld, hsame.taken] at hmem
    exact .inl ⟨purse, hpurse, hmem⟩
  · rcases List.mem_append.1 hmem with hfresh | htaken
    · rw [hheld, List.mem_range'_1] at hfresh
      exact .inr ⟨rfl, (List.getElem?_eq_some_iff.1 hpurse).1, hfresh.1, h.length ▸ hfresh.2⟩
    · exact .inl ⟨purse, hpurse, List.mem_append_right _ (hsame.taken ▸ htaken)⟩
  · rw [(h.blank now hmore).2] at hmem
    cases hmem

theorem taken (h : Extends ledger later own more) (strand : Nat) :
    Taken later strand ↔ Taken ledger strand := by
  rw [taken_iff, taken_iff]
  constructor
  · rintro ⟨i, taker, htaker, hmem⟩
    rcases h.before htaker with ⟨purse, hpurse, hsame, _⟩ | ⟨_, hmore⟩
    · exact ⟨i, purse, hpurse, hsame.taken ▸ hmem⟩
    · have hnone : strand ∈ taker.claims := List.mem_append_right _ hmem
      rw [(h.blank taker hmore).2] at hnone
      cases hnone
  · rintro ⟨i, taker, htaker, hmem⟩
    obtain ⟨now, hnow, hsame, _⟩ := h.after htaker
    exact ⟨i, now, hnow, hsame.taken.symm ▸ hmem⟩

theorem owing_eq (h : Extends ledger later own more) (strand : Nat) :
    owing later strand = owing ledger strand := by
  have hspent : (later.accounts[strand]?.map Purse.spent).getD 0 =
      (ledger.accounts[strand]?.map Purse.spent).getD 0 := by
    cases hpurse : ledger.accounts[strand]? with
    | some purse =>
        obtain ⟨now, hnow, hsame, _⟩ := h.after hpurse
        rw [hnow, Option.map_some, Option.map_some, hsame.spent]
    | none =>
        cases hnow : later.accounts[strand]? with
        | none => rfl
        | some now =>
            rcases h.before hnow with ⟨purse, hbefore, _⟩ | ⟨_, hmore⟩
            · cases hpurse.symm.trans hbefore
            · exact (h.blank now hmore).1
  by_cases htaken : Taken ledger strand
  · rw [owing, owing, if_pos ((h.taken strand).2 htaken), if_pos htaken]
  · rw [owing, owing, if_neg (mt (h.taken strand).1 htaken), if_neg htaken, hspent]

theorem outstanding_eq (h : Extends ledger later own more) :
    outstanding later = outstanding ledger := by
  rw [outstanding, Finset.sum_congr rfl fun strand _ => h.owing_eq strand]
  refine (Finset.sum_subset ?_ fun strand _ hstrand => ?_).symm
  · exact Finset.range_subset_range.2 (h.length ▸ Nat.le_add_right _ _)
  · rw [Finset.mem_range, Nat.not_lt] at hstrand
    rw [owing, List.getElem?_eq_none hstrand]
    exact ite_self _

end Extends

/-- The books are right with further strands. -/
theorem Books.extend (h : Books ledger meter start world) {later : Ledger (Purse M)}
    {more : List (Purse M)} (hextends : Extends ledger later own more) :
    Books later meter start world := by
  have hbound : ∀ {i strand : Nat} {purse : Purse M}, ledger.accounts[i]? = some purse →
      strand ∈ purse.claims → strand < ledger.accounts.length :=
    fun hpurse hmem => (h.later hpurse hmem).2
  refine ⟨hextends.outstanding_eq.symm ▸ h.total, fun hi hmem => ?_, fun hi hj hmem hmem' => ?_,
    fun hi => ?_, fun {strand now} hi htaken => ?_, fun hi hclosed => ?_,
    fun {strand now} hi hpos => ?_⟩
  · rcases hextends.claims hi hmem with ⟨purse, hpurse, hbefore⟩ | ⟨rfl, hown, hle, hlt⟩
    · obtain ⟨hparent, hlt⟩ := h.later hpurse hbefore
      exact ⟨hparent, Nat.lt_of_lt_of_le hlt (hextends.length ▸ Nat.le_add_right _ _)⟩
    · exact ⟨Nat.lt_of_lt_of_le hown hle, hlt⟩
  · rcases hextends.claims hi hmem with ⟨purse, hpurse, hbefore⟩ | ⟨rfl, _, hle, _⟩
    · rcases hextends.claims hj hmem' with ⟨other, hother, hbefore'⟩ | ⟨_, _, hle, _⟩
      · exact h.unique hpurse hother hbefore hbefore'
      · exact absurd (hbound hpurse hbefore) (Nat.not_lt.2 hle)
    · rcases hextends.claims hj hmem' with ⟨other, hother, hbefore'⟩ | ⟨rfl, _⟩
      · exact absurd (hbound hother hbefore') (Nat.not_lt.2 hle)
      · rfl
  · rcases hextends.before hi with ⟨purse, hpurse, hsame, hheld | ⟨_, _, _, hheld⟩⟩ | ⟨_, hmore⟩
    · rw [Purse.claims, hheld, hsame.taken]
      exact h.nodup hpurse
    · rw [Purse.claims, hheld, hsame.taken]
      refine List.nodup_append.2 ⟨List.nodup_range', (List.nodup_append.1 (h.nodup hpurse)).2.1, ?_⟩
      rintro strand hfresh _ htaken rfl
      have hlt := hbound hpurse (List.mem_append_right _ htaken)
      exact Nat.not_lt.2 (List.mem_range'_1.1 hfresh).1 hlt
    · rw [(hextends.blank _ hmore).2]
      exact List.nodup_nil
  · have hbefore := (hextends.taken strand).1 htaken
    rcases hextends.before hi with ⟨purse, hpurse, hsame, _⟩ | ⟨hle, _⟩
    · exact hsame.closed.trans (h.closed hpurse hbefore)
    · obtain ⟨i, taker, htaker, hmem⟩ := taken_iff.1 hbefore
      exact absurd (hbound htaker (List.mem_append_right _ hmem)) (Nat.not_lt.2 hle)
  · rcases hextends.before hi with ⟨purse, hpurse, hsame, hheld | ⟨_, _, hopen, _⟩⟩ | ⟨_, hmore⟩
    · exact hheld.trans (h.idle hpurse (hsame.closed ▸ hclosed))
    · cases (hsame.closed.symm.trans hclosed).symm.trans hopen
    · exact (List.append_eq_nil_iff.1 (hextends.blank _ hmore).2).1
  · rcases hextends.before hi with ⟨purse, hpurse, hsame, _⟩ | ⟨hle, hmore⟩
    · rcases h.claimed hpurse hpos with ⟨hclosed, hspent⟩ | ⟨i, claimer, hclaimer, hmem⟩
      · exact .inl ⟨hsame.closed.trans hclosed, hsame.spent.trans hspent⟩
      · obtain ⟨later, hlater, _, hclaims⟩ := hextends.after hclaimer
        exact .inr ⟨i, later, hlater, hclaims strand hmem⟩
    · rcases hextends.own with ⟨_, hclosed⟩ | ⟨purse, _, _, _, hlater⟩
      · exact .inl ⟨hclosed now hmore, (hextends.blank now hmore).1⟩
      · have hlt := (List.getElem?_eq_some_iff.1 hi).1
        rw [hextends.length] at hlt
        exact .inr ⟨own, _, hlater, List.mem_append_left _ (List.mem_range'_1.2 ⟨hle, hlt⟩)⟩

/-! ### When all is over -/

/-- When the first strand waits for no others, none does. -/
theorem Books.held_eq_nil (h : Books ledger meter start world)
    (hroot : ∀ purse, ledger.accounts[0]? = some purse → purse.held = []) {strand : Nat}
    (hpurse : ledger.accounts[strand]? = some purse) : purse.held = [] := by
  induction strand using Nat.strongRecOn generalizing purse with
  | ind strand ih =>
      rcases Nat.eq_zero_or_pos strand with rfl | hpos
      · exact hroot purse hpurse
      · rcases h.claimed hpurse hpos with ⟨hclosed, _⟩ | ⟨i, claimer, hclaimer, hmem⟩
        · exact h.idle hpurse hclosed
        · have hnone := ih i (h.later hclaimer hmem).1 hclaimer
          rw [Purse.claims, hnone, List.nil_append] at hmem
          exact h.idle hpurse (h.closed hpurse (taken_iff.2 ⟨i, claimer, hclaimer, hmem⟩))

/-- When the first strand waits for no others, it has taken over what all of them have spent. -/
theorem Books.outstanding_eq (h : Books ledger meter start world)
    (hroot : ledger.accounts[0]? = some purse) (hheld : purse.held = []) :
    outstanding ledger = purse.spent := by
  have hnone : ∀ {strand : Nat} {other : Purse M}, ledger.accounts[strand]? = some other →
      other.held = [] :=
    h.held_eq_nil fun other hother => Option.some.inj (hroot.symm.trans hother) ▸ hheld
  have hfirst : ¬ Taken ledger 0 := fun htaken =>
    let ⟨_, _, hclaimer, hmem⟩ := taken_iff.1 htaken
    Nat.not_lt_zero _ (h.later hclaimer (List.mem_append_right _ hmem)).1
  have hothers : ∀ strand ∈ Finset.range ledger.accounts.length, strand ≠ 0 →
      owing ledger strand = 0 := by
    intro strand hlt hne
    obtain ⟨other, hother⟩ : ∃ other, ledger.accounts[strand]? = some other :=
      ⟨_, List.getElem?_eq_getElem (Finset.mem_range.1 hlt)⟩
    rcases h.claimed hother (Nat.pos_of_ne_zero hne) with ⟨_, hspent⟩ | ⟨i, claimer, hclaimer, hmem⟩
    · rw [owing, hother, Option.map_some, Option.getD_some, hspent]
      exact ite_self _
    · rw [Purse.claims, hnone hclaimer, List.nil_append] at hmem
      rw [owing, if_pos (taken_iff.2 ⟨i, claimer, hclaimer, hmem⟩)]
  have hlt := (List.getElem?_eq_some_iff.1 hroot).1
  rw [outstanding, Finset.sum_eq_single_of_mem 0 (Finset.mem_range.2 hlt) hothers, owing,
    if_neg hfirst, hroot]
  rfl

end Books

/-! ### What steps spend -/

/-- The strand has spent so much, and waits for no others. -/
def Owns (meter : σ → Option M) (start : M) (own : Nat) (bill : Ending → M → Prop) (spent : M)
    (ledger : Ledger (Purse M)) (world : σ) : Prop :=
  ∃ taken, At (purses meter start) own ⟨bill, spent, [], taken, false⟩ ledger world

/-- A step spends so much, given what it comes to. -/
def Spends {α : Type} (meter : σ → Option M) (step : Eval σ α)
    (cost : Except Error α → M → Prop) : Prop :=
  ∀ start own bill spent, Triple (purses meter start) own (Owns meter start own bill spent) step
    fun result ledger world => ∃ more, cost result more ∧
      Owns meter start own bill (spent + more) ledger world

namespace Spends

variable {α β : Type} {meter : σ → Option M} {step : Eval σ α} {cost : Except Error α → M → Prop}

theorem imp (h : Spends meter step cost) {weaker : Except Error α → M → Prop}
    (hle : ∀ result more, cost result more → weaker result more) : Spends meter step weaker :=
  fun start own bill spent => (h start own bill spent).imp (fun _ _ h => h)
    fun result _ _ ⟨more, hcost, howns⟩ => ⟨more, hle result more hcost, howns⟩

theorem outcome {result : Except Error α} (h : cost result 0) :
    Spends meter (Eval.outcome result) cost :=
  fun _ _ _ spent => .outcome fun _ _ howns => ⟨0, h, (add_zero spent).symm ▸ howns⟩

theorem pure {a : α} (h : cost (.ok a) 0) : Spends meter (Pure.pure a) cost :=
  outcome h

/-- What two steps spend is added. -/
theorem bind {rest : α → Eval σ β} {all : Except Error β → M → Prop} (h : Spends meter step cost)
    (hok : ∀ a more, cost (.ok a) more → Spends meter (rest a) fun result others =>
      all result (more + others))
    (herror : ∀ e more, cost (.error e) more → all (.error e) more) :
    Spends meter (step >>= rest) all := by
  intro start own bill spent
  refine (h start own bill spent).bind (fun a => ?_) fun e ledger world ⟨more, hcost, howns⟩ =>
    ⟨more, herror e more hcost, howns⟩
  rintro next hnext ledger world ⟨more, hcost, howns⟩
  refine hok a more hcost start own bill (spent + more) next (fun result later now hresult => ?_)
    ledger world howns
  obtain ⟨others, hall, hlater⟩ := hresult
  exact hnext result later now ⟨more + others, hall, add_assoc spent more others ▸ hlater⟩

theorem get_bind {rest : σ → Eval σ α} (h : ∀ seen, Spends meter (rest seen) cost) :
    Spends meter (MonadState.get >>= rest) cost :=
  fun start own bill spent => .get_bind fun seen =>
    (h seen start own bill spent).imp (fun _ _ howns => howns.2) fun _ _ _ h => h

/-- A change by which the meter goes up. -/
theorem modify {change : σ → σ} {more : M}
    (h : ∀ world, meter (change world) = (meter world).map (· + more)) :
    Spends meter (modify change) fun result spent => result = .ok () ∧ spent = more := by
  rintro start own bill spent next hnext ledger world ⟨taken, hat⟩
  have hmay : ledger.MayEnter own ⟨bill, spent + more, [], taken, false⟩ :=
    ⟨_, hat.account, .inr ⟨rfl, rfl⟩⟩
  have hsum := Books.outstanding_enter ⟨bill, spent + more, [], taken, false⟩
    hat.holds hat.account rfl rfl rfl
  have hbooks : Books (ledger.enter own ⟨bill, spent + more, [], taken, false⟩) meter start
      (change world) := by
    refine Books.enter hat.holds hat.account rfl rfl (fun _ => rfl) (fun _ hmem => .inl hmem) ?_
    rw [h, hat.holds.total, hsum, Option.map_some, add_assoc]
  exact (hnext (.ok ()) _ _ ⟨more, ⟨rfl, rfl⟩, taken, hmay.account, hbooks⟩).of_enter hmay

theorem idle_aside (start : M) : Idle (purses meter start) (fun world now => meter now = meter world)
    Purse.aside where
  settles _ := ⟨rfl, trivial⟩
  openFor ledger world h := by
    have hextends : Extends ledger (ledger.openFor Purse.aside) (ledger.accounts.length + 1)
        [Purse.aside] := by
      refine ⟨by simp [Ledger.openFor], fun place => ?_, ?_, fun strand hlt _ => ?_, .inl ⟨?_, ?_⟩⟩
      · rw [Ledger.openFor, List.getElem?_append_right (Nat.le_add_right _ _),
          Nat.add_sub_cancel_left]
      · exact List.forall_mem_singleton.2 ⟨rfl, rfl⟩
      · exact List.getElem?_append_left hlt
      · simp [Ledger.openFor]
      · exact List.forall_mem_singleton.2 rfl
    exact h.extend hextends
  begin _ _ _ h := h.begin
  change _ _ _ hsame h := { h with total := hsame.trans h.total }

/-- A step that leaves the meter alone spends nothing. -/
theorem of_within (h : Within (fun world now => meter now = meter world) step) :
    Spends meter step fun _ more => more = 0 := by
  rintro start own bill spent next hnext ledger world ⟨taken, hat⟩
  refine h.triple (idle_aside start) own _ next (fun result later now hlater => ?_) ledger world hat
  exact hnext result later now ⟨0, rfl, taken, (add_zero spent).symm ▸ hlater⟩

/-! ### Steps side by side -/

variable [Parceled α]

/-- What the strand of a step has to spend by the time it comes to an ending. -/
def billOf (cost : Except Error α → M → Prop) (ending : Ending) (spent : M) : Prop :=
  ∃ result, ending = result.map Parceled.pack ∧ cost result spent

/-- The strand of a step that spends so much has the step's bill to pay. -/
theorem strand (h : Spends meter step cost) (start : M) (number : Nat) :
    Triple (purses meter start) number
      (Begins (purses meter start) number (Purse.fresh (billOf cost))) step
      (MayEnd (purses meter start) number) := by
  refine (h start number (billOf cost) 0).imp ?_ ?_
  · rintro ledger world ⟨before, rfl, _, hat⟩
    exact ⟨[], hat.account, hat.holds.begin⟩
  · rintro result ledger world ⟨more, hcost, taken, hat⟩
    rw [zero_add] at hat
    refine ⟨⟨billOf cost, more, [], taken, true⟩, ⟨_, hat.account, .inr ⟨rfl, rfl⟩⟩,
      ⟨rfl, result, rfl, hcost⟩, ?_⟩
    have hsum := Books.outstanding_enter ⟨billOf cost, more, [], taken, true⟩
      hat.holds hat.account rfl rfl (add_zero more).symm
    refine Books.enter hat.holds hat.account rfl rfl (fun _ => rfl) (fun _ hmem => .inl hmem) ?_
    rw [hat.holds.total, hsum, add_zero]

variable {ι : Type} {items : List ι} {make : ι → Eval σ α} {costs : ι → Except Error α → M → Prop}

/-- What the strands have spent that are over. -/
theorem exists_paid {first : Nat} {ledger : Ledger (Purse M)} {outcomes : List (Except Error α)}
    {meter : σ → Option M} {start : M}
    (hsettled : List.Forall₂ (Triple.SettledAt (purses meter start) ledger)
      ((items.map fun item => Purse.fresh (billOf (costs item))).zipIdx first) outcomes)
    (hfree : ∀ strand ∈ List.range' first items.length, ¬ Taken ledger strand) :
    ∃ paid : List (Except Error α × M), outcomes = paid.map Prod.fst ∧
      (List.range' first items.length).map (owing ledger) = paid.map Prod.snd ∧
      (∀ strand ∈ List.range' first items.length,
        ∃ purse, ledger.accounts[strand]? = some purse ∧ purse.closed = true) ∧
      List.Forall₂ (fun item outcome => costs item outcome.1 outcome.2) items paid := by
  induction items generalizing first outcomes with
  | nil =>
      cases hsettled
      exact ⟨[], rfl, rfl, List.forall_mem_nil _, .nil⟩
  | cons item items ih =>
      rw [List.map_cons, List.zipIdx_cons] at hsettled
      rw [List.length_cons, List.range'_succ] at hfree ⊢
      cases hsettled with
      | cons hfirst hrest =>
          obtain ⟨purse, ending, hpurse, hle, ⟨hclosed, hbill⟩, rfl⟩ := hfirst
          obtain ⟨paid, rfl, howing, hdone, hpaid⟩ := ih hrest fun strand hmem =>
            hfree strand (List.mem_cons_of_mem _ hmem)
          have hsame : purse.bill = billOf (costs item) := by
            rcases hle with rfl | ⟨_, hsame⟩
            · rfl
            · exact hsame
          rw [hsame] at hbill
          obtain ⟨result, rfl, hcost⟩ := hbill
          have hown : owing ledger first = purse.spent := by
            rw [owing, if_neg (hfree first List.mem_cons_self), hpurse]
            rfl
          refine ⟨(result, purse.spent) :: paid, ?_, ?_, ?_, .cons hcost hpaid⟩
          · rw [received_pack, List.map_cons]
          · rw [List.map_cons, howing, hown, List.map_cons]
          · exact List.forall_mem_cons.2 ⟨⟨purse, hpurse, hclosed⟩, hdone⟩

/-- Steps side by side spend what each of them does. -/
theorem each (h : ∀ item ∈ items, Spends meter (make item) (costs item)) :
    Spends meter (Eval.each (items.map make)) fun result more =>
      ∃ paid : List (Except Error α × M), result = .ok (paid.map Prod.fst) ∧
        more = (paid.map Prod.snd).sum ∧
          List.Forall₂ (fun item outcome => costs item outcome.1 outcome.2) items paid := by
  rintro start own bill spent next hnext ledger world ⟨taken, hat⟩
  let account := fun item => Purse.fresh (billOf (costs item))
  let waiting := fun first : Nat =>
    (⟨bill, spent, List.range' first items.length, taken, false⟩ : Purse M)
  have hown := (List.getElem?_eq_some_iff.1 hat.account).1
  -- while it waits, the strand holds all those that were started
  have hpre : ∀ before scene, At (purses meter start) own ⟨bill, spent, [], taken, false⟩ before scene →
      (Triple.openEach before (items.map account)).MayEnter own (waiting before.accounts.length) ∧
        Books ((Triple.openEach before (items.map account)).enter own
          (waiting before.accounts.length)) meter start scene := by
    intro before scene hbefore
    have hlt := (List.getElem?_eq_some_iff.1 hbefore.account).1
    have hold : (Triple.openEach before (items.map account)).accounts[own]? =
        some ⟨bill, spent, [], taken, false⟩ :=
      (List.getElem?_append_left hlt).trans hbefore.account
    have hextends : Extends before ((Triple.openEach before (items.map account)).enter own
        (waiting before.accounts.length)) own (items.map account) := by
      refine ⟨?_, fun place => ?_, ?_, fun strand hstrand hne => ?_, .inr ?_⟩
      · rw [Ledger.enter, List.length_set, Triple.openEach, List.length_append]
      · rw [getElem?_enter _ hold, if_neg (Nat.ne_of_lt (Nat.lt_add_right place hlt)), Triple.openEach,
          List.getElem?_append_right (Nat.le_add_right _ _), Nat.add_sub_cancel_left]
      · exact List.forall_mem_map.2 fun item _ => ⟨rfl, rfl⟩
      · rw [getElem?_enter _ hold, if_neg hne.symm]
        exact List.getElem?_append_left hstrand
      · refine ⟨_, hbefore.account, rfl, rfl, ?_⟩
        rw [getElem?_enter _ hold, if_pos rfl, List.length_map]
    exact ⟨⟨_, hold, .inr ⟨rfl, rfl⟩⟩, hbefore.holds.extend hextends⟩
  refine Triple.each_numbered account (fun item hitem number => ((h item hitem).strand start number).starts)
    hpre (fun _ _ _ => .inl rfl) next ?_ ledger world hat
  rintro result later now ⟨first, outcomes, hlater, rfl, hsettled⟩
  have hbooks : Books later meter start now := hlater.holds
  obtain ⟨paid, rfl, howing, hdone, hpaid⟩ := exists_paid hsettled fun strand hmem =>
    hbooks.not_taken_of_held hlater.account hmem
  -- and takes all over when it goes on
  let collected : Purse M := ⟨bill, spent + (paid.map Prod.snd).sum, [],
    (waiting first).claims, false⟩
  have hmay : later.MayEnter own collected := ⟨_, hlater.account, .inr ⟨rfl, rfl⟩⟩
  have hsum : outstanding (later.enter own collected) = outstanding later :=
    Books.outstanding_collect hbooks hlater.account rfl rfl (by rw [howing])
  have hentered : Books (later.enter own collected) meter start now := by
    refine hbooks.enter hlater.account rfl rfl (fun _ => rfl) (fun strand hmem => ?_) ?_
    · exact (List.mem_append.1 hmem).symm.imp_right (hdone strand)
    · rw [hsum, hbooks.total]
  exact (hnext _ _ _ ⟨_, ⟨paid, rfl, rfl, hpaid⟩, _, hmay.account, hentered⟩).of_enter hmay

end Spends

/-! ### When the run is over -/

/-- The books of a strand that has just been started, all by itself. -/
theorem books_start {world : σ} {meter : σ → Option M} {start : M} (hstart : meter world = some start)
    (bill : Ending → M → Prop) : Books ⟨[Purse.fresh bill], 0⟩ meter start world := by
  have honly : ∀ {i : Nat} {purse : Purse M}, [Purse.fresh bill][i]? = some purse →
      i = 0 ∧ purse = Purse.fresh bill := by
    intro i purse hi
    cases i with
    | zero => exact ⟨rfl, (Option.some.inj hi).symm⟩
    | succ i => cases hi
  have hfree : ∀ strand, ¬ Taken ⟨[Purse.fresh bill], 0⟩ strand := by
    intro strand htaken
    obtain ⟨i, purse, hi, hmem⟩ := taken_iff.1 htaken
    rw [(honly hi).2] at hmem
    cases hmem
  refine ⟨?_, fun hi hmem => ?_, fun hi hj _ _ => ?_, fun hi => ?_, fun hi htaken => ?_,
    fun hi _ => ?_, fun hi hpos => ?_⟩
  · rw [hstart, outstanding, List.length_singleton, Finset.sum_range_one, owing, if_neg (hfree 0)]
    exact congrArg some (add_zero start).symm
  · rw [(honly hi).2] at hmem
    cases hmem
  · exact (honly hi).1.trans (honly hj).1.symm
  · rw [(honly hi).2]
    exact List.nodup_nil
  · exact absurd htaken (hfree _)
  · rw [(honly hi).2]
    rfl
  · exact absurd (honly hi).1 hpos.ne'

/-- By the end of a run the meter has gone up by what the step spends, unless the run came to a stop
before that. -/
theorem Spends.run [Parceled α] {meter : σ → Option M} {step : Eval σ α}
    {cost : Except Error α → M → Prop} (h : Spends meter step cost) {world : σ} {start : M}
    (hstart : meter world = some start) :
    (Eval.run world step).1 = .error .stalled ∨
      ∃ more, cost (Eval.run world step).1 more ∧
        meter (Eval.run world step).2 = some (start + more) := by
  obtain ⟨ledger, hbooks, ⟨_, hstalled⟩ | ⟨purse, ending, hpurse, hle, ⟨hclosed, hbill⟩, hending⟩⟩ :=
    (h.strand start 0).exists_settled (books_start hstart (billOf cost))
  · exact .inl hstalled
  · have hsame : purse.bill = billOf cost := by
      rcases hle with rfl | ⟨_, hsame⟩
      · rfl
      · exact hsame
    rw [hsame] at hbill
    obtain ⟨result, rfl, hcost⟩ := hbill
    rw [received_pack] at hending
    refine .inr ⟨purse.spent, hending ▸ hcost, ?_⟩
    rw [hbooks.total, hbooks.outstanding_eq hpurse (hbooks.idle hpurse hclosed)]

end Rulebook.Eval
