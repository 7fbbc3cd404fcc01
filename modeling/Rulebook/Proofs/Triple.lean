import Rulebook.Eval
import Rulebook.Proofs.Strand.Patience

/-!
What a step does to the ledger and the world.

`Triple charter own pre step post` says that the strand `own` keeps to the charter while it makes a
step, if `pre` holds before, and that `post` then holds of the result, the ledger and the world.  It
is for the strand to say what it enters into its account (`Triple.enter`).  There is one rule for
each way to make a step from others.
-/

namespace Rulebook.Eval

open Strand

variable {σ α β Λ : Type} [Preorder Λ] {charter : Charter σ Ending Λ} {own : Nat}

/-- A strand that makes a step keeps to the charter, from `pre` to `post`. -/
def Triple (charter : Charter σ Ending Λ) (own : Nat) (pre : Ledger Λ → σ → Prop) (step : Eval σ α)
    (post : Except Error α → Ledger Λ → σ → Prop) : Prop :=
  ∀ next, (∀ result ledger world, post result ledger world →
    charter.Honours (next result) own ledger world) →
      ∀ ledger world, pre ledger world → charter.Honours (step next) own ledger world

/-- The charter holds, and this is the account of the strand. -/
structure At (charter : Charter σ Ending Λ) (own : Nat) (a : Λ) (ledger : Ledger Λ) (world : σ) :
    Prop where
  account : ledger.accounts[own]? = some a
  holds : charter.holds ledger world

/-- The strand has its first turn, with this account. -/
def Begins (charter : Charter σ Ending Λ) (own : Nat) (a : Λ) (ledger : Ledger Λ) (world : σ) :
    Prop :=
  ∃ before : Ledger Λ, ledger = before.begin ∧ before.begun = own ∧ At charter own a before world

/-- The strand may end with this result. -/
def MayEnd [Parceled α] (charter : Charter σ Ending Λ) (own : Nat) (result : Except Error α)
    (ledger : Ledger Λ) (world : σ) : Prop :=
  ∃ a, ledger.MayEnter own a ∧ charter.settles a (result.map Parceled.pack) ∧
    charter.holds (ledger.enter own a) world

namespace Triple

variable {pre : Ledger Λ → σ → Prop} {step : Eval σ α}
  {post : Except Error α → Ledger Λ → σ → Prop} {a : Λ}

theorem imp (h : Triple charter own pre step post) {stronger : Ledger Λ → σ → Prop}
    {weaker : Except Error α → Ledger Λ → σ → Prop}
    (hpre : ∀ ledger world, stronger ledger world → pre ledger world)
    (hpost : ∀ result ledger world, post result ledger world → weaker result ledger world) :
    Triple charter own stronger step weaker :=
  fun next hnext ledger world hstronger =>
    h next (fun result ledger world hresult => hnext result ledger world (hpost _ _ _ hresult))
      ledger world (hpre _ _ hstronger)

/-- What holds before and is not about the ledger and the world may be used for the step. -/
theorem of_fact {fact : Prop} (h : fact → Triple charter own pre step post) :
    Triple charter own (fun ledger world => fact ∧ pre ledger world) step post :=
  fun next hnext ledger world hpre => h hpre.1 next hnext ledger world hpre.2

theorem outcome {result : Except Error α}
    (h : ∀ ledger world, pre ledger world → post result ledger world) :
    Triple charter own pre (Eval.outcome result) post :=
  fun _ hnext ledger world hpre => hnext result ledger world (h ledger world hpre)

theorem pure {result : α} (h : ∀ ledger world, pre ledger world → post (.ok result) ledger world) :
    Triple charter own pre (Pure.pure result) post :=
  outcome h

/-- A step and, unless it fails, another one. -/
theorem bind {rest : α → Eval σ β} {last : Except Error β → Ledger Λ → σ → Prop}
    (h : Triple charter own pre step post)
    (hok : ∀ a, Triple charter own (post (.ok a)) (rest a) last)
    (herror : ∀ e ledger world, post (.error e) ledger world → last (.error e) ledger world) :
    Triple charter own pre (step >>= rest) last := by
  intro next hnext
  apply h
  intro result ledger world hresult
  cases result with
  | ok a => exact hok a next hnext ledger world hresult
  | error e => exact hnext (.error e) ledger world (herror e ledger world hresult)

theorem attempt (h : Triple charter own pre step post) :
    Triple charter own pre step.attempt fun outcome ledger world =>
      ∃ result, outcome = .ok result ∧ post result ledger world :=
  fun _ hnext => h _ fun result ledger world hresult => hnext _ ledger world ⟨result, rfl, hresult⟩

/-- A step that looks at the world first. -/
theorem get_bind {rest : σ → Eval σ α}
    (h : ∀ seen, Triple charter own (fun ledger world => world = seen ∧ pre ledger world)
      (rest seen) post) : Triple charter own pre (MonadState.get >>= rest) post :=
  fun next hnext ledger world hpre => h world next hnext ledger world ⟨rfl, hpre⟩

theorem modify {change : σ → σ} {post : Except Error Unit → Ledger Λ → σ → Prop} :
    Triple charter own (fun ledger world => post (.ok ()) ledger (change world))
      (modify change : Eval σ Unit) post :=
  fun _ hnext ledger world hpre => hnext (.ok ()) ledger (change world) hpre

/-- A step before which something is entered into the account. -/
theorem enter {entered : Ledger Λ → σ → Prop} (h : Triple charter own entered step post) (a : Λ)
    (hpre : ∀ ledger world, pre ledger world →
      ledger.MayEnter own a ∧ entered (ledger.enter own a) world) :
    Triple charter own pre step post := by
  intro next hnext ledger world hledger
  obtain ⟨hmay, hentered⟩ := hpre ledger world hledger
  exact (h next hnext _ world hentered).of_enter hmay

/-- A step after which something is entered into the account. -/
theorem entered (a : Λ) (h : Triple charter own pre step fun result ledger world =>
      ledger.MayEnter own a ∧ post result (ledger.enter own a) world) :
    Triple charter own pre step post :=
  fun next hnext => h next fun result _ world ⟨hmay, hpost⟩ =>
    (hnext result _ world hpost).of_enter hmay

/-- A step after a change of the world that is entered into the account. -/
theorem modify_bind {change : σ → σ} {rest : Unit → Eval σ α} {entered : Ledger Λ → σ → Prop}
    (h : Triple charter own entered (rest ()) post)
    (hpre : ∀ ledger world, pre ledger world →
      ∃ a, ledger.MayEnter own a ∧ entered (ledger.enter own a) (change world)) :
    Triple charter own pre (MonadState.modifyGet (fun world => ((), change world)) >>= rest) post := by
  intro next hnext ledger world hledger
  obtain ⟨a, hmay, hentered⟩ := hpre ledger world hledger
  exact (h next hnext _ _ hentered).of_enter hmay

theorem pause :
    Triple charter own (At charter own a) (Eval.pause : Eval σ Unit) fun _ => At charter own a := by
  intro next hnext ledger world hat
  refine ⟨a, Ledger.mayEnter_self hat.account, ?_⟩
  rw [Ledger.enter_self hat.account]
  exact ⟨hat.holds, fun later scene _ hown hholds =>
    hnext _ later scene ⟨hown.trans hat.account, hholds⟩⟩

variable [Parceled α]

/-- What is known of some strands when the strand goes on that waited for them. -/
theorem await {strands : List Nat} {enough : List (Option Ending) → Bool}
    {next : List (Option Ending) → Strand σ Ending} {ledger : Ledger Λ} {world : σ}
    (hmay : ledger.MayEnter own a) (hholds : charter.holds (ledger.enter own a) world)
    (hawait : MayAwait (charter.pledge a) (charter.pledges (ledger.enter own a)) strands enough)
    (hnext : ∀ known later scene, enough known = true → (ledger.enter own a).Grows later →
      At charter own a later scene → charter.AdmitsEach later strands known →
        charter.Honours (next known) own later scene) :
    charter.Honours (.await strands enough next) own ledger world := by
  refine ⟨a, hmay, hholds, hawait, fun known henough later scene hlater hown hscene hadmits => ?_⟩
  exact hnext known later scene henough hlater ⟨hown.trans hmay.account, hscene⟩ hadmits

theorem join [charter.Unranked] (number : Nat) :
    Triple charter own (At charter own a) (Eval.join number : Eval σ α)
      fun _ => At charter own a := by
  intro next hnext ledger world hat
  refine await (Ledger.mayEnter_self hat.account)
    (by rw [Ledger.enter_self hat.account]; exact hat.holds)
    (.inl (Charter.Unranked.rank a)) ?_
  exact fun known later scene _ _ hlater _ => hnext _ later scene hlater

/-- A strand that makes the step when it has its first turn. -/
theorem starts {number : Nat}
    (h : Triple charter number (Begins charter number a) step (MayEnd charter number)) :
    charter.Starts (charter.Honours step.strand number) number a := by
  intro later world haccount hbegun hholds
  apply h
  · exact fun result ledger world hend => hend
  · exact ⟨later, rfl, hbegun, haccount, hholds⟩

/-- A step in a strand of its own, of whose ending the world hears; the strand has the number of its
account. -/
theorem spawn {change : Ending → σ → σ} {b : Λ} {post : Except Error Nat → Ledger Λ → σ → Prop}
    (hstep : ∀ number, charter.Starts (charter.Honours step.strand number) number b)
    (hchange : ∀ ending ledger world, charter.holds ledger world →
      charter.holds ledger (change ending world))
    (hpre : ∀ ledger world, pre ledger world →
      post (.ok ledger.accounts.length) (ledger.openFor b) world) :
    Triple charter own pre (Eval.spawn step change) post := by
  intro next hnext ledger world hledger
  refine ⟨b, hstep _, ?_, hnext _ _ world (hpre ledger world hledger)⟩
  exact fun later scene ending _ => hchange ending later scene

/-! ### Steps side by side -/

/-- Accounts for several further strands. -/
def openEach (ledger : Ledger Λ) (accounts : List Λ) : Ledger Λ :=
  { ledger with accounts := ledger.accounts ++ accounts }

theorem honours_spawnEach {children : List (Strand σ Ending)} {accounts : List Λ}
    (hchildren : List.Forall₂ (fun child a => ∀ number,
      charter.Starts (charter.Honours child number) number a) children accounts)
    {next : List Nat → Strand σ Ending} {ledger : Ledger Λ} {world : σ}
    (hnext : charter.Honours (next (List.range' ledger.accounts.length children.length)) own
      (openEach ledger accounts) world) :
    charter.Honours (Strand.spawnEach children next) own ledger world := by
  induction hchildren generalizing next ledger with
  | nil => simpa [Strand.spawnEach, openEach] using hnext
  | @cons child a children accounts hchild _ ih =>
      refine ⟨a, hchild _, ih ?_⟩
      simpa [openEach, Ledger.openFor, List.range'_succ] using hnext

/-- What came out of a strand, given the account that was opened for it and its number. -/
def SettledAt (charter : Charter σ Ending Λ) (ledger : Ledger Λ) (opened : Λ × Nat)
    (outcome : Except Error α) : Prop :=
  ∃ (c : Λ) (ending : Ending), ledger.accounts[opened.2]? = some c ∧ opened.1 ≤ c ∧
    charter.settles c ending ∧ outcome = received (some ending)

/-- What came out of a strand with an account that was opened with `b`. -/
def Settled (charter : Charter σ Ending Λ) (ledger : Ledger Λ) (b : Λ)
    (outcome : Except Error α) : Prop :=
  ∃ number, SettledAt charter ledger (b, number) outcome

theorem forall₂_settledAt {accounts : List Λ} {ledger : Ledger Λ} (first : Nat)
    (haccounts : ∀ place b, accounts[place]? = some b →
      ∃ c, ledger.accounts[first + place]? = some c ∧ b ≤ c)
    {known : List (Option Ending)}
    (hadmits : charter.AdmitsEach ledger (List.range' first accounts.length) known)
    (hall : known.all Option.isSome = true) :
    List.Forall₂ (SettledAt (α := α) charter ledger) (accounts.zipIdx first)
      (known.map received) := by
  induction accounts generalizing first known with
  | nil =>
      cases hadmits
      exact .nil
  | cons b accounts ih =>
      rw [List.length_cons, List.range'_succ] at hadmits
      cases hadmits with
      | @cons _ left _ rest hleft hrest =>
          rw [List.all_cons, Bool.and_eq_true] at hall
          obtain ⟨ending, rfl⟩ := Option.isSome_iff_exists.1 hall.1
          obtain ⟨c, hc, hsettles⟩ := hleft ending rfl
          obtain ⟨d, hd, hle⟩ := haccounts 0 b rfl
          obtain rfl := Option.some.inj (hc.symm.trans hd)
          refine .cons ⟨c, ending, hc, hle, hsettles, rfl⟩ (ih (first + 1) ?_ hrest hall.2)
          intro place b' hb'
          rw [Nat.add_assoc, Nat.add_comm 1 place]
          exact haccounts (place + 1) b' hb'

theorem forall₂_settled_of_settledAt {accounts : List Λ} {ledger : Ledger Λ} {first : Nat}
    {outcomes : List (Except Error α)}
    (h : List.Forall₂ (SettledAt charter ledger) (accounts.zipIdx first) outcomes) :
    List.Forall₂ (Settled charter ledger) accounts outcomes := by
  have hnumbered : List.Forall₂ (fun opened : Λ × Nat => Settled charter ledger opened.1)
      (accounts.zipIdx first) outcomes := h.imp fun opened _ hopened => ⟨opened.2, hopened⟩
  rwa [← List.forall₂_map_left_iff (f := Prod.fst), List.zipIdx_map_fst] at hnumbered

theorem forall₂_settled {accounts : List Λ} {ledger : Ledger Λ} (first : Nat)
    (haccounts : ∀ place b, accounts[place]? = some b →
      ∃ c, ledger.accounts[first + place]? = some c ∧ b ≤ c)
    {known : List (Option Ending)}
    (hadmits : charter.AdmitsEach ledger (List.range' first accounts.length) known)
    (hall : known.all Option.isSome = true) :
    List.Forall₂ (Settled (α := α) charter ledger) accounts (known.map received) :=
  forall₂_settled_of_settledAt (forall₂_settledAt first haccounts hadmits hall)

/-- Steps side by side, each of which has an account of its own, and for all of which the strand may
wait.  What it enters may tell the numbers of the strands, which are those from `first` on. -/
theorem each_numbered {ι : Type} {items : List ι} {make : ι → Eval σ α} (account : ι → Λ)
    {a : Nat → Λ}
    (hitems : ∀ item ∈ items, ∀ number,
      charter.Starts (charter.Honours (make item).strand number) number (account item))
    (hpre : ∀ ledger world, pre ledger world →
      (openEach ledger (items.map account)).MayEnter own (a ledger.accounts.length) ∧
        charter.holds ((openEach ledger (items.map account)).enter own (a ledger.accounts.length))
          world)
    (hawait : ∀ ledger world, pre ledger world →
      MayAwait (charter.pledge (a ledger.accounts.length))
        (charter.pledges ((openEach ledger (items.map account)).enter own
          (a ledger.accounts.length)))
        (List.range' ledger.accounts.length items.length) fun known => known.all Option.isSome) :
    Triple charter own pre (Eval.each (items.map make)) fun result ledger world =>
      ∃ first outcomes, At charter own (a first) ledger world ∧ result = .ok outcomes ∧
        List.Forall₂ (SettledAt charter ledger) ((items.map account).zipIdx first) outcomes := by
  intro next hnext ledger world hledger
  have hchildren : List.Forall₂ (fun child a => ∀ number,
      charter.Starts (charter.Honours child number) number a)
      ((items.map make).map Eval.strand) (items.map account) := by
    rw [List.map_map, List.forall₂_map_left_iff, List.forall₂_map_right_iff, List.forall₂_same]
    exact hitems
  obtain ⟨hmay, hholds⟩ := hpre ledger world hledger
  have hlength : ((items.map make).map strand).length = items.length := by
    rw [List.length_map, List.length_map]
  refine honours_spawnEach hchildren
    (await hmay hholds (hlength ▸ hawait ledger world hledger) ?_)
  intro known later scene henough hlater hat hadmits
  refine hnext _ later scene ⟨_, _, hat, rfl, forall₂_settledAt ledger.accounts.length ?_ ?_
    henough⟩
  · intro place b hb
    apply (hmay.grows.trans hlater).account
    rw [openEach, List.getElem?_append_right (Nat.le_add_right _ _), Nat.add_sub_cancel_left]
    exact hb
  · simpa using hadmits

/-- Steps side by side, each of which has an account of its own, and for all of which the strand may
wait. -/
theorem each_of_mayAwait {ι : Type} {items : List ι} {make : ι → Eval σ α} (account : ι → Λ)
    (hitems : ∀ item ∈ items, ∀ number,
      charter.Starts (charter.Honours (make item).strand number) number (account item))
    (hpre : ∀ ledger world, pre ledger world →
      (openEach ledger (items.map account)).MayEnter own a ∧
        charter.holds ((openEach ledger (items.map account)).enter own a) world)
    (hawait : ∀ ledger world, pre ledger world →
      MayAwait (charter.pledge a)
        (charter.pledges ((openEach ledger (items.map account)).enter own a))
        (List.range' ledger.accounts.length items.length) fun known => known.all Option.isSome) :
    Triple charter own pre (Eval.each (items.map make)) fun result ledger world =>
      At charter own a ledger world ∧ ∃ outcomes, result = .ok outcomes ∧
        List.Forall₂ (Settled charter ledger) (items.map account) outcomes :=
  (each_numbered account hitems hpre hawait).imp (fun _ _ h => h)
    fun _ _ _ ⟨_, outcomes, hat, hresult, hsettled⟩ =>
      ⟨hat, outcomes, hresult, forall₂_settled_of_settledAt hsettled⟩

/-- Steps side by side, each of which has an account of its own. -/
theorem each [charter.Unranked] {ι : Type} {items : List ι} {make : ι → Eval σ α} (account : ι → Λ)
    (hitems : ∀ item ∈ items, ∀ number,
      charter.Starts (charter.Honours (make item).strand number) number (account item))
    (hpre : ∀ ledger world, pre ledger world →
      (openEach ledger (items.map account)).MayEnter own a ∧
        charter.holds ((openEach ledger (items.map account)).enter own a) world) :
    Triple charter own pre (Eval.each (items.map make)) fun result ledger world =>
      At charter own a ledger world ∧ ∃ outcomes, result = .ok outcomes ∧
        List.Forall₂ (Settled charter ledger) (items.map account) outcomes :=
  each_of_mayAwait account hitems hpre fun _ _ _ => .inl (Charter.Unranked.rank a)

/-- Two steps side by side, whose accounts are opened with `b`. -/
theorem both [charter.Unranked] [Parceled β] {other : Eval σ β} {b : Λ}
    (hstep : ∀ number, charter.Starts (charter.Honours step.strand number) number b)
    (hother : ∀ number, charter.Starts (charter.Honours other.strand number) number b)
    (hpre : ∀ ledger world, pre ledger world →
      (openEach ledger [b, b]).MayEnter own a ∧
        charter.holds ((openEach ledger [b, b]).enter own a) world) :
    Triple charter own pre (Eval.both step other) fun _ => At charter own a := by
  intro next hnext ledger world hledger
  obtain ⟨hmay, hholds⟩ := hpre ledger world hledger
  refine honours_spawnEach (.cons hstep (.cons hother .nil))
    (await hmay hholds (.inl (Charter.Unranked.rank a)) ?_)
  exact fun known later scene _ _ hat _ => hnext _ later scene hat

end Triple

/-! ### What comes out in the end -/

/-- Whenever a step has come to its ending, the charter holds, and the account of the step is as the
ending says. -/
theorem Triple.settled_of_outcome [Parceled α] {step : Eval σ α} {a : Λ}
    (h : Triple charter 0 (Begins charter 0 a) step (MayEnd charter 0)) {world : σ}
    (hholds : charter.holds ⟨[a], 0⟩ world) {turns : Nat} {ending : Ending}
    (houtcome : ((Loop.start world step.strand).run turns).outcome? 0 = some ending) :
    ∃ (ledger : Ledger Λ) (c : Λ),
      charter.holds ledger ((Loop.start world step.strand).run turns).world ∧
        ledger.accounts[0]? = some c ∧ a ≤ c ∧ charter.settles c ending := by
  obtain ⟨ledger, hgrows, hbalanced, hworld⟩ := (Loop.balanced_start h.starts).run hholds turns
  obtain ⟨c, hc, hsettles⟩ := hbalanced.outcome 0 ending houtcome
  obtain ⟨same, hsame, hle⟩ := hgrows.account
    (show (⟨[a], 0⟩ : Ledger Λ).accounts[0]? = some a from rfl)
  obtain rfl := Option.some.inj (hc.symm.trans hsame)
  exact ⟨ledger, c, hworld, hc, hle, hsettles⟩

/-- After a run the charter holds, and the account of the step is as its ending says, unless the run
came to a stop before the step had one. -/
theorem Triple.exists_settled [Parceled α] {step : Eval σ α} {a : Λ}
    (h : Triple charter 0 (Begins charter 0 a) step (MayEnd charter 0)) {world : σ}
    (hholds : charter.holds ⟨[a], 0⟩ world) :
    ∃ ledger : Ledger Λ, charter.holds ledger (Eval.run world step).2 ∧
      (((Loop.start world step.strand).run turnLimit).outcome? 0 = none ∧
          (Eval.run world step).1 = .error .stalled ∨
        ∃ c ending, ledger.accounts[0]? = some c ∧ a ≤ c ∧ charter.settles c ending ∧
          (Eval.run world step).1 = received (some ending)) := by
  obtain ⟨ledger, hgrows, hbalanced, hworld⟩ :=
    (Loop.balanced_start h.starts).run hholds turnLimit
  refine ⟨ledger, hworld, ?_⟩
  rw [Eval.run]
  cases houtcome : ((Loop.start world step.strand).run turnLimit).outcome? 0 with
  | none => exact .inl ⟨rfl, rfl⟩
  | some ending =>
      obtain ⟨c, hc, hsettles⟩ := hbalanced.outcome 0 ending houtcome
      obtain ⟨same, hsame, hle⟩ := hgrows.account
        (show (⟨[a], 0⟩ : Ledger Λ).accounts[0]? = some a from rfl)
      obtain rfl := Option.some.inj (hc.symm.trans hsame)
      exact .inr ⟨c, ending, hc, hle, hsettles, rfl⟩

/-- When nothing is due any more after a run, a step of finite rank has come to its ending. -/
theorem Triple.exists_ending [Parceled α] {step : Eval σ α} {a : Λ}
    (h : Triple charter 0 (Begins charter 0 a) step (MayEnd charter 0)) {world : σ}
    (hholds : charter.holds ⟨[a], 0⟩ world) (hrank : charter.rank a ≠ ⊤) {turns : Nat}
    (hqueue : ((Loop.start world step.strand).run turns).queue = []) :
    ∃ ending, ((Loop.start world step.strand).run turns).outcome? 0 = some ending := by
  obtain ⟨ledger, hgrows, hpatient⟩ := (Loop.patient_start h.starts hholds).run turns
  obtain ⟨b, hb, hle⟩ := hgrows.account
    (show (⟨[a], 0⟩ : Ledger Λ).accounts[0]? = some a from rfl)
  exact hpatient.exists_outcome hqueue hb (charter.rank_mono hle ▸ hrank)

/-- After a run the charter holds, and the account of the step is as its outcome says. -/
theorem Triple.run [Parceled α] {step : Eval σ α} {a : Λ}
    (h : Triple charter 0 (Begins charter 0 a) step (MayEnd charter 0)) {world : σ}
    (hholds : charter.holds ⟨[a], 0⟩ world) :
    ∃ ledger : Ledger Λ, charter.holds ledger (Eval.run world step).2 ∧
      ∀ b, (Eval.run world step).1 = .ok b →
        ∃ c parcel, ledger.accounts[0]? = some c ∧ charter.settles c (.ok parcel) := by
  obtain ⟨ledger, hworld, hsettled⟩ := h.exists_settled hholds
  refine ⟨ledger, hworld, fun b hb => ?_⟩
  rw [hb] at hsettled
  obtain ⟨c, ending, hc, _, hsettles, hending⟩ :=
    hsettled.resolve_left fun hstalled => nomatch hstalled.2
  cases ending with
  | ok parcel => exact ⟨c, parcel, hc, hsettles⟩
  | error e => cases hending

end Rulebook.Eval
