import Rulebook.Proofs.Ensures
import Rulebook.Proofs.Within

/-!
Steps that come to the same whatever goes on besides.

Every strand has a task: what its ending will be like, which job it makes, if it makes one, and how
far it waits.  The task never changes, so a strand knows its own task whenever it gets its turn, and
whoever waits for a strand knows from its task what will come out.  `Comes` says that a step comes to
such a result beside any others, given that everybody keeps what holds of the tasks and the world.

A strand waits only for strands of lower rank.  So none of them waits for good, and what a step comes
to it comes to in the end (`Comes.run`).
-/

namespace Rulebook.Eval

open Strand

/-- What a strand is there for: what its ending will be like, the job that it makes, and how far it
waits. -/
structure Task where
  promise : Ending → Prop
  job : Option Nat
  rank : Nat

instance : Preorder Task where
  le task other := task = other
  le_refl _ := rfl
  le_trans _ _ _ h h' := h.trans h'

/-- The task of making a step, which comes to such a result. -/
def Task.to {α : Type} [Parceled α] (post : Except Error α → Prop) (job : Option Nat)
    (rank : Nat) : Task where
  promise ending := ∃ result, ending = result.map Parceled.pack ∧ post result
  job := job
  rank := rank

/-- The charter of strands with tasks, given what holds of the tasks and the world. -/
def concord {σ : Type} (inv : List Task → σ → Prop) : Charter σ Ending Task where
  holds ledger world := inv ledger.accounts world
  settles task ending := task.promise ending
  settles_mono h hle := hle ▸ h
  rank task := task.rank
  rank_mono hle := congrArg (fun task : Task => (task.rank : ℕ∞)) hle

/-- Strands that make no job may always be started. -/
def Open {σ : Type} (inv : List Task → σ → Prop) : Prop :=
  ∀ tasks more world, (∀ task ∈ more, task.job = none) → inv tasks world → inv (tasks ++ more) world

variable {σ α β : Type} {inv : List Task → σ → Prop} {own rank higher : Nat} {task other : Task}

/-- Whatever goes on besides, and whatever the task is for which it is made, the step comes to such a
result; it waits no further than its rank tells. -/
def Comes (inv : List Task → σ → Prop) (rank : Nat) (step : Eval σ α)
    (post : Except Error α → Prop) : Prop :=
  ∀ own task, rank ≤ task.rank →
    Triple (concord inv) own (At (concord inv) own task) step fun result ledger world =>
      post result ∧ At (concord inv) own task ledger world

theorem At.openEach (hopen : Open inv) {ledger : Ledger Task} {world : σ}
    (h : At (concord inv) own task ledger world) {more : List Task}
    (hmore : ∀ task ∈ more, task.job = none) :
    At (concord inv) own task (Triple.openEach ledger more) world where
  account :=
    (List.getElem?_append_left (List.getElem?_eq_some_iff.1 h.account).1).trans h.account
  holds := hopen ledger.accounts more world hmore h.holds

theorem At.mayEnter_openEach (hopen : Open inv) {ledger : Ledger Task} {world : σ}
    (h : At (concord inv) own task ledger world) {more : List Task}
    (hmore : ∀ task ∈ more, task.job = none) :
    (Triple.openEach ledger more).MayEnter own task ∧
      (concord inv).holds ((Triple.openEach ledger more).enter own task) world := by
  have hat := h.openEach hopen hmore
  exact ⟨Ledger.mayEnter_self hat.account, (Ledger.enter_self hat.account).symm ▸ hat.holds⟩

/-- A strand may wait for strands of lower rank that it started last. -/
theorem At.mayAwait_openEach {ledger : Ledger Task} {world : σ}
    (h : At (concord inv) own task ledger world) {more : List Task}
    (hmore : ∀ other ∈ more, other.rank = rank) (hrank : rank + 1 ≤ task.rank)
    {enough : List (Option Ending) → Bool}
    (henough : ∀ known, known.length = more.length → known.all Option.isSome = true →
      enough known = true) :
    MayAwait ((concord inv).pledge task)
      ((concord inv).pledges ((Triple.openEach ledger more).enter own task))
      (List.range' ledger.accounts.length more.length) enough := by
  have hself : (Triple.openEach ledger more).enter own task = Triple.openEach ledger more :=
    Ledger.enter_self
      ((List.getElem?_append_left (List.getElem?_eq_some_iff.1 h.account).1).trans h.account)
  have hopen : (concord inv).pledges (Triple.openEach ledger more) =
      (concord inv).pledges ledger ++ more.map (concord inv).pledge := List.map_append
  have hranks : ∀ pledge ∈ more.map (concord inv).pledge, pledge.rank = rank := by
    intro pledge hpledge
    obtain ⟨other, hother, rfl⟩ := List.mem_map.1 hpledge
    exact congrArg Nat.cast (hmore other hother)
  have hlower : (rank : ℕ∞) + 1 ≤ ((concord inv).pledge task).rank :=
    show (rank : ℕ∞) + 1 ≤ task.rank from mod_cast hrank
  rw [hself, hopen]
  simpa [Charter.pledges] using
    Ensures.mayAwait_range' ((concord inv).pledges ledger) _ hlower hranks (by simpa using henough)

/-- A strand that makes the step it is there for. -/
theorem Triple.starts_task [Parceled α] {step : Eval σ α} {number : Nat}
    (h : Triple (concord inv) number (At (concord inv) number task) step
      fun result ledger world => task.promise (result.map Parceled.pack) ∧
        At (concord inv) number task ledger world) :
    (concord inv).Starts ((concord inv).Honours step.strand number) number task := by
  apply Triple.starts
  refine h.imp ?_ ?_
  · rintro ledger world ⟨before, rfl, _, hat⟩
    exact ⟨hat.account, hat.holds⟩
  · rintro result ledger world ⟨hpromise, hat⟩
    exact ⟨task, Ledger.mayEnter_self hat.account, hpromise,
      (Ledger.enter_self hat.account).symm ▸ hat.holds⟩

/-- Waiting for a strand of lower rank whose task is known. -/
theorem triple_join [Parceled α] (number : Nat) (hlower : other.rank < task.rank) :
    Triple (concord inv) own (fun ledger world =>
        At (concord inv) own task ledger world ∧ ledger.accounts[number]? = some other)
      (Eval.join number : Eval σ α) fun result ledger world =>
        (∃ ending, other.promise ending ∧ result = received (some ending)) ∧
          At (concord inv) own task ledger world := by
  rintro next hnext ledger world ⟨hat, hother⟩
  have hself := Ledger.enter_self hat.account
  refine Triple.await (Ledger.mayEnter_self hat.account) (hself.symm ▸ hat.holds)
    (.inr ⟨List.forall_mem_singleton.2 ⟨_, Charter.getElem?_pledges (hself.symm ▸ hother),
      Nat.cast_lt.2 hlower⟩, fun known _ hall => hall⟩) ?_
  intro known later scene henough hlater hlast hadmits
  cases hadmits with
  | @cons _ ending _ _ hending hrest =>
      cases hrest
      obtain ⟨found, rfl⟩ : ∃ found, ending = some found :=
        Option.isSome_iff_exists.1 (by simpa using henough)
      obtain ⟨account, haccount, hpromise⟩ := hending found rfl
      obtain ⟨same, hsame, rfl⟩ := hlater.account (hself.symm ▸ hother)
      obtain rfl := Option.some.inj (hsame.symm.trans haccount)
      exact hnext _ later scene ⟨⟨found, hpromise, rfl⟩, hlast⟩

namespace Comes

variable {step : Eval σ α} {post : Except Error α → Prop}

theorem imp (h : Comes inv rank step post) {weaker : Except Error α → Prop}
    (hpost : ∀ result, post result → weaker result) : Comes inv rank step weaker :=
  fun own task hrank => (h own task hrank).imp (fun _ _ hat => hat) fun _ _ _ hlast =>
    ⟨hpost _ hlast.1, hlast.2⟩

theorem raise (h : Comes inv rank step post) (hle : rank ≤ higher) : Comes inv higher step post :=
  fun own task hrank => h own task (Nat.le_trans hle hrank)

theorem outcome {result : Except Error α} (h : post result) :
    Comes inv rank (Eval.outcome result) post :=
  fun _ _ _ => .outcome fun _ _ hat => ⟨h, hat⟩

theorem throw {e : Error} (h : post (.error e)) :
    Comes inv rank (MonadExcept.throw e : Eval σ α) post := outcome h

/-- A step and, unless it fails, another one. -/
theorem bind {rest : α → Eval σ β} {last : Except Error β → Prop} (h : Comes inv rank step post)
    (hok : ∀ a, post (.ok a) → Comes inv rank (rest a) last)
    (herror : ∀ e, post (.error e) → last (.error e)) : Comes inv rank (step >>= rest) last := by
  intro own task hrank
  refine (h own task hrank).bind (fun a => ?_) fun e _ _ hlast => ⟨herror e hlast.1, hlast.2⟩
  intro next hnext ledger world hresult
  exact hok a hresult.1 own task hrank next hnext ledger world hresult.2

/-- A step that comes to one result, and another step. -/
theorem bind_ok {rest : α → Eval σ β} {last : Except Error β → Prop} {a : α}
    (h : Comes inv rank step (· = .ok a)) (hrest : Comes inv rank (rest a) last) :
    Comes inv rank (step >>= rest) last :=
  h.bind (fun _ hok => Except.ok.inj hok ▸ hrest) fun _ hwrong => nomatch hwrong

theorem attempt (h : Comes inv rank step post) :
    Comes inv rank step.attempt fun outcome => ∃ result, outcome = .ok result ∧ post result :=
  fun own task hrank => (h own task hrank).attempt.imp (fun _ _ hat => hat)
    fun _ _ _ ⟨result, heq, hlast⟩ => ⟨⟨result, heq, hlast.1⟩, hlast.2⟩

/-- A step that comes to a value or fails, and another one that does. -/
theorem bind_toOption {rest : α → Eval σ β} {found : Option α} {last : α → Option β}
    (h : Comes inv rank step (·.toOption = found))
    (hrest : ∀ a, found = some a → Comes inv rank (rest a) (·.toOption = last a)) :
    Comes inv rank (step >>= rest) (·.toOption = found.bind last) := by
  refine h.bind (fun a ha => ?_) fun e he => by rw [← he]; rfl
  rw [← ha]
  exact hrest a ha.symm

/-- What is made of the value to which a step comes, unless it fails. -/
theorem map_toOption {found : Option α} (h : Comes inv rank step (·.toOption = found))
    (make : α → β) :
    Comes inv rank (do return make (← step)) (·.toOption = found.map make) := by
  rw [Option.map_eq_bind]
  exact h.bind_toOption fun a _ => .outcome rfl

/-- A step that looks at the world first. -/
theorem get_bind {rest : σ → Eval σ α}
    (h : ∀ tasks seen, inv tasks seen → Comes inv rank (rest seen) post) :
    Comes inv rank (MonadState.get >>= rest) post := by
  intro own task hrank next hnext ledger world hat
  exact h ledger.accounts world hat.holds own task hrank next hnext ledger world hat

theorem modify {change : σ → σ} (h : ∀ tasks world, inv tasks world → inv tasks (change world)) :
    Comes inv rank (modify change : Eval σ Unit) (· = .ok ()) :=
  fun _ _ _ => Triple.modify.imp (fun ledger world hat =>
    ⟨rfl, hat.account, h ledger.accounts world hat.holds⟩) fun _ _ _ hlast => hlast

theorem pause : Comes inv rank (Eval.pause : Eval σ Unit) (· = .ok ()) := by
  intro own task _ next hnext ledger world hat
  refine Triple.pause (fun result => next (.ok ())) ?_ ledger world hat
  exact fun _ later scene hlater => hnext _ later scene ⟨rfl, hlater⟩

/-- A step that never fails, whatever it comes to. -/
theorem of_unfailing {step : Eval σ Unit} (h : Comes inv rank step fun _ => True)
    (hunfailing : step.Unfailing) : Comes inv rank step (· = .ok ()) := by
  intro own task hrank next hnext
  rw [hunfailing next (fun _ => next (.ok ())) fun _ => rfl]
  exact h own task hrank _ fun _ ledger world hlast => hnext (.ok ()) ledger world ⟨rfl, hlast.2⟩

variable [Parceled α] [Parceled β]

theorem starts (h : Comes inv rank step post) (job : Option Nat) (number : Nat) :
    (concord inv).Starts ((concord inv).Honours step.strand number) number
      (.to post job rank) :=
  Triple.starts_task ((h number _ (Nat.le_refl rank)).imp (fun _ _ hat => hat)
    fun result _ _ hlast => ⟨⟨result, rfl, hlast.1⟩, hlast.2⟩)

/-- A step in a strand of its own, of whose ending the world hears, and for which nobody waits. -/
theorem spawn (hopen : Open inv) {change : Ending → σ → σ} (h : Comes inv higher step post)
    (hchange : ∀ ending tasks world, inv tasks world → inv tasks (change ending world)) :
    Comes inv rank (Eval.spawn step change) fun result => ∃ number, result = .ok number := by
  intro own task _
  refine Triple.spawn (h.starts none)
    (fun ending ledger world => hchange ending ledger.accounts world) fun ledger world hat => ?_
  exact ⟨⟨_, rfl⟩, hat.openEach hopen (List.forall_mem_singleton.2 rfl)⟩

/-- Steps side by side, each of which comes to a result. -/
theorem each (hopen : Open inv) {ι : Type} {items : List ι} {make : ι → Eval σ α}
    {post : ι → Except Error α → Prop}
    (h : ∀ item ∈ items, Comes inv rank (make item) (post item)) :
    Comes inv (rank + 1) (Eval.each (items.map make)) fun result =>
      ∃ outcomes, result = .ok outcomes ∧ List.Forall₂ post items outcomes := by
  intro own task hrank
  have htasks : ∀ other ∈ items.map (fun item => Task.to (post item) none rank),
      other.job = none ∧ other.rank = rank := by
    intro other hother
    obtain ⟨item, _, rfl⟩ := List.mem_map.1 hother
    exact ⟨rfl, rfl⟩
  refine (Triple.each_of_mayAwait (a := task) (fun item => Task.to (post item) none rank)
    (fun item hitem => (h item hitem).starts none)
    (fun ledger world hat => hat.mayEnter_openEach hopen fun other hother => (htasks other hother).1)
    fun ledger world hat => ?_).imp (fun _ _ hat => hat) ?_
  · simpa using hat.mayAwait_openEach (fun other hother => (htasks other hother).2) hrank
      fun known _ hknown => hknown
  rintro result ledger world ⟨hat, outcomes, rfl, hsettled⟩
  refine ⟨⟨outcomes, rfl, (List.forall₂_map_left_iff.1 hsettled).imp ?_⟩, hat⟩
  rintro item outcome ⟨_, _, ending, _, rfl, ⟨found, rfl, hfound⟩, rfl⟩
  rwa [received_pack]

/-- Two steps side by side. -/
theorem both (hopen : Open inv) {other : Eval σ β} {last : Except Error β → Prop}
    (h : Comes inv rank step post) (hother : Comes inv rank other last) :
    Comes inv (rank + 1) (Eval.both step other) (Ensures.Both post last) := by
  intro own task hrank next hnext ledger world hat
  let tasks : List Task := [.to post none rank, .to last none rank]
  have htasks : ∀ other ∈ tasks, other.job = none ∧ other.rank = rank := by simp [tasks, Task.to]
  obtain ⟨hmay, hholds⟩ :=
    hat.mayEnter_openEach hopen fun other hother => (htasks other hother).1
  refine Triple.honours_spawnEach (.cons (h.starts none) (.cons (hother.starts none) .nil))
    (Triple.await hmay hholds ?_ ?_)
  · refine hat.mayAwait_openEach (fun other hother => (htasks other hother).2) hrank
      fun known _ hknown => ?_
    rw [hknown, Bool.or_true]
  intro known later scene henough hlater hlast hadmits
  have haccount : ∀ place task, tasks[place]? = some task →
      later.accounts[ledger.accounts.length + place]? = some task := by
    intro place task hplace
    obtain ⟨same, hsame, rfl⟩ := (hmay.grows.trans hlater).account
      (show (Triple.openEach ledger tasks).accounts[ledger.accounts.length + place]? = some task by
        rw [Triple.openEach, List.getElem?_append_right (Nat.le_add_right _ _),
          Nat.add_sub_cancel_left, hplace])
    exact hsame
  have hending : ∀ {γ : Type} [Parceled γ] {post : Except Error γ → Prop} (place : Nat),
      tasks[place]? = some (.to post none rank) → ∀ ending,
        (concord inv).Admits later (ledger.accounts.length + place) ending →
          ∃ outcome, ending = outcome.map Parceled.pack ∧ post outcome := by
    rintro γ _ post place hplace ending ⟨account, hfound, hpromise⟩
    obtain rfl := Option.some.inj ((haccount place _ hplace).symm.trans hfound)
    exact hpromise
  cases hadmits with
  | @cons _ left _ _ hleft hrest =>
      cases hrest with
      | @cons _ right _ _ hright hnil =>
          cases hnil
          refine hnext _ later scene ⟨Ensures.both_paired (fun ending hknown => ?_)
            (fun ending hknown => ?_) henough, hlast⟩
          · exact hending 0 rfl ending (hleft ending hknown)
          · exact hending 1 rfl ending (hright ending hknown)

/-- A step that is made first of all. -/
theorem begins (h : Comes inv rank step post) :
    Triple (concord inv) 0 (Begins (concord inv) 0 (.to post none rank)) step
      (MayEnd (concord inv) 0) := by
  refine (h 0 (.to post none rank) (Nat.le_refl rank)).imp ?_ ?_
  · rintro ledger world ⟨before, rfl, _, hat⟩
    exact ⟨hat.account, hat.holds⟩
  · rintro result ledger world ⟨hresult, hat⟩
    exact ⟨_, Ledger.mayEnter_self hat.account, ⟨result, rfl, hresult⟩,
      (Ledger.enter_self hat.account).symm ▸ hat.holds⟩

/-- What a run comes to: unless it comes to a stop before, and then something is still due. -/
theorem run (h : Comes inv rank step post) {world : σ} (hinv : inv [.to post none rank] world) :
    (post (Eval.run world step).1 ∨ (Eval.run world step).1 = .error .stalled ∧
        ((Loop.start world step.strand).run turnLimit).queue ≠ []) ∧
      ∃ tasks, inv tasks (Eval.run world step).2 := by
  have hstart : (concord inv).holds ⟨[.to post none rank], 0⟩ world := hinv
  obtain ⟨ledger, hholds, hends⟩ := h.begins.exists_settled hstart
  refine ⟨?_, ledger.accounts, hholds⟩
  rcases hends with ⟨hnone, hstalled⟩ | ⟨_, ending, _, rfl, ⟨result, rfl, hresult⟩, heq⟩
  · refine .inr ⟨hstalled, fun hqueue => ?_⟩
    obtain ⟨ending, hending⟩ := h.begins.exists_ending hstart (ENat.natCast_ne_top rank) hqueue
    cases hnone.symm.trans hending
  · rw [heq, received_pack]
    exact .inl hresult

/-- An ending of the step is as it promises. -/
theorem of_outcome? (h : Comes inv rank step post) {world : σ}
    (hinv : inv [.to post none rank] world) {turns : Nat} {ending : Ending}
    (houtcome : ((Loop.start world step.strand).run turns).outcome? 0 = some ending) :
    ∃ result, ending = result.map Parceled.pack ∧ post result := by
  have hstart : (concord inv).holds ⟨[.to post none rank], 0⟩ world := hinv
  obtain ⟨ledger, hgrows, hbalanced, _⟩ := (Loop.balanced_start h.begins.starts).run hstart turns
  obtain ⟨task, htask, hpromise⟩ := hbalanced.outcome 0 ending houtcome
  obtain ⟨same, hsame, rfl⟩ := hgrows.account
    (show (⟨[.to post none rank], 0⟩ : Ledger Task).accounts[0]? = some (.to post none rank)
      from rfl)
  obtain rfl := Option.some.inj (htask.symm.trans hsame)
  exact hpromise

/-- Whatever a step yields is as it promises. -/
theorem post_of_yields (h : Comes inv rank step post) {world : σ}
    (hinv : inv [.to post none rank] world) {result : Except Error α}
    (hyields : Yields world step result) : post result := by
  obtain ⟨turns, hturns⟩ := hyields
  obtain ⟨found, hfound, hpost⟩ := h.of_outcome? hinv hturns
  rwa [pack_injective hfound]

/-- A step yields something in the end. -/
theorem exists_yields (h : Comes inv rank step post) {world : σ}
    (hinv : inv [.to post none rank] world) : ∃ result, Yields world step result ∧ post result := by
  obtain ⟨turns, hqueue⟩ := Loop.exists_run_queue_nil (Loop.start world step.strand)
  have hstart : (concord inv).holds ⟨[.to post none rank], 0⟩ world := hinv
  obtain ⟨ending, hending⟩ := h.begins.exists_ending hstart (ENat.natCast_ne_top rank) hqueue
  obtain ⟨result, rfl, hpost⟩ := h.of_outcome? hinv hending
  exact ⟨result, ⟨turns, hending⟩, hpost⟩

/-- A step that comes to one thing only yields that, and nothing else. -/
theorem yields_iff {found outcome : Except Error α} (h : Comes inv rank step (· = found)) {world : σ}
    (hinv : inv [.to (· = found) none rank] world) :
    Yields world step outcome ↔ outcome = found := by
  obtain ⟨_, hyields, rfl⟩ := h.exists_yields hinv
  refine ⟨fun houtcome => h.post_of_yields hinv houtcome, ?_⟩
  rintro rfl
  exact hyields

end Comes

/-! ### Steps that wait for nobody else -/

/-- A step that changes the world only as is allowed, with whatever it starts, and that waits only for
what it starts itself, no further than its rank tells. -/
inductive Calm (changes : σ → σ → Prop) : Nat → {α : Type} → Eval σ α → Prop where
  | outcome {rank : Nat} {α : Type} (result : Except Error α) :
      Calm changes rank (Eval.outcome result)
  | bind {rank : Nat} {α β : Type} {step : Eval σ α} {rest : α → Eval σ β} :
      Calm changes rank step → (∀ a, Calm changes rank (rest a)) → Calm changes rank (step >>= rest)
  | attempt {rank : Nat} {α : Type} {step : Eval σ α} :
      Calm changes rank step → Calm changes rank step.attempt
  | get_bind {rank : Nat} {α : Type} {rest : σ → Eval σ α} :
      (∀ seen, Calm changes rank (rest seen)) → Calm changes rank (MonadState.get >>= rest)
  | modify {rank : Nat} {change : σ → σ} :
      (∀ world, changes world (change world)) → Calm changes rank (modify change)
  | pause {rank : Nat} : Calm changes rank Eval.pause
  | spawn {rank other : Nat} {α : Type} [Parceled α] {step : Eval σ α} {change : Ending → σ → σ} :
      Calm changes other step → (∀ ending world, changes world (change ending world)) →
        Calm changes rank (Eval.spawn step change)
  | each {rank : Nat} {α : Type} [Parceled α] {steps : List (Eval σ α)} :
      (∀ step ∈ steps, Calm changes rank step) → Calm changes (rank + 1) (Eval.each steps)
  | both {rank : Nat} {α β : Type} [Parceled α] [Parceled β] {first : Eval σ α}
      {second : Eval σ β} :
      Calm changes rank first → Calm changes rank second →
        Calm changes (rank + 1) (Eval.both first second)

/-- A step that waits for nobody else keeps what its changes keep. -/
theorem Calm.comes {changes : σ → σ → Prop} {step : Eval σ α} (h : Calm changes rank step)
    (hopen : Open inv)
    (hchange : ∀ tasks world now, changes world now → inv tasks world → inv tasks now) :
    Comes inv rank step fun _ => True := by
  induction h with
  | outcome result => exact .outcome trivial
  | bind _ _ ih ihRest => exact ih.bind (fun a _ => ihRest a) fun _ _ => trivial
  | attempt _ ih => exact ih.attempt.imp fun _ _ => trivial
  | get_bind _ ih => exact Comes.get_bind fun _ seen _ => ih seen
  | modify hmodify =>
      exact (Comes.modify fun tasks world => hchange tasks world _ (hmodify world)).imp
        fun _ _ => trivial
  | pause => exact Comes.pause.imp fun _ _ => trivial
  | spawn _ hspawn ih =>
      exact (ih.spawn hopen fun ending tasks world =>
        hchange tasks world _ (hspawn ending world)).imp fun _ _ => trivial
  | @each _ _ _ steps _ ih =>
      have heach : Comes inv _ (Eval.each (steps.map id)) _ := Comes.each hopen ih
      rw [List.map_id] at heach
      exact heach.imp fun _ _ => trivial
  | both _ _ ih ihOther => exact (ih.both hopen ihOther).imp fun _ _ => trivial

end Rulebook.Eval
