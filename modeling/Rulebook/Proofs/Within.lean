import Rulebook.Proofs.Triple

/-!
Steps that change the world in some ways only.

`Within changes step` says so of a step, with whatever it starts; it does not matter in which order
things happen.  A charter that holds on through such changes need not know of such a step: no
account has to tell of it (`Within.triple`).
-/

namespace Rulebook.Eval

open Strand

variable {σ α β Λ : Type} [Preorder Λ] {charter : Charter σ Ending Λ} {own : Nat}

/-- A step that changes the world only as is allowed, with whatever it starts. -/
inductive Within (changes : σ → σ → Prop) : {α : Type} → Eval σ α → Prop where
  | outcome {α : Type} (result : Except Error α) : Within changes (Eval.outcome result)
  | bind {α β : Type} {step : Eval σ α} {rest : α → Eval σ β} :
      Within changes step → (∀ a, Within changes (rest a)) → Within changes (step >>= rest)
  | attempt {α : Type} {step : Eval σ α} : Within changes step → Within changes step.attempt
  | get_bind {α : Type} {rest : σ → Eval σ α} :
      (∀ seen, Within changes (rest seen)) → Within changes (MonadState.get >>= rest)
  | modify {change : σ → σ} :
      (∀ world, changes world (change world)) → Within changes (modify change)
  /-- The world may be changed according to how it was seen in the same turn. -/
  | revise {α : Type} {change : σ → σ → σ} {rest : σ → Eval σ α} :
      (∀ world, changes world (change world world)) → (∀ seen, Within changes (rest seen)) →
        Within changes (MonadState.get >>= fun seen =>
          MonadState.modifyGet (fun world => ((), change seen world)) >>= fun _ => rest seen)
  | pause : Within changes Eval.pause
  | spawn {α : Type} [Parceled α] {step : Eval σ α} {change : Ending → σ → σ} :
      Within changes step → (∀ ending world, changes world (change ending world)) →
        Within changes (Eval.spawn step change)
  | join {α : Type} [Parceled α] (number : Nat) :
      Within changes (Eval.join number : Eval σ α)
  | each {α : Type} [Parceled α] {steps : List (Eval σ α)} :
      (∀ step ∈ steps, Within changes step) → Within changes (Eval.each steps)
  | both {α β : Type} [Parceled α] [Parceled β] {first : Eval σ α} {second : Eval σ β} :
      Within changes first → Within changes second → Within changes (Eval.both first second)

/-- An account that tells of nothing, given that the world changes in some ways only. -/
structure Idle (charter : Charter σ Ending Λ) (changes : σ → σ → Prop) (idle : Λ) : Prop where
  settles : ∀ ending, charter.settles idle ending
  openFor : ∀ ledger world, charter.holds ledger world → charter.holds (ledger.openFor idle) world
  begin : ∀ ledger world, ledger.accounts[ledger.begun]? = some idle → charter.holds ledger world →
    charter.holds ledger.begin world
  change : ∀ ledger world now, changes world now → charter.holds ledger world →
    charter.holds ledger now

namespace Idle

variable {changes : σ → σ → Prop} {idle a : Λ}

theorem at_openFor (h : Idle charter changes idle) {ledger : Ledger Λ} {world : σ}
    (hat : At charter own a ledger world) : At charter own a (ledger.openFor idle) world :=
  ⟨(List.getElem?_append_left (List.getElem?_eq_some_iff.1 hat.account).1).trans hat.account,
    h.openFor ledger world hat.holds⟩

theorem at_openEach (h : Idle charter changes idle) {ledger : Ledger Λ} {world : σ}
    (hat : At charter own a ledger world) (n : Nat) :
    At charter own a (Triple.openEach ledger (List.replicate n idle)) world := by
  induction n generalizing ledger with
  | zero => simpa [Triple.openEach] using hat
  | succ n ih =>
      have hrest := ih (h.at_openFor hat)
      simpa [Triple.openEach, Ledger.openFor, List.replicate_succ] using hrest

theorem mayEnter_openEach (h : Idle charter changes idle) {ledger : Ledger Λ} {world : σ}
    (hat : At charter own a ledger world) (n : Nat) :
    (Triple.openEach ledger (List.replicate n idle)).MayEnter own a ∧
      charter.holds ((Triple.openEach ledger (List.replicate n idle)).enter own a) world := by
  have hopen := h.at_openEach hat n
  exact ⟨Ledger.mayEnter_self hopen.account,
    (Ledger.enter_self hopen.account).symm ▸ hopen.holds⟩

/-- A strand with an account that tells of nothing makes a step. -/
theorem starts [Parceled α] (h : Idle charter changes idle) {step : Eval σ α}
    (hstep : ∀ number, Triple charter number (At charter number idle) step fun _ =>
      At charter number idle) (number : Nat) :
    charter.Starts (charter.Honours step.strand number) number idle := by
  apply Triple.starts
  refine (hstep number).imp ?_ ?_
  · rintro ledger world ⟨before, rfl, hbegun, hat⟩
    exact ⟨hat.account, h.begin before world (hbegun ▸ hat.account) hat.holds⟩
  · intro result ledger world hat
    exact ⟨idle, Ledger.mayEnter_self hat.account, h.settles _,
      (Ledger.enter_self hat.account).symm ▸ hat.holds⟩

end Idle

/-- A step that changes the world in some ways only, from account to account. -/
theorem Within.triple [charter.Unranked] {changes : σ → σ → Prop} {idle : Λ} {step : Eval σ α}
    (h : Within changes step) (hidle : Idle charter changes idle) (own : Nat) (a : Λ) :
    Triple charter own (At charter own a) step fun _ => At charter own a := by
  induction h generalizing own a with
  | outcome result => exact .outcome fun _ _ hat => hat
  | bind _ _ ih ihRest => exact (ih own a).bind (fun b => ihRest b own a) fun _ _ _ hat => hat
  | attempt _ ih => exact (ih own a).attempt.imp (fun _ _ hat => hat) fun _ _ _ ⟨_, _, hat⟩ => hat
  | get_bind _ ih =>
      exact .get_bind fun seen => (ih seen own a).imp (fun _ _ hat => hat.2) fun _ _ _ hat => hat
  | modify hchange =>
      exact Triple.modify.imp (fun ledger world hat =>
        ⟨hat.account, hidle.change ledger world _ (hchange world) hat.holds⟩) fun _ _ _ hat => hat
  | revise hchange _ ih =>
      intro next hnext ledger world hat
      exact ih world own a next hnext ledger _
        ⟨hat.account, hidle.change ledger world _ (hchange world) hat.holds⟩
  | pause => exact .pause
  | spawn _ hchange ih =>
      exact .spawn (hidle.starts (fun number => ih number idle))
        (fun ending ledger world => hidle.change ledger world _ (hchange ending world))
        fun _ _ hat => hidle.at_openFor hat
  | join number => exact .join number
  | @each α _ steps _ ih =>
      have heach : Triple charter own (At charter own a) (Eval.each (steps.map id)) _ :=
        Triple.each (a := a) (fun _ => idle)
        (fun step hstep => hidle.starts fun number => ih step hstep number idle)
        (fun ledger world hat => by
          rw [List.map_const']
          exact hidle.mayEnter_openEach hat steps.length)
      rw [List.map_id] at heach
      exact heach.imp (fun _ _ hat => hat) fun _ _ _ hat => hat.1
  | both _ _ ih ihOther =>
      exact .both (hidle.starts fun number => ih number idle)
        (hidle.starts fun number => ihOther number idle)
        fun _ _ hat => hidle.mayEnter_openEach hat 2

/-- A step that changes the world in some ways only does so in more ways. -/
theorem Within.mono {changes weaker : σ → σ → Prop} {step : Eval σ α} (h : Within changes step)
    (hle : ∀ world now, changes world now → weaker world now) : Within weaker step := by
  induction h with
  | outcome result => exact .outcome result
  | bind _ _ ih ihRest => exact .bind ih ihRest
  | attempt _ ih => exact .attempt ih
  | get_bind _ ih => exact .get_bind ih
  | modify hchange => exact .modify fun world => hle _ _ (hchange world)
  | revise hchange _ ih => exact .revise (fun world => hle _ _ (hchange world)) ih
  | pause => exact .pause
  | spawn _ hchange ih => exact .spawn ih fun ending world => hle _ _ (hchange ending world)
  | join number => exact .join number
  | each _ ih => exact .each ih
  | both _ _ ih ihOther => exact .both ih ihOther

/-! ### Steps that do not fail -/

/-- A step that never fails: it does not matter what would be done after a failure. -/
def Unfailing (step : Eval σ α) : Prop :=
  ∀ next other : Except Error α → Strand σ Ending, (∀ a, next (.ok a) = other (.ok a)) →
    step next = step other

/-- A strand that waits for good. -/
def halted : Strand σ Ending := .await [] (fun _ => false) fun _ => .done (.error .stalled)

theorem At.honours_halted [charter.Unranked] {a : Λ} {ledger : Ledger Λ} {world : σ}
    (hat : At charter own a ledger world) : charter.Honours halted own ledger world :=
  ⟨a, Ledger.mayEnter_self hat.account, (Ledger.enter_self hat.account).symm ▸ hat.holds,
    .inl (Charter.Unranked.rank a), fun _ henough => nomatch henough⟩

/-- A step that never fails yields something whenever it is through. -/
theorem Triple.of_unfailing [charter.Unranked] {step : Eval σ α} {a : Λ} (hstep : step.Unfailing)
    (h : Triple charter own (At charter own a) step fun _ => At charter own a) :
    Triple charter own (At charter own a) step fun result ledger world =>
      (∃ b, result = .ok b) ∧ At charter own a ledger world := by
  intro next hnext ledger world hat
  let other : Except Error α → Strand σ Ending := fun result =>
    result.toOption.elim halted fun b => next (.ok b)
  rw [hstep next other fun _ => rfl]
  refine h other (fun result ledger world hat => ?_) ledger world hat
  cases result with
  | ok b => exact hnext (.ok b) ledger world ⟨⟨b, rfl⟩, hat⟩
  | error e => exact hat.honours_halted

end Rulebook.Eval
