import Rulebook.Proofs.Ensures
import Rulebook.Proofs.Strand.Mirrors

/-!
Steps that are mirrored.

A step is mirrored in another one if what it leaves to be done is, whatever is done after it.  There
is one rule for each way to make a step from others, and one for what is done aside.
-/

namespace Rulebook

open Strand

variable {σ τ ρ α β : Type}

/-- Strands that are started one after the other, and what goes on with their numbers. -/
theorem Strand.Mirrors.spawnEach {mirror : Mirror σ τ ρ} {head : Bool}
    {children : List (Strand σ ρ)} {children' : List (Strand τ ρ)}
    (hchildren : List.Forall₂ (Strand.Mirrors mirror false) children children')
    {next : List Nat → Strand σ ρ} {next' : List Nat → Strand τ ρ}
    (hnext : ∀ numbers, (∀ number ∈ numbers, number ≠ 0) → numbers.length = children'.length →
      Strand.Mirrors mirror head (next (numbers.map (· + mirror.shift))) (next' numbers)) :
    Strand.Mirrors mirror head (Strand.spawnEach children next)
      (Strand.spawnEach children' next') := by
  induction hchildren generalizing next next' with
  | nil => exact hnext [] (List.forall_mem_nil _) rfl
  | cons hchild _ ih =>
      refine .spawn hchild fun number hnumber => ih fun numbers hnumbers hlength => ?_
      exact hnext (number :: numbers) (List.forall_mem_cons.2 ⟨hnumber, hnumbers⟩)
        (congrArg (· + 1) hlength)

namespace Eval

variable {mirror : Mirror σ τ Ending}

/-- A step that does the same as its image, keeps the worlds related, and comes to the same. -/
def Mirrors (mirror : Mirror σ τ Ending) (step : Eval σ α) (step' : Eval τ α) : Prop :=
  ∀ head next next', (∀ result, Strand.Mirrors mirror head (next result) (next' result)) →
    Strand.Mirrors mirror head (step next) (step' next')

namespace Mirrors

variable {step : Eval σ α} {step' : Eval τ α}

theorem outcome (result : Except Error α) :
    Mirrors mirror (Eval.outcome result) (Eval.outcome result) :=
  fun _ _ _ hnext => hnext result

theorem bind {rest : α → Eval σ β} {rest' : α → Eval τ β} (h : Mirrors mirror step step')
    (hrest : ∀ a, Mirrors mirror (rest a) (rest' a)) :
    Mirrors mirror (step >>= rest) (step' >>= rest') := by
  intro head next next' hnext
  apply h
  intro result
  cases result with
  | ok a => exact hrest a head next next' hnext
  | error e => exact hnext (.error e)

theorem attempt (h : Mirrors mirror step step') : Mirrors mirror step.attempt step'.attempt :=
  fun _ _ _ hnext => h _ _ _ fun result => hnext (.ok result)

/-- Steps that look at the world first. -/
theorem get_bind {rest : σ → Eval σ α} {rest' : τ → Eval τ α}
    (hrest : ∀ world world', mirror.related world world' →
      Mirrors mirror (rest world) (rest' world')) :
    Mirrors mirror (MonadState.get >>= rest) (MonadState.get >>= rest') :=
  fun _ _ _ hnext => .read fun world world' hworld => hrest world world' hworld _ _ _ hnext

/-- A change that leaves the image as it is, before a step. -/
theorem aside {change : σ → σ} (hkeeps : ∀ world world', mirror.related world world' →
    mirror.related (change world) world') (h : Mirrors mirror step step') :
    Mirrors mirror (do modify change; step) step' :=
  fun _ _ _ hnext => .aside hkeeps (h _ _ _ hnext)

theorem modify {change : σ → σ} {change' : τ → τ}
    (h : ∀ world world', mirror.related world world' →
      mirror.related (change world) (change' world')) :
    Mirrors mirror (modify change : Eval σ Unit) (modify change') :=
  fun _ _ _ hnext => .read fun world world' hworld => .write (h world world' hworld) (hnext (.ok ()))

theorem pause : Mirrors mirror (Eval.pause : Eval σ Unit) Eval.pause :=
  fun _ _ _ hnext => .pause (hnext (.ok ()))

variable [Parceled α]

theorem strand (h : Mirrors mirror step step') :
    Strand.Mirrors mirror false step.strand step'.strand :=
  h _ _ _ fun _ => .done _

/-- A step comes to the same as its image, if the heads do and no strand can get lost. -/
theorem yields_iff (h : Mirrors mirror step step') (hshift : mirror.shift = 0)
    (htips : mirror.tips = Eq) (hlost : ∀ strand rest, ¬ mirror.lost strand rest) {world : σ}
    {world' : τ} (hworld : mirror.related world world') {result : Except Error α} :
    Yields world step result ↔ Yields world' step' result := by
  have hhead : Strand.Mirrors mirror true step.strand step'.strand :=
    h _ _ _ fun _ => .tip (htips ▸ rfl)
  refine exists_congr fun turns => ?_
  have hrun := (Loop.Mirrors.start hshift hworld hhead).run_beside hshift hlost
    (Loop.inTurn_start world step.strand) turns
  have htip := hrun.tip
  rw [hshift, htips] at htip
  have hsame : ((Loop.start world step.strand).run turns).outcome? 0 =
      ((Loop.start world' step'.strand).run turns).outcome? 0 := by
    generalize ((Loop.start world step.strand).run turns).outcome? 0 = outcome,
      ((Loop.start world' step'.strand).run turns).outcome? 0 = outcome' at htip
    cases htip with
    | none => rfl
    | some heq => rw [heq]
  rw [hsame]

/-- A step in a strand of its own, and what goes on with its number. -/
theorem spawn_bind (h : Mirrors mirror step step') {change : Ending → σ → σ}
    {change' : Ending → τ → τ}
    (hchange : ∀ ending world world', mirror.related world world' →
      mirror.related (change ending world) (change' ending world'))
    {rest : Nat → Eval σ β} {rest' : Nat → Eval τ β}
    (hrest : ∀ number, number ≠ 0 →
      Mirrors mirror (rest (number + mirror.shift)) (rest' number)) :
    Mirrors mirror (Eval.spawn step change >>= rest) (Eval.spawn step' change' >>= rest') :=
  fun _ _ _ hnext => .spawn h.strand fun number hnumber =>
    .watch rfl hnumber hchange (hrest number hnumber _ _ _ hnext)

theorem join {number : Nat} (hnumber : number ≠ 0) :
    Mirrors mirror (Eval.join (number + mirror.shift) : Eval σ α) (Eval.join number) :=
  fun _ _ _ hnext => .await rfl (List.forall_mem_singleton.2 hnumber) fun _ _ => hnext _

/-- What goes on when all that was started has come to an outcome; there are as many outcomes as
steps. -/
theorem each_bind {steps : List (Eval σ α)} {steps' : List (Eval τ α)}
    (h : List.Forall₂ (Mirrors mirror) steps steps') {head : Bool}
    {next : Except Error (List (Except Error α)) → Strand σ Ending}
    {next' : Except Error (List (Except Error α)) → Strand τ Ending}
    (hnext : ∀ outcomes : List (Except Error α), outcomes.length = steps'.length →
      Strand.Mirrors mirror head (next (.ok outcomes)) (next' (.ok outcomes))) :
    Strand.Mirrors mirror head (Eval.each steps next) (Eval.each steps' next') := by
  have hstrands : List.Forall₂ (Strand.Mirrors mirror false) (steps.map Eval.strand)
      (steps'.map Eval.strand) := by
    rw [List.forall₂_map_left_iff, List.forall₂_map_right_iff]
    exact h.imp fun _ _ hstep => hstep.strand
  refine Strand.Mirrors.spawnEach hstrands fun numbers hnumbers hlength => ?_
  refine .await rfl hnumbers fun known hknown => hnext _ ?_
  rw [List.length_map, hknown, hlength, List.length_map]

theorem each {steps : List (Eval σ α)} {steps' : List (Eval τ α)}
    (h : List.Forall₂ (Mirrors mirror) steps steps') :
    Mirrors mirror (Eval.each steps) (Eval.each steps') :=
  fun _ _ _ hnext => each_bind h fun _ _ => hnext _

theorem both [Parceled β] {other : Eval σ β} {other' : Eval τ β} (h : Mirrors mirror step step')
    (hother : Mirrors mirror other other') :
    Mirrors mirror (Eval.both step other) (Eval.both step' other') :=
  fun _ _ _ hnext => Strand.Mirrors.spawnEach (.cons h.strand (.cons hother.strand .nil))
    fun _ hnumbers _ => .await rfl hnumbers fun _ _ => hnext _

end Mirrors

end Eval

end Rulebook
