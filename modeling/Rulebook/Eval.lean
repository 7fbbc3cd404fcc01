import Rulebook.Rule.Basic
import Rulebook.Strand.Loop

/-!
Steps of evaluation.

A step is made in a world; it yields something or fails, and what was done until then stays done.
A step may let others go first, and it may have other steps made side by side, each of them in a
strand of its own.
-/

namespace Rulebook

/-- What a strand hands over when its step does not fail. -/
inductive Parcel where
  | nothing
  | value (value : Value)
  | result (result : ConditionResult)
  | rule (result : RuleResult)

/-- What can be handed over in a parcel. -/
class Parceled (α : Type) where
  pack : α → Parcel
  unpack? : Parcel → Option α
  unpack?_pack : ∀ a, unpack? (pack a) = some a

instance : Parceled Unit where
  pack _ := .nothing
  unpack? _ := some ()
  unpack?_pack _ := rfl

instance : Parceled Value where
  pack := .value
  unpack?
    | .value value => some value
    | _ => none
  unpack?_pack _ := rfl

instance : Parceled ConditionResult where
  pack := .result
  unpack?
    | .result result => some result
    | _ => none
  unpack?_pack _ := rfl

instance : Parceled RuleResult where
  pack := .rule
  unpack?
    | .rule result => some result
    | _ => none
  unpack?_pack _ := rfl

/-- How a strand ends. -/
abbrev Ending := Except Error Parcel

/-- A step in a world `σ` that yields an `α`: what is left to do, once it is known what is to be
done after it. -/
def Eval (σ α : Type) : Type := (Except Error α → Strand σ Ending) → Strand σ Ending

namespace Eval

variable {σ α β : Type}

/-- An outcome as a step. -/
def outcome (result : Except Error α) : Eval σ α := fun next => next result

/-- Go on after a step that did not fail. -/
def andThen (step : Eval σ α) (rest : α → Eval σ β) : Eval σ β := fun next =>
  step fun
    | .ok a => rest a next
    | .error e => next (.error e)

/-- Take a step whose failure is an outcome like any other. -/
def attempt (step : Eval σ α) : Eval σ (Except Error α) := fun next =>
  step fun result => next (.ok result)

instance : Monad (Eval σ) where
  pure a := outcome (.ok a)
  bind := andThen

instance : MonadExceptOf Error (Eval σ) where
  throw e := outcome (.error e)
  tryCatch step handler := fun next =>
    step fun
      | .ok a => next (.ok a)
      | .error e => handler e next

instance : MonadStateOf σ (Eval σ) where
  get := fun next => .read fun world => next (.ok world)
  set world := fun next => .write world (next (.ok ()))
  modifyGet change := fun next => .read fun world =>
    let (a, world) := change world
    .write world (next (.ok a))

theorem andThen_outcome (step : Eval σ α) :
    step.andThen (fun a => outcome (.ok a)) = step := by
  funext next
  exact congrArg step (funext fun result => by cases result <;> rfl)

theorem andThen_andThen {γ : Type} (step : Eval σ α) (second : α → Eval σ β)
    (third : β → Eval σ γ) :
    (step.andThen second).andThen third = step.andThen fun a => (second a).andThen third := by
  funext next
  exact congrArg step (funext fun result => by cases result <;> rfl)

instance : LawfulMonad (Eval σ) :=
  LawfulMonad.mk' _ andThen_outcome (fun _ _ => rfl) andThen_andThen

/-- Let those have a turn that are due by now. -/
def pause : Eval σ Unit := fun next => .pause (next (.ok ()))

/-- A step as a strand. -/
def strand [Parceled α] (step : Eval σ α) : Strand σ Ending :=
  step fun result => .done (result.map Parceled.pack)

/-- What was handed over by a strand. -/
def received [Parceled α] : Option Ending → Except Error α
  | some (.ok parcel) =>
      match Parceled.unpack? parcel with
      | some a => .ok a
      | none => .error .stalled
  | some (.error e) => .error e
  | none => .error .stalled

theorem received_pack [Parceled α] (result : Except Error α) :
    received (some (result.map Parceled.pack)) = result := by
  cases result with
  | ok a => simp [received, Except.map, Parceled.unpack?_pack]
  | error e => rfl

/-- The error with which a strand ended. -/
def failure? : Option Ending → Option Error
  | some (.error e) => some e
  | _ => none

/-- Have a step made in a strand of its own, whose ending changes the world; yields the number of
the strand. -/
def spawn [Parceled α] (step : Eval σ α) (change : Ending → σ → σ) : Eval σ Nat := fun next =>
  .spawn step.strand fun number => .watch number change (next (.ok number))

/-- Wait for a strand. -/
def join [Parceled α] (number : Nat) : Eval σ α := fun next =>
  .await [number] (fun known => known.all Option.isSome) fun known =>
    next (received (known.head?.getD none))

/-- Have steps made side by side, and wait until each of them has an outcome. -/
def each [Parceled α] (steps : List (Eval σ α)) : Eval σ (List (Except Error α)) := fun next =>
  Strand.spawnEach (steps.map strand) fun numbers =>
    .await numbers (fun known => known.all Option.isSome) fun known =>
      next (.ok (known.map received))

/-- Two outcomes as one; the failure that is known comes first. -/
def paired [Parceled α] [Parceled β] (known : List (Option Ending)) : Except Error (α × β) :=
  match known.findSome? failure?, known with
  | some e, _ => .error e
  | none, [first, second] => do return (← received first, ← received second)
  | none, _ => .error .stalled

/-- Have two steps made side by side, and wait until one of them has failed or both have
succeeded. -/
def both [Parceled α] [Parceled β] (first : Eval σ α) (second : Eval σ β) : Eval σ (α × β) :=
  fun next =>
    Strand.spawnEach [first.strand, second.strand] fun numbers =>
      .await numbers
        (fun known => known.any (fun ending => (failure? ending).isSome) ||
          known.all Option.isSome)
        fun known => next (paired known)

/-- How many turns there are at most. -/
def turnLimit : Nat := 1000000000

/-- Make a step in a world, and whatever it has started: what the step yields, and the world
after all of it. -/
def run [Parceled α] (world : σ) (step : Eval σ α) : Except Error α × σ :=
  let loop := (Strand.Loop.start world step.strand).run turnLimit
  (received (loop.outcome? 0), loop.world)

end Eval

end Rulebook
