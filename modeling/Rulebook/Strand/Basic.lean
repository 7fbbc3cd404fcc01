/-!
Strands of work that take turns.

A strand reads and writes a world that it shares with the others.  While it has its turn no other
strand does anything; it gives its turn back when it pauses, when it waits for other strands, and
when it has come to its outcome.  Strands are known by the numbers in which order they were spawned.
-/

namespace Rulebook

/-- What is left to do of a strand, in a world `σ`, for an outcome in `ρ`. -/
inductive Strand (σ ρ : Type) where
  /-- The strand has come to its outcome. -/
  | done (outcome : ρ)
  /-- Look at the world. -/
  | read (next : σ → Strand σ ρ)
  /-- Put another world in place of the present one. -/
  | write (world : σ) (next : Strand σ ρ)
  /-- Let those have a turn that are due by now. -/
  | pause (next : Strand σ ρ)
  /-- Start another strand; it has its first turn after those that are due by now. -/
  | spawn (child : Strand σ ρ) (next : Nat → Strand σ ρ)
  /-- Let the outcome of a strand change the world, some time after it came to it. -/
  | watch (strand : Nat) (change : ρ → σ → σ) (next : Strand σ ρ)
  /-- Wait until enough outcomes of some strands are known; they are given in the order of the
  strands. -/
  | await (strands : List Nat) (enough : List (Option ρ) → Bool)
      (next : List (Option ρ) → Strand σ ρ)

/-- Start strands one after the other, and go on with their numbers. -/
def Strand.spawnEach {σ ρ : Type} :
    List (Strand σ ρ) → (List Nat → Strand σ ρ) → Strand σ ρ
  | [], next => next []
  | child :: rest, next =>
      .spawn child fun number => spawnEach rest fun numbers => next (number :: numbers)

end Rulebook
