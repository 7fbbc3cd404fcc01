import Rulebook.Strand.Basic

/-!
The loop that gives strands their turns.

There is one queue, and what comes first in it happens first: a strand has its turn, or an outcome
is heard of.  What follows from it is put at the end of the queue.  So an outcome is heard of after
everything that was due when the strand came to it, and a strand that waited for it goes on after
everything that was due when it was heard of.  Whoever waits for outcomes that are there already
goes on at once.
-/

namespace Rulebook.Strand

variable {σ ρ : Type}

/-- Who hears of an outcome: the world, or a place in a wait. -/
inductive Hearer (σ ρ : Type) where
  | world (change : ρ → σ → σ)
  | wait (number place : Nat)

/-- A strand that waits, the strands it waits for, the outcomes of them that it knows, and how it
goes on. -/
structure Wait (σ ρ : Type) where
  strand : Nat
  strands : List Nat
  known : List (Option ρ)
  enough : List (Option ρ) → Bool
  next : List (Option ρ) → Strand σ ρ

/-- The outcome of a strand, or who is to hear of it. -/
structure Record (σ ρ : Type) where
  outcome : Option ρ
  hearers : List (Hearer σ ρ)

/-- What is due. -/
inductive Event (σ ρ : Type) where
  | turn (strand : Nat) (rest : Strand σ ρ)
  | news (hearer : Hearer σ ρ) (outcome : ρ)

/-- The world, what is due in it, the strands by number, and the waits that are not over. -/
structure Loop (σ ρ : Type) where
  world : σ
  queue : List (Event σ ρ)
  records : List (Record σ ρ)
  waits : List (Option (Wait σ ρ))

namespace Loop

/-- A world with a single strand, which has number zero. -/
def start (world : σ) (strand : Strand σ ρ) : Loop σ ρ where
  world := world
  queue := [.turn 0 strand]
  records := [⟨none, []⟩]
  waits := []

/-- The outcome of a strand. -/
def outcome? (loop : Loop σ ρ) (strand : Nat) : Option ρ :=
  loop.records[strand]?.bind Record.outcome

/-- Put something at the end of the queue. -/
def enqueue (loop : Loop σ ρ) (events : List (Event σ ρ)) : Loop σ ρ :=
  { loop with queue := loop.queue ++ events }

/-- A strand has come to its outcome. -/
def finish (loop : Loop σ ρ) (strand : Nat) (outcome : ρ) : Loop σ ρ :=
  let hearers := (loop.records[strand]?.map Record.hearers).getD []
  { loop with
    queue := loop.queue ++ hearers.map fun hearer => .news hearer outcome
    records := loop.records.set strand ⟨some outcome, []⟩ }

/-- Start a strand. -/
def add (loop : Loop σ ρ) (child : Strand σ ρ) : Loop σ ρ :=
  { loop with
    queue := loop.queue ++ [.turn loop.records.length child]
    records := loop.records ++ [⟨none, []⟩] }

/-- Let someone hear of the outcome of a strand, after those who are to hear of it already. -/
def listen (loop : Loop σ ρ) (strand : Nat) (hearer : Hearer σ ρ) : Loop σ ρ :=
  match loop.records[strand]? with
  | none => loop
  | some ⟨some outcome, _⟩ => loop.enqueue [.news hearer outcome]
  | some ⟨none, hearers⟩ =>
      { loop with records := loop.records.set strand ⟨none, hearers ++ [hearer]⟩ }

/-- Let a wait hear of the outcomes of strands, of those at least that are still to come. -/
def listenEach (number : Nat) : List (Nat × Nat) → Loop σ ρ → Loop σ ρ
  | [], loop => loop
  | (strand, place) :: rest, loop =>
      listenEach number rest <|
        match loop.outcome? strand with
        | some _ => loop
        | none => loop.listen strand (.wait number place)

/-- A strand waits. -/
def suspend (loop : Loop σ ρ) (wait : Wait σ ρ) : Loop σ ρ :=
  listenEach loop.waits.length wait.strands.zipIdx
    { loop with waits := loop.waits ++ [some wait] }

/-- Give a strand its turn. -/
def follow (number : Nat) : Strand σ ρ → Loop σ ρ → Loop σ ρ
  | .done outcome, loop => loop.finish number outcome
  | .read next, loop => follow number (next loop.world) loop
  | .write world next, loop => follow number next { loop with world }
  | .pause next, loop => loop.enqueue [.turn number next]
  | .spawn child next, loop => follow number (next loop.records.length) (loop.add child)
  | .watch strand change next, loop =>
      follow number next (loop.listen strand (.world change))
  | .await strands enough next, loop =>
      let known := strands.map loop.outcome?
      if enough known then follow number (next known) loop
      else loop.suspend ⟨number, strands, known, enough, next⟩

/-- Someone hears of an outcome.  A wait is over as soon as enough is known; what is heard of later
is of no interest to it. -/
def hear (hearer : Hearer σ ρ) (outcome : ρ) (loop : Loop σ ρ) : Loop σ ρ :=
  match hearer with
  | .world change => { loop with world := change outcome loop.world }
  | .wait number place =>
      match loop.waits[number]? with
      | some (some wait) =>
          let known := wait.known.set place (some outcome)
          if wait.enough known then
            { loop with
              queue := loop.queue ++ [.turn wait.strand (wait.next known)]
              waits := loop.waits.set number none }
          else { loop with waits := loop.waits.set number (some { wait with known }) }
      | _ => loop

/-- Let happen what is due first, if anything is. -/
def step (loop : Loop σ ρ) : Option (Loop σ ρ) :=
  match loop.queue with
  | [] => none
  | .turn number rest :: queue => some (follow number rest { loop with queue })
  | .news hearer outcome :: queue => some (hear hearer outcome { loop with queue })

/-- Let things happen until nothing is due, `turns` of them at most. -/
def run : (turns : Nat) → Loop σ ρ → Loop σ ρ
  | 0, loop => loop
  | turns + 1, loop =>
      match loop.step with
      | none => loop
      | some loop => run turns loop

/-! ### Small laws -/

theorem step_eq_none_iff (loop : Loop σ ρ) : loop.step = none ↔ loop.queue = [] := by
  unfold step
  split <;> simp_all

/-- Nothing happens when nothing is due. -/
theorem run_of_queue_nil {loop : Loop σ ρ} (h : loop.queue = []) (turns : Nat) :
    run turns loop = loop := by
  cases turns with
  | zero => rfl
  | succ turns => rw [run, (step_eq_none_iff loop).2 h]

/-- Running on from where a run stopped. -/
theorem run_add (first second : Nat) (loop : Loop σ ρ) :
    run (first + second) loop = run second (run first loop) := by
  induction first generalizing loop with
  | zero => simp [run]
  | succ first ih =>
      rw [Nat.succ_add, run, run]
      cases h : loop.step with
      | none => exact (run_of_queue_nil ((step_eq_none_iff loop).1 h) second).symm
      | some next => exact ih next

/-- A loop in which nothing is due any more is where every longer run ends. -/
theorem run_eq_of_queue_nil {first last : Nat} (hle : first ≤ last) {loop : Loop σ ρ}
    (h : (run first loop).queue = []) : run last loop = run first loop := by
  obtain ⟨extra, rfl⟩ := Nat.exists_eq_add_of_le hle
  rw [run_add, run_of_queue_nil h]

/-- All runs after which nothing is due end alike. -/
theorem run_eq_run_of_queue_nil {first second : Nat} {loop : Loop σ ρ}
    (hfirst : (run first loop).queue = []) (hsecond : (run second loop).queue = []) :
    run first loop = run second loop := by
  rcases Nat.le_total first second with hle | hle
  · exact (run_eq_of_queue_nil hle hfirst).symm
  · exact run_eq_of_queue_nil hle hsecond

end Loop

end Rulebook.Strand
