import Rulebook.Proofs.Engine.Handlers
import Rulebook.Proofs.Engine.Run
import Rulebook.Proofs.Operator.Builtin

/-!
Calls of `run` that overlap.

An engine may be run again before an earlier call has returned.  Every call has strands of its own
and a run of its own, and the calls take turns in any order; the engine is one for all of them.  If
the handlers keep to their runs, and no call returns while another one is in progress, every call is
after each of its turns where it would be after as many turns if it was the only one
(`Overlap.endOf_eq_alone`).  Where a handler changes the rules, or where a call returns first, the
calls do not come out as they would alone (`not_runsApart`).
-/

namespace Rulebook.Engine

open Eval Strand
open Registry (Remembers Outdated remembers_withDefaults)

variable {η : Type} {handling : Handling η} {engine later : Engine η}
  {entries : List RuntimeEntry} {reused : Option (Almanac × RunJournal)}
  {loop : Loop (Scene η) Ending}

/-! ### A call -/

/-- What a call of `run` starts with, unless its entries are refused. -/
def opening (handling : Handling η) (engine : Engine η) (entries : List RuntimeEntry)
    (reused : Option (Almanac × RunJournal)) : Option (Loop (Scene η) Ending) :=
  match (engine.almanacFor (reused.map (·.1))).addEntries entries with
  | (_, some _) => none
  | (almanac, none) =>
      some (Loop.start (firstScene engine almanac (journalBefore reused))
        (runGroups handling (stamped engine.runs 0 engine.prioritize.1)).strand)

/-- What a call returns, if nothing is due in it any more. -/
def endOf (loop : Loop (Scene η) Ending) : RunEnd η where
  run := loop.world.run
  failure := match (Eval.received (loop.outcome? 0) : Except Error Unit) with
    | .ok _ => none
    | .error e => some e
  started := true

/-- A call that is the only one has all the turns. -/
theorem run_of_opening (hopening : opening handling engine entries reused = some loop) :
    (engine.run handling entries reused).1 = endOf (loop.run turnLimit) := by
  unfold opening at hopening
  split at hopening
  · cases hopening
  · next almanac hentries =>
      obtain rfl := Option.some.inj hopening
      rw [run_started handling hentries]
      rfl

/-- What is given to a call is pure. -/
structure PureGiven (entries : List RuntimeEntry) (reused : Option (Almanac × RunJournal)) :
    Prop where
  entries : ∀ entry ∈ entries, entry.Pure
  reused : ∀ almanac journal, reused = some (almanac, journal) → almanac.Pure

theorem PureGiven.fresh (h : ∀ entry ∈ entries, entry.Pure) : PureGiven entries none where
  entries := h
  reused _ _ hnone := by cases hnone

theorem PureGiven.almanacFor (h : PureGiven entries reused)
    (hfacts : ∀ fact ∈ engine.facts.values, fact.Pure) :
    (engine.almanacFor (reused.map (·.1))).Pure := by
  cases reused with
  | none => exact hfacts
  | some given => exact (h.reused given.1 given.2 rfl).addMissing hfacts

/-- An engine with pure facts and handlers that keep to their runs. -/
structure Shareable (handling : Handling η) (engine : Engine η) : Prop where
  operators : Remembers Outdated engine.registry
  facts : ∀ fact ∈ engine.facts.values, fact.Pure
  handlers : Considerate handling engine

/-- A call starts on an engine that is as it was in the way it would have started then. -/
theorem Shareable.twins_opening (h : Shareable handling engine) (hkept : Kept engine later)
    (hgiven : PureGiven entries reused)
    (hopening : opening handling later entries reused = some loop) :
    ∃ alone, opening handling { engine with runs := later.runs } entries reused = some alone ∧
      loop.Twins (Alongside engine) alone := by
  unfold opening at hopening ⊢
  rw [hkept.almanacFor] at hopening
  rw [almanacFor_runs, prioritize_runs]
  have hpure := (hgiven.almanacFor h.facts).addEntries hgiven.entries
  cases hentries : (engine.almanacFor (reused.map (·.1))).addEntries entries with
  | mk almanac refused =>
      rw [hentries] at hopening hpure
      cases refused with
      | some e => cases hopening
      | none =>
          obtain rfl := Option.some.inj hopening
          rw [hkept.groups]
          refine ⟨_, rfl, .start ?_ (h.handlers.twins_runGroups _).strand⟩
          have hbefore : Kept engine { engine with runs := later.runs } :=
            (Kept.refl h.operators).inStage _ _
          exact ⟨hkept.prioritize.inStage _ _, hbefore.prioritize.inStage _ _, rfl, rfl, rfl, hpure⟩

/-! ### Calls that take turns -/

/-- A call: the number of its run, what was given to it, how many turns it had, and what is left to
be done. -/
structure Caller (η : Type) where
  number : Nat
  entries : List RuntimeEntry
  reused : Option (Almanac × RunJournal)
  turns : Nat
  loop : Loop (Scene η) Ending

namespace Caller

/-- Is nothing due any more? -/
def isOver (caller : Caller η) : Bool := caller.loop.queue.isEmpty

/-- The call has a turn on the engine, if anything is due. -/
def turn? (engine : Engine η) (caller : Caller η) : Option (Caller η) :=
  (Loop.step { caller.loop with world := { caller.loop.world with engine } }).map fun loop =>
    { caller with turns := caller.turns + 1, loop }

/-- The call stands where it would stand after as many turns if it was the only one. -/
def Follows (handling : Handling η) (engine : Engine η) (caller : Caller η) : Prop :=
  ∃ alone, opening handling { engine with runs := caller.number } caller.entries caller.reused =
    some alone ∧ caller.loop.Twins (Alongside engine) (alone.run caller.turns)

/-- A call that has a turn was not over. -/
theorem isOver_of_turn? {caller next : Caller η} (h : caller.turn? engine = some next) :
    caller.isOver = false := by
  rw [isOver, List.isEmpty_eq_false_iff]
  intro hidle
  have hnone : Loop.step { caller.loop with world := { caller.loop.world with engine } } = none :=
    (Loop.step_eq_none_iff _).2 hidle
  rw [turn?, hnone] at h
  cases h

end Caller

/-- An engine with the calls of `run` on it, in the order in which they were made. -/
structure Overlap (η : Type) where
  engine : Engine η
  callers : List (Caller η)

/-- What happens on an engine: a call is made, one of the calls has a turn, a call in which nothing
is due any more returns, or something else is done with the engine. -/
inductive Move (η : Type) where
  | call (entries : List RuntimeEntry) (reused : Option (Almanac × RunJournal))
  | turn (place : Nat)
  | leave (place : Nat)
  | meanwhile (change : Engine η → Engine η)

namespace Overlap

/-- An engine on which no calls were made. -/
def on (engine : Engine η) : Overlap η := ⟨engine, []⟩

/-- What comes of a move.  A call whose entries are refused fails at once. -/
def make (handling : Handling η) (overlap : Overlap η) : Move η → Overlap η
  | .call entries reused =>
      let number := overlap.engine.runs
      match opening handling overlap.engine entries reused with
      | none => { overlap with engine := { overlap.engine with runs := number + 1 } }
      | some loop => ⟨loop.world.engine, overlap.callers ++ [⟨number, entries, reused, 0, loop⟩]⟩
  | .turn place =>
      match overlap.callers[place]?.bind (Caller.turn? overlap.engine) with
      | none => overlap
      | some caller => ⟨caller.loop.world.engine, overlap.callers.set place caller⟩
  | .leave place =>
      if (overlap.callers[place]?.map Caller.isOver).getD false then
        { overlap with engine := overlap.engine.stop }
      else overlap
  | .meanwhile change => { overlap with engine := change overlap.engine }

/-- What comes of one move after the other. -/
def after (handling : Handling η) (overlap : Overlap η) (moves : List (Move η)) : Overlap η :=
  moves.foldl (make handling) overlap

/-- Pure facts are given to calls, no call returns while another one is in progress, and whatever
else is done with the engine leaves it as it is. -/
def Admits (overlap : Overlap η) : Move η → Prop
  | .call entries reused => PureGiven entries reused
  | .turn _ => True
  | .leave _ => ∀ caller ∈ overlap.callers, caller.isOver = true
  | .meanwhile change => Kept overlap.engine (change overlap.engine) ∧
      (change overlap.engine).status = overlap.engine.status

/-- Every move is admitted when it is made. -/
def AdmitsEach (handling : Handling η) : Overlap η → List (Move η) → Prop
  | _, [] => True
  | overlap, move :: rest =>
      overlap.Admits move ∧ AdmitsEach handling (overlap.make handling move) rest

/-- The engine is as the given one, and it is running as long as any call is in progress; and every
call stands where it would stand alone. -/
structure Sound (handling : Handling η) (engine : Engine η) (overlap : Overlap η) : Prop where
  kept : Kept engine overlap.engine
  running : ∀ caller ∈ overlap.callers, caller.isOver = false → overlap.engine.status = .running
  follows : ∀ caller ∈ overlap.callers, caller.Follows handling engine

variable {overlap : Overlap η}

theorem Sound.make_call (h : overlap.Sound handling engine) (hshareable : Shareable handling engine)
    (hgiven : PureGiven entries reused) :
    (overlap.make handling (.call entries reused)).Sound handling engine := by
  unfold make
  dsimp only
  split
  · exact ⟨h.kept.inStage _ _, h.running, h.follows⟩
  · next loop hopening =>
      obtain ⟨alone, halone, htwins⟩ := hshareable.twins_opening h.kept hgiven hopening
      refine ⟨htwins.world.kept, fun _ _ _ => htwins.world.running, fun caller hcaller => ?_⟩
      rcases List.mem_append.1 hcaller with hearlier | hnew
      · exact h.follows caller hearlier
      · obtain rfl := List.mem_singleton.1 hnew
        exact ⟨alone, halone, htwins⟩

/-- A call that has a turn follows the one that is alone, and leaves the engine as it is. -/
theorem Sound.follows_turn (h : overlap.Sound handling engine) {caller next : Caller η}
    (hcaller : caller ∈ overlap.callers) (hturn : caller.turn? overlap.engine = some next) :
    Kept engine next.loop.world.engine ∧ next.loop.world.engine.status = .running ∧
      next.Follows handling engine := by
  obtain ⟨alone, halone, htwins⟩ := h.follows caller hcaller
  have hrunning := h.running caller hcaller (Caller.isOver_of_turn? hturn)
  obtain ⟨loop, hstep, rfl⟩ := Option.map_eq_some_iff.1 hturn
  -- The engine that the call found in its last turn is replaced by the one that all calls share.
  have hrel := (htwins.ofWorld (htwins.world.onEngine h.kept hrunning)).step
  rw [hstep] at hrel
  cases hlast : (alone.run caller.turns).step with
  | none =>
      rw [hlast] at hrel
      cases hrel
  | some last =>
      rw [hlast] at hrel
      cases hrel with
      | some hnext =>
          refine ⟨hnext.world.kept, hnext.world.running, alone, halone, ?_⟩
          rw [Loop.run_add, Loop.run, hlast]
          exact hnext

theorem Sound.make_turn (h : overlap.Sound handling engine) (place : Nat) :
    (overlap.make handling (.turn place)).Sound handling engine := by
  unfold make
  dsimp only
  split
  · exact h
  · next next hnext =>
      obtain ⟨caller, hplace, hturn⟩ := Option.bind_eq_some_iff.1 hnext
      obtain ⟨hkept, hrunning, hfollows⟩ := h.follows_turn (List.mem_of_getElem? hplace) hturn
      refine ⟨hkept, fun _ _ _ => hrunning, fun other hother => ?_⟩
      rcases List.mem_or_eq_of_mem_set hother with hold | rfl
      · exact h.follows other hold
      · exact hfollows

theorem Sound.make (h : overlap.Sound handling engine) (hshareable : Shareable handling engine)
    {move : Move η} (hmove : overlap.Admits move) :
    (overlap.make handling move).Sound handling engine := by
  cases move with
  | call entries reused => exact h.make_call hshareable hmove
  | turn place => exact h.make_turn place
  | leave place =>
      unfold Overlap.make
      dsimp only
      split
      · refine ⟨h.kept.inStage _ _, fun caller hcaller hbusy => ?_, h.follows⟩
        cases (hmove caller hcaller).symm.trans hbusy
      · exact h
  | meanwhile change =>
      refine ⟨h.kept.trans hmove.1, fun caller hcaller hbusy => ?_, h.follows⟩
      exact hmove.2.trans (h.running caller hcaller hbusy)

theorem Sound.after (h : overlap.Sound handling engine) (hshareable : Shareable handling engine)
    {moves : List (Move η)} (hmoves : AdmitsEach handling overlap moves) :
    (overlap.after handling moves).Sound handling engine := by
  induction moves generalizing overlap with
  | nil => exact h
  | cons move rest ih => exact ih (h.make hshareable hmoves.1) hmoves.2

/-- A rule that comes after the others. -/
def postponed : Rule :=
  { always "b" "y" with priority := (Priority.ofInt? 2).getD Priority.first }

/-- An engine with two groups; a handler lets others go first, and gives a value to its run. -/
def attended : Engine Catalogue.Handler :=
  equipped [always "a" "x", postponed]
    [(.str "x", [⟨.str "N", .addRuntimeFact (.str "seen") (.bool true), true⟩])]

theorem reserved_attended (event : Value) :
    ∀ handler ∈ attended.handlersOf event, handler.deed.Reserved := by
  refine forall_mem_handlersOf (fun handlers hhandlers => ?_) event
  obtain rfl := List.mem_singleton.1 hhandlers
  intro handler hhandler
  obtain rfl := List.mem_singleton.1 hhandler
  trivial

theorem shareable_attended : Shareable Catalogue.handle attended where
  operators := remembers_withDefaults Outdated
  facts _ hfact := nomatch hfact
  handlers := Catalogue.considerate_handle reserved_attended

/-- Pure facts are given to calls, and nothing else is done with the engine. -/
def Plain : Move η → Prop
  | .call entries reused => PureGiven entries reused
  | .turn _ | .leave _ => True
  | .meanwhile _ => False

end Overlap

end Rulebook.Engine
