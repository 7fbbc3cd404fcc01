import Rulebook.Proofs.Engine.Tolls

/-!
How a run comes out when rules fail.

The rules of a group are all let finish, whatever becomes of the others; so a run in which rules fail
ends with their group, and with the failure of the first of them in the order of the rules
(`Determined`).  Those that do not fail have their results, events and calls as in any run.  However a run
ends, each rule that it has started was either evaluated and recorded or counted as a failure
(`Balances`).
-/

namespace Rulebook.Engine

open Eval Strand

variable {η : Type} {handling : Handling η} {engine : Engine η} {entries : List RuntimeEntry}
  {reused : Option (Almanac × RunJournal)} {becomes : Members → Members → Prop}
  {loop : Loop (Scene η) Ending} {found : List Processed}

/-! ### Rules that are started -/

/-- The strands that process rules, in the order of the rules. -/
def processing (loop : Loop (Scene η) Ending) : List Nat :=
  loop.startedIn 0 (List.range turnLimit)

/-- A strand that processes a rule starts it if it finds the engine running in its first turn. -/
def startsRule (loop : Loop (Scene η) Ending) (strand : Nat) : Bool :=
  (loop.firstTurn? strand turnLimit).any fun turns =>
    (loop.run turns).world.engine.status = .running

/-- A rule has its result, with the event of that among those of its outcome, and all of the handlers
were called that its verdict calls for. -/
def Reports (becomes : Members → Members → Prop) (engine : Engine η) (run : Run η)
    (entry : Rule × Stamp) : Prop :=
  ∃ verdict,
    Recorded becomes entry.1 verdict (engine.owed entry.1 verdict ++ engine.stray entry.1 verdict)
      (run.resultsAt entry.2) (run.callsAt entry.2) ∧
    ∀ result ∈ run.resultsAt entry.2, result.item.Of entry.1 ∧
      result.eventOf ∈ run.journal.eventsOf (Journal.outcomeOf verdict)

/-- How a run comes out: these rules were processed, which are those of the first groups. -/
structure Determined (becomes : Members → Members → Prop) (handling : Handling η) (engine : Engine η)
    (loop : Loop (Scene η) Ending) (ended : RunEnd η) (first left : List (List Rule))
    (found : List Processed) : Prop where
  groups : groupsOf engine.rules = first ++ left
  rules : found.map Processed.entry = stampedGroup engine.runs 0 first.flatten
  strands : processing loop = found.map Processed.strand
  begins : ∀ processed ∈ found, ∃ turns < turnLimit,
    loop.FirstTurn processed.strand turns (processed.code handling)
  ends : ∀ processed ∈ found,
    (loop.run turnLimit).outcome? processed.strand = some processed.ending
  /-- The run fails with the first rule that does. -/
  failure : ended.failure = found.findSome? Processed.failure?
  /-- Nothing fails before the last one of the groups. -/
  last : ∀ processed ∈ found, processed.failure? ≠ none → ∃ earlier group,
    first = earlier ++ [group] ∧ earlier.flatten.length ≤ processed.entry.2.place
  reports : ∀ processed ∈ found, startsRule loop processed.strand = true →
    processed.failure? = none → Reports becomes engine ended.run processed.entry
  /-- Unless somebody stops the engine each of the rules is started, and all groups are if nothing
  fails. -/
  unstopped : (∀ turns ≤ turnLimit, (loop.run turns).world.engine.status = .running) →
    (∀ processed ∈ found, startsRule loop processed.strand = true) ∧
      (ended.failure = none → left = [])

/-- A run that does not stall comes to an end. -/
theorem exists_ending (hopening : opening handling engine entries reused = some loop)
    (hends : (engine.run handling entries reused).1.failure ≠ some .stalled) :
    ∃ ending, (loop.run turnLimit).outcome? 0 = some ending := by
  rw [run_of_opening hopening] at hends
  refine Option.ne_none_iff_exists'.1 fun hnone => hends ?_
  rw [endOf, hnone]
  rfl

/-- What a run tells of the rules that are reported. -/
def Reporting.conduct {setting : Reporting.Setting η} (hobliging : Reporting.Obliging setting handling) :
    Conduct handling setting.number setting.order (Reporting.charter setting) where
  account := Reporting.accountOf
  root place length := .root place (place + length) .going
  between := Reporting.Between setting
  final _ _ := True
  note _ _ := True
  final_mono _ _ := trivial
  note_mono _ _ _ _ _ := trivial
  starts hplace own := (Reporting.starts_process hobliging hplace own).notes
  opens hbetween _ := Reporting.at_openEach hbetween _ _
  gathers hat hsettled hok := ⟨_, Reporting.between_of_settled hat hsettled hok⟩
  fails hat hsettled _ := by
    obtain ⟨account, hmay, hsettles, hholds⟩ := Reporting.mayEnd_root hat .failed
      (.inr ⟨rfl, _, rfl⟩) (Reporting.stage_ne_going hat hsettled)
    exact ⟨account, hmay, trivial, hsettles, hholds⟩
  closes hbetween := by
    obtain ⟨account, hmay, hsettles, hholds⟩ := Reporting.mayEnd_between hbetween
    exact ⟨account, hmay, trivial, hsettles, hholds⟩

end Rulebook.Engine
