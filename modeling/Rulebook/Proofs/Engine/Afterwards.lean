import Mathlib.Logic.Equiv.Basic
import Rulebook.Proofs.Engine.Overlap

/-!
What is left of a run when it is over.

A run leaves its engine with another status and another number of runs, with rules in groups, with
operators put together, with counts and with notes.  Nothing of this is found by a later run that
has an almanac of its own: if no handler changes the engine, and neither computations nor handlers
keep anything for later, then a run hands back after any number of others what it would have handed
back before them, and so it does if some of them failed (`run_afterRuns`).
-/

namespace Rulebook.Engine

open Eval
open Stamped (withVerdict)
open Registry (Remembers Outdated)

variable {η : Type} {handling : Handling η} {engine : Engine η} {entries : List RuntimeEntry}
  {reused : Option (Almanac × RunJournal)} {other : Nat → Nat}

/-! ### What a run hands back -/

/-- What a run hands back if it does not fail. -/
structure Returned where
  almanac : Almanac
  results : List RuleResult
  failureResults : List RuleResult
  events : List Members
  failureEvents : List Members

namespace RunEnd

/-- The failure that ended the run, or what it hands back. -/
def returned (ended : RunEnd η) : Except Error Returned :=
  let journal := ended.run.journal
  match ended.failure with
  | some e => .error e
  | none => .ok {
      almanac := ended.run.almanac
      results := (withVerdict true journal.results).map Stamped.item
      failureResults := (withVerdict false journal.results).map Stamped.item
      events := (journal.eventsOf Journal.success).map Stamped.item
      failureEvents := (journal.eventsOf Journal.failure).map Stamped.item }

/-- The end of the same run with another number. -/
def renumber (other : Nat → Nat) (ended : RunEnd η) : RunEnd η :=
  { ended with run := ended.run.renumber other }

/-- The number of a run is not seen in what it hands back. -/
theorem returned_renumber (other : Nat → Nat) (ended : RunEnd η) :
    (ended.renumber other).returned = ended.returned := by
  have hresults : ∀ verdict (entries : List (Stamped RuleResult)),
      (withVerdict verdict (entries.map (Stamped.renumber other))).map Stamped.item =
        (withVerdict verdict entries).map Stamped.item := fun verdict entries => by
    rw [withVerdict, withVerdict, List.filter_map, List.map_map]
    rfl
  have hevents : ∀ outcome, (ended.run.journal.renumber other |>.eventsOf outcome).map
      Stamped.item = (ended.run.journal.eventsOf outcome).map Stamped.item := fun outcome => by
    rw [Journal.eventsOf_renumber, List.map_map]
    rfl
  unfold returned
  dsimp only [renumber, Run.renumber]
  rw [hevents, hevents]
  dsimp only [Journal.renumber]
  rw [hresults, hresults]

end RunEnd

/-! ### Engines that are left as they were -/

/-- The engine is as another one was, its rules included. -/
structure Unaltered (engine later : Engine η) : Prop extends Kept engine later where
  rules : later.rules = engine.rules

theorem Unaltered.refl (h : Remembers Outdated engine.registry) : Unaltered engine engine :=
  ⟨.refl h, rfl⟩

theorem Unaltered.inStage {later : Engine η} (h : Unaltered engine later) (runs : Nat)
    (status : Status) : Unaltered engine { later with runs, status } :=
  ⟨h.toKept.inStage runs status, h.rules⟩

theorem Unaltered.prioritize {later : Engine η} (h : Unaltered engine later) :
    Unaltered engine later.prioritize.2 := by
  refine ⟨h.toKept.prioritize, ?_⟩
  rw [← h.rules, Engine.prioritize]
  split <;> rfl

theorem steady_unaltered (engine : Engine η) : Steady engine (Unaltered engine) where
  kept _ h := h.toKept
  setAside _ _ tally notes h hremembers hoperators :=
    ⟨h.toKept.setAside hremembers hoperators tally notes, h.rules⟩

/-- The computations and the handlers of the engine keep nothing for later, and its handlers leave
it as it is. -/
structure Traceless (handling : Handling η) (engine : Engine η) : Prop where
  operators : Remembers Outdated engine.registry
  facts : ∀ fact ∈ engine.facts.values, fact.Pure
  handlers : ∀ other, Function.Injective other →
    Heedful handling engine (Unaltered engine) other

/-- A run comes to the same on two engines that are as the given one, but for its number; and it
leaves them so. -/
theorem Traceless.run_twins (h : Traceless handling engine) (hgiven : PureGiven entries reused)
    {one last : Engine η} (hone : Unaltered engine one) (hlast : Unaltered engine last)
    (hother : Function.Injective other) (hnumber : other one.runs = last.runs)
    (hjournal : (journalBefore reused).renumber other = journalBefore reused) :
    (last.run handling entries reused).1 = (one.run handling entries reused).1.renumber other ∧
      Unaltered engine (one.run handling entries reused).2 := by
  have halmanac := fun (later : Engine η) (hlater : Unaltered engine later) =>
    congrArg (Almanac.addEntries · entries) (hlater.toKept.almanacFor (reused.map (·.1)))
  have hpure := (hgiven.almanacFor h.facts).addEntries hgiven.entries
  cases hentries : (engine.almanacFor (reused.map (·.1))).addEntries entries with
  | mk almanac refused =>
      have hfirst := (halmanac one hone).trans hentries
      have hsecond := (halmanac last hlast).trans hentries
      cases refused with
      | some e =>
          rw [run_refused handling hfirst, run_refused handling hsecond]
          refine ⟨?_, hone.inStage _ _⟩
          rw [RunEnd.renumber, Run.renumber, hnumber, hjournal]
          rfl
      | none =>
          rw [hentries] at hpure
          have hgroups : last.prioritize.1 = one.prioritize.1 := hlast.groups.trans hone.groups.symm
          have htwins := (h.handlers other hother).twins_runGroups (steady_unaltered engine) hother
            (stamped one.runs 0 one.prioritize.1)
          rw [← stamped_renumber, hnumber] at htwins
          rw [run_started handling hfirst, run_started handling hsecond, hgroups]
          have hscenes : Beside (Unaltered engine) other
              (firstScene one almanac (journalBefore reused))
              (firstScene last almanac (journalBefore reused)) := by
            refine ⟨hone.prioritize.inStage _ _, hlast.prioritize.inStage _ _, rfl, rfl, ?_, hpure⟩
            rw [firstScene, firstScene, Run.renumber, hnumber, hjournal]
            rfl
          obtain ⟨hresult, hscene⟩ := htwins.run hscenes
          refine ⟨?_, hscene.engine.inStage _ _⟩
          dsimp only
          rw [← hresult, hscene.run]
          rfl

/-! ### One run after the other -/

/-- What is given to a run: its entries, and an almanac that was used before, if there is one. -/
abbrev Given := List RuntimeEntry × Option (Almanac × RunJournal)

/-- The engine after runs, one after the other. -/
def afterRuns (handling : Handling η) (engine : Engine η) (history : List Given) : Engine η :=
  history.foldl (fun before given => (before.run handling given.1 given.2).2) engine

theorem Traceless.unaltered_afterRuns (h : Traceless handling engine) {before : Engine η}
    (hbefore : Unaltered engine before) {history : List Given}
    (hhistory : ∀ given ∈ history, PureGiven given.1 given.2) :
    Unaltered engine (before.afterRuns handling history) := by
  induction history generalizing before with
  | nil => exact hbefore
  | cons given rest ih =>
      rw [List.forall_mem_cons] at hhistory
      exact ih (h.run_twins hhistory.1 hbefore hbefore Function.injective_id rfl
        (Journal.renumber_id _)).2 hhistory.2

/-- A run with an almanac of its own hands back after any number of runs what it would have handed
back before them, or fails as it would have failed; and the runs leave the facts, the named
conditions and the rules of the engine as they were. -/
theorem run_afterRuns (h : Traceless handling engine) {history : List Given}
    (hhistory : ∀ given ∈ history, PureGiven given.1 given.2)
    (hentries : ∀ entry ∈ entries, entry.Pure) :
    ((engine.afterRuns handling history).run handling entries none).1.returned =
        (engine.run handling entries none).1.returned ∧
      (engine.afterRuns handling history).facts = engine.facts ∧
      (engine.afterRuns handling history).conditions = engine.conditions ∧
      (engine.afterRuns handling history).rules = engine.rules := by
  have hbefore : Unaltered engine engine := .refl h.operators
  have hafter := h.unaltered_afterRuns hbefore hhistory
  refine ⟨?_, hafter.facts, hafter.conditions, hafter.rules⟩
  -- The two runs have each other's number.
  let other := Equiv.swap (engine.afterRuns handling history).runs engine.runs
  have hgiven : PureGiven entries none := .fresh hentries
  have htwins := (h.run_twins hgiven hafter hbefore other.injective
    (Equiv.swap_apply_left _ _) rfl).1
  rw [htwins, RunEnd.returned_renumber]

/-- A run that is refused, and one that comes to its end. -/
def earlier : List Given :=
  [([.value (.str "") .null], none), ([.value (.str "seen") (.bool false)], none)]

theorem traceless_attended : Traceless Catalogue.handle Overlap.attended where
  operators := Overlap.shareable_attended.operators
  facts := Overlap.shareable_attended.facts
  handlers _ hother := Catalogue.heedful_handle hother Overlap.reserved_attended

theorem run_afterRuns_attended :
    Traceless Catalogue.handle Overlap.attended ∧
      (∀ given ∈ earlier, PureGiven given.1 given.2) ∧
      earlier.map (fun given =>
        (Overlap.attended.run Catalogue.handle given.1 given.2).1.failure.isSome) = [true, false] ∧
      ((Overlap.attended.afterRuns Catalogue.handle earlier).run Catalogue.handle [] none).1.returned =
        (Overlap.attended.run Catalogue.handle [] none).1.returned ∧
      (Overlap.attended.afterRuns Catalogue.handle earlier).facts = Overlap.attended.facts ∧
      (Overlap.attended.afterRuns Catalogue.handle earlier).conditions =
        Overlap.attended.conditions ∧
      (Overlap.attended.afterRuns Catalogue.handle earlier).rules = Overlap.attended.rules := by
  have hearlier : ∀ given ∈ earlier, PureGiven given.1 given.2 := by
    have hvalue : ∀ id value, PureGiven [.value id value] none := fun _ _ =>
      .fresh (List.forall_mem_singleton.2 trivial)
    exact List.forall_mem_cons.2 ⟨hvalue _ _, List.forall_mem_singleton.2 (hvalue _ _)⟩
  exact ⟨traceless_attended, hearlier, by decide +kernel,
    run_afterRuns traceless_attended hearlier (List.forall_mem_nil _)⟩

end Rulebook.Engine
