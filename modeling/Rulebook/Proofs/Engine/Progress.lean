import Rulebook.Proofs.Engine.Chronicle
import Rulebook.Proofs.Engine.Phases
import Rulebook.Proofs.Rule.Evaluation

/-!
What holds of an engine and its run, given how far the rules have come.

The journal holds the results of the rules that were recorded, and the counts of rules have grown by
just those.  A handler that stops the engine is called for a rule of the group that is being processed
(`Progress`).  This is preserved by each thing that a run does.
-/

namespace Rulebook.Engine

open Stamped

variable {η : Type}

/-- What is settled when a run starts: its number, its rules in their order, by which levels they are
grouped, what was recorded and counted before, which handlers stop the engine, whether others are
free to stop it as well, and whether the run alone counts rules. -/
structure Plan (η : Type) where
  number : Nat
  order : List Rule
  level : Rule → Nat
  earlier : RunJournal
  counts : Option (String → Nat)
  stops : η → Bool
  free : Prop
  counting : Prop

/-- How many of the results are counted under a label. -/
def counted (own : List (Stamped RuleResult)) (label : String) : Nat :=
  own.countP fun entry => Rule.outcomeLabel entry.item.result == label

/-- The rule at one place may precede that at the other: its level is not above that one's. -/
def Plan.MayPrecede (plan : Plan η) (place other : Nat) : Prop :=
  ∀ rule later, plan.order[place]? = some rule → plan.order[other]? = some later →
    plan.level rule ≤ plan.level later

/-- The rules of a plan are in the order of their levels. -/
def Plan.Sorted (plan : Plan η) : Prop :=
  plan.order.Pairwise fun rule later => plan.level rule ≤ plan.level later

/-- The results of a run so far are those of the rules that were recorded, in the order of their
levels, and were counted. -/
structure Entries (plan : Plan η) (own : List (Stamped RuleResult)) (phases : List Phase)
    (scene : Scene η) : Prop where
  chronicle : Chronicle plan.number plan.order plan.earlier own scene.run.journal
  places : ∀ place, place ∈ places own ↔
    ∃ phase, phases[place]? = some phase ∧ phase.isRecorded = true
  sorted : plan.Sorted → (Stamped.places own).Pairwise plan.MayPrecede
  counts : plan.counting → (HasSession.session scene).ruleCounts =
    plan.counts.map fun count label => count label + counted own label

/-- The rule for which a handler is called belongs to the present group, and its result is recorded.
While the engine is not stopped the call goes on, or it has failed. -/
def Timely (start : Nat) (phases : List Phase) (running : Prop) (place : Nat) : Prop :=
  start ≤ place ∧ ∃ phase, phases[place]? = some phase ∧ phase.isRecorded = true ∧
    (running → phase = .stopping ∨ phase = .failed true)

/-- A handler that stops the engine was called. -/
def Called (plan : Plan η) (scene : Scene η) : Prop :=
  ∃ call ∈ scene.run.calls, plan.stops call.handler = true

/-- The rules from `start` to `finish` have one level. -/
def OneLevel (plan : Plan η) (start finish : Nat) : Prop :=
  ∀ (first second : Nat) (rule other : Rule), start ≤ first → start ≤ second → first < finish →
    second < finish → plan.order[first]? = some rule → plan.order[second]? = some other →
      plan.level rule = plan.level other

/-- The engine and its run are as the phases tell; the group of rules from `start` on is processed,
or the run is over. -/
structure Progress (plan : Plan η) (start : Nat) (isOver : Bool) (phases : List Phase)
    (scene : Scene η) : Prop where
  number : scene.run.number = plan.number
  runs : scene.engine.runs = plan.number + 1
  orderly : Orderly start phases (scene.engine.status ≠ .running)
  entries : ∃ own, Entries plan own phases scene
  timely : ∀ call ∈ scene.run.calls, plan.stops call.handler = true →
    Timely start phases (scene.engine.status = .running) call.stamp.place
  cause : ¬ plan.free → scene.engine.status ≠ .running ∨ .stopping ∈ phases → Called plan scene
  level : OneLevel plan start phases.length
  isOver : isOver = true → (∀ phase ∈ phases, phase.IsThrough) ∧ (phases.length = plan.order.length ∨ scene.engine.status ≠ .running)

/-- A change that leaves alone what a run records, apart from the events of the run of this number.
If it is free to do so it may stop the engine. -/
structure Discreet (free : Prop) (current : Nat) (scene now : Scene η) : Prop where
  number : now.run.number = scene.run.number
  runs : now.engine.runs = scene.engine.runs
  calls : now.run.calls = scene.run.calls
  status : now.engine.status = scene.engine.status ∨ (free ∧ now.engine.status ≠ .running)
  counts : (HasSession.session now).ruleCounts = (HasSession.session scene).ruleCounts
  journal : now.run.journal = scene.run.journal ∨ ∃ stamp change,
    stamp.run = current ∧ now.run.journal = (scene.run.changeEvent stamp change).journal

/-- A change that leaves alone what a run records, as a discreet one does.  Rules may be counted by it
unless the run alone counts them. -/
structure Unobtrusive (free counting : Prop) (current : Nat) (scene now : Scene η) : Prop where
  number : now.run.number = scene.run.number
  runs : now.engine.runs = scene.engine.runs
  calls : now.run.calls = scene.run.calls
  status : now.engine.status = scene.engine.status ∨ (free ∧ now.engine.status ≠ .running)
  counts : counting → (HasSession.session now).ruleCounts = (HasSession.session scene).ruleCounts
  journal : now.run.journal = scene.run.journal ∨ ∃ stamp change,
    stamp.run = current ∧ now.run.journal = (scene.run.changeEvent stamp change).journal

theorem Discreet.unobtrusive {free : Prop} {current : Nat} {scene now : Scene η}
    (h : Discreet free current scene now) (counting : Prop) :
    Unobtrusive free counting current scene now :=
  ⟨h.number, h.runs, h.calls, h.status, fun _ => h.counts, h.journal⟩

/-- A scene in which one more handler was called. -/
def withCall (scene : Scene η) (call : Call η) : Scene η :=
  { scene with run := { scene.run with calls := scene.run.calls ++ [call] } }

/-- A scene in which the engine was stopped. -/
def stopped (scene : Scene η) : Scene η := { scene with engine := scene.engine.stop }

/-! ### Entries -/

namespace Entries

variable {plan : Plan η} {own : List (Stamped RuleResult)} {phases : List Phase}
  {scene now : Scene η} {free : Prop}

theorem counted_map (stamp : Stamp) (change : Members → Members) (label : String) :
    counted (own.map (changeResult stamp change)) label = counted own label := by
  rw [counted, counted, List.countP_map]
  simp [Function.comp_def]

theorem unobtrusive (h : Entries plan own phases scene)
    (hearlier : plan.earlier.Before plan.number)
    (hnow : Unobtrusive free plan.counting plan.number scene now) :
    ∃ own, Entries plan own phases now := by
  have hcounts := fun hcounting => (hnow.counts hcounting).trans (h.counts hcounting)
  rcases hnow.journal with hjournal | ⟨stamp, change, hstamp, hjournal⟩
  · exact ⟨own, hjournal ▸ h.chronicle, h.places, h.sorted, hcounts⟩
  · refine ⟨own.map (changeResult stamp change), ?_, ?_, ?_, ?_⟩
    · rw [hjournal]
      exact h.chronicle.changeEvent hearlier hstamp change
    · simpa [Stamped.places, Function.comp_def] using h.places
    · simpa [Stamped.places, Function.comp_def] using h.sorted
    · simpa [counted_map] using hcounts

/-- Which results are recorded does not change when a rule comes further, unless that is what it
comes to. -/
theorem set (h : Entries plan own phases scene) {place : Nat} {old phase : Phase}
    (hold : phases[place]? = some old) (hphase : phase.isRecorded = old.isRecorded) :
    Entries plan own (phases.set place phase) scene := by
  refine ⟨h.chronicle, fun other => (h.places other).trans ?_, h.sorted, h.counts⟩
  by_cases hother : other = place
  · subst hother
    rw [List.getElem?_set_self (List.getElem?_eq_some_iff.1 hold).1, hold]
    simp [hphase]
  · simp [List.getElem?_set_ne (Ne.symm hother)]

/-- The result of a rule is counted and recorded. -/
theorem record (h : Entries plan own phases scene) {place : Nat} {old : Phase}
    (hold : phases[place]? = some old) (hnew : old.isRecorded = false) {rule : Rule}
    (hrule : plan.order[place]? = some rule) {result : RuleResult} (hresult : result.Of rule)
    (hlast : plan.Sorted → ∀ other < phases.length, plan.MayPrecede other place)
    (hcounts : (HasSession.session now).ruleCounts =
      (HasSession.session scene).ruleCounts.map fun count label =>
        count label + if Rule.outcomeLabel result.result = label then 1 else 0)
    (hjournal : now.run.journal = (scene.run.journal.addResult ⟨⟨plan.number, place⟩, result⟩).addEvent
      (Journal.outcomeOf result.result) ⟨⟨plan.number, place⟩, result.event⟩) :
    Entries plan (own ++ [⟨⟨plan.number, place⟩, result⟩]) (phases.set place .recorded) now where
  chronicle := by
    rw [hjournal]
    refine h.chronicle.record hrule hresult fun hplace => ?_
    obtain ⟨phase, hphase, hrecorded⟩ := (h.places place).1 hplace
    rw [Option.some.inj (hphase.symm.trans hold), hnew] at hrecorded
    cases hrecorded
  places other := by
    rw [Stamped.places, List.map_append, List.mem_append]
    by_cases hother : other = place
    · subst hother
      simp [(List.getElem?_eq_some_iff.1 hold).1, Phase.isRecorded]
    · have hplaces := h.places other
      rw [Stamped.places] at hplaces
      simp [hplaces, List.getElem?_set_ne (Ne.symm hother), hother]
  sorted hsorted := by
    rw [Stamped.places, List.map_append]
    refine List.pairwise_append.2 ⟨h.sorted hsorted, List.pairwise_singleton _ _, ?_⟩
    intro other hother last hplace
    obtain ⟨phase, hphase, _⟩ := (h.places other).1 hother
    rw [List.mem_singleton.1 hplace]
    exact hlast hsorted other (List.getElem?_eq_some_iff.1 hphase).1
  counts hcounting := by
    rw [hcounts, h.counts hcounting, Option.map_map]
    congr 1
    funext count label
    simp [counted, Nat.add_assoc]

end Entries

/-! ### Calls -/

namespace Timely

variable {start place : Nat} {phases : List Phase} {running : Prop}

theorem imp (h : Timely start phases running place) {now : Prop} (hnow : now → running) :
    Timely start phases now place :=
  ⟨h.1, h.2.imp fun _ hphase => ⟨hphase.1, hphase.2.1, fun hrunning => hphase.2.2 (hnow hrunning)⟩⟩

/-- A rule comes further; if a handler of it was to stop the engine, that has happened. -/
theorem set (h : Timely start phases running place) {other : Nat} {old phase : Phase}
    (hold : phases[other]? = some old) (hrecorded : old.isRecorded = true → phase.isRecorded = true)
    (hstopping : running → old = .stopping ∨ old = .failed true →
      phase = .stopping ∨ phase = .failed true) :
    Timely start (phases.set other phase) running place := by
  obtain ⟨hstart, found, hfound, hfoundRecorded, hcall⟩ := h
  by_cases hsame : place = other
  · subst hsame
    obtain rfl := Option.some.inj (hold.symm.trans hfound)
    exact ⟨hstart, phase, getElem?_set_phase hold |>.2 (.inl ⟨rfl, rfl⟩), hrecorded hfoundRecorded,
      fun hrunning => hstopping hrunning (hcall hrunning)⟩
  · exact ⟨hstart, found, getElem?_set_phase hold |>.2 (.inr ⟨hsame, hfound⟩), hfoundRecorded, hcall⟩

end Timely

/-! ### Steps of a run -/

namespace Progress

variable {plan : Plan η} {start place : Nat} {isOver : Bool} {phases : List Phase} {old : Phase}
  {scene now : Scene η}

theorem unobtrusive (h : Progress plan start isOver phases scene)
    (hearlier : plan.earlier.Before plan.number)
    (hnow : Unobtrusive plan.free plan.counting plan.number scene now) :
    Progress plan start isOver phases now := by
  have hstopped : scene.engine.status ≠ .running → now.engine.status ≠ .running :=
    fun hstopped => hnow.status.elim (fun hsame => hsame ▸ hstopped) And.right
  constructor
  · exact hnow.number.trans h.number
  · exact hnow.runs.trans h.runs
  · exact h.orderly.imp hstopped
  · exact h.entries.elim fun _ hown => hown.unobtrusive hearlier hnow
  · rw [hnow.calls]
    exact fun call hcall hstops => (h.timely call hcall hstops).imp
      fun hrunning => by_contra fun hwas => hstopped hwas hrunning
  · intro hfree hcause
    rw [Called, hnow.calls]
    refine h.cause hfree (hcause.imp_left fun hnew => ?_)
    exact hnow.status.elim (fun hsame => hsame ▸ hnew) fun hwrong => absurd hwrong.1 hfree
  · exact h.level
  · exact fun hover => (h.isOver hover).imp_right fun hlast => hlast.imp_right hstopped

/-- As long as something is left to be done the run is not over. -/
theorem not_over (h : Progress plan start isOver phases scene) (hold : phases[place]? = some old)
    (hopen : old.isOpen = true) : isOver = false := by
  cases isOver with
  | false => rfl
  | true => rcases (h.isOver rfl).1 old (List.mem_of_getElem? hold) with rfl | rfl <;> cases hopen

theorem length_set (h : Progress plan start isOver phases scene) (phase : Phase) :
    OneLevel plan start (phases.set place phase).length := by
  rw [List.length_set]
  exact h.level

/-- A rule begins: it is skipped if the engine is stopped, and evaluated if it is not. -/
theorem begin (h : Progress plan start isOver phases scene) (hold : phases[place]? = some .waiting)
    (hfirst : ∀ other, other < place → phases[other]? ≠ some .waiting) {phase : Phase}
    (hphase : (phase = .skipped ∧ scene.engine.status ≠ .running) ∨
      (phase = .working ∧ scene.engine.status = .running)) :
    Progress plan start isOver (phases.set place phase) scene where
  number := h.number
  runs := h.runs
  orderly := h.orderly.begin hold hfirst (hphase.imp_right fun hworking =>
    ⟨hworking.1, fun hstopped => hstopped hworking.2⟩)
  entries := by
    obtain ⟨own, hown⟩ := h.entries
    refine ⟨own, hown.set hold ?_⟩
    rcases hphase with ⟨rfl, _⟩ | ⟨rfl, _⟩ <;> rfl
  timely call hcall hstops :=
    (h.timely call hcall hstops).set hold nofun fun _ hwrong => by rcases hwrong with h | h <;> cases h
  cause hfree hcause := by
    refine h.cause hfree (hcause.imp_right fun hstopping => ?_)
    rcases List.mem_or_eq_of_mem_set hstopping with hsame | rfl
    · exact hsame
    · rcases hphase with ⟨hwrong, _⟩ | ⟨hwrong, _⟩ <;> cases hwrong
  level := h.length_set phase
  isOver hover := by
    cases hover.symm.trans (h.not_over hold rfl)

/-- A rule comes to its end, or its evaluation or a handler fails. -/
theorem close (h : Progress plan start isOver phases scene) (hold : phases[place]? = some old)
    {phase : Phase} (hphase : (old = .recorded ∧ phase = .reported) ∨
      (old.isOpen = true ∧ old.isEvaluated = true ∧ phase = .failed old.isRecorded)) :
    Progress plan start isOver (phases.set place phase) scene := by
  have hopen : old.isOpen = true ∧ old.isEvaluated = true := by
    rcases hphase with ⟨rfl, _⟩ | ⟨hopen, hbegun, _⟩
    · exact ⟨rfl, rfl⟩
    · exact ⟨hopen, hbegun⟩
  have hrecorded : phase.isRecorded = old.isRecorded := by
    rcases hphase with ⟨rfl, rfl⟩ | ⟨_, _, rfl⟩ <;> rfl
  constructor
  · exact h.number
  · exact h.runs
  · refine h.orderly.set hold hopen.1 hopen.2 ?_
    rcases hphase with ⟨_, rfl⟩ | ⟨_, _, rfl⟩ <;> rfl
  · exact h.entries.imp fun own hown => hown.set hold hrecorded
  · refine fun call hcall hstops => (h.timely call hcall hstops).set hold
      (fun hold => hrecorded.trans hold) fun _ hstopping => ?_
    rcases hphase with ⟨rfl, _⟩ | ⟨_, _, rfl⟩
    · rcases hstopping with hwrong | hwrong <;> cases hwrong
    · rcases hstopping with rfl | rfl <;> exact .inr rfl
  · refine fun hfree hcause => h.cause hfree (hcause.imp_right fun hstopping => ?_)
    rcases List.mem_or_eq_of_mem_set hstopping with hsame | rfl
    · exact hsame
    · rcases hphase with ⟨_, hwrong⟩ | ⟨_, _, hwrong⟩ <;> cases hwrong
  · exact h.length_set phase
  · exact fun hover => nomatch hover.symm.trans (h.not_over hold hopen.1)

/-- The rules that have begun may precede any rule that is open: they belong to its group or to an
earlier one. -/
theorem mayPrecede (h : Progress plan start isOver phases scene) (hold : phases[place]? = some old)
    (hopen : old.isOpen = true) (hsorted : plan.Sorted) (other : Nat)
    (hother : other < phases.length) : plan.MayPrecede other place := by
  intro rule later hrule hlater
  have hplace := (List.getElem?_eq_some_iff.1 hold).1
  have hstart := h.orderly.start_le hold hopen
  by_cases hle : start ≤ other
  · exact Nat.le_of_eq (h.level other place rule later hle hstart hother hplace hrule hlater)
  · obtain ⟨hlt, rfl⟩ := List.getElem?_eq_some_iff.1 hrule
    obtain ⟨hlt', rfl⟩ := List.getElem?_eq_some_iff.1 hlater
    exact List.pairwise_iff_getElem.1 hsorted other place hlt hlt' (by omega)

/-- The result of a rule is counted and recorded. -/
theorem record (h : Progress plan start isOver phases scene) (hold : phases[place]? = some .working)
    (hnumber : now.run.number = scene.run.number) (hruns : now.engine.runs = scene.engine.runs)
    (hcalls : now.run.calls = scene.run.calls)
    (hstatus : now.engine.status = scene.engine.status)
    (hentries : ∀ own, Entries plan own phases scene →
      ∃ own, Entries plan own (phases.set place .recorded) now) :
    Progress plan start isOver (phases.set place .recorded) now where
  number := hnumber.trans h.number
  runs := hruns.trans h.runs
  orderly := hstatus ▸ h.orderly.set hold rfl rfl rfl
  entries := h.entries.elim hentries
  timely := by
    rw [hcalls, hstatus]
    exact fun call hcall hstops => (h.timely call hcall hstops).set hold nofun
      fun _ hwrong => by rcases hwrong with h | h <;> cases h
  cause hfree hcause := by
    rw [hstatus] at hcause
    rw [Called, hcalls]
    refine h.cause hfree (hcause.imp_right fun hstopping => ?_)
    rcases List.mem_or_eq_of_mem_set hstopping with hsame | hwrong
    · exact hsame
    · cases hwrong
  level := h.length_set _
  isOver hover := by
    cases hover.symm.trans (h.not_over hold rfl)

/-- A handler is called that does not stop the engine. -/
theorem call (h : Progress plan start isOver phases scene) {call : Call η}
    (hstops : plan.stops call.handler = false) :
    Progress plan start isOver phases (withCall scene call) where
  number := h.number
  runs := h.runs
  orderly := h.orderly
  entries := h.entries.imp fun _ hown => ⟨hown.chronicle, hown.places, hown.sorted, hown.counts⟩
  timely := by
    intro other hother hothers
    rcases List.mem_append.1 hother with hold | hnew
    · exact h.timely other hold hothers
    · cases List.mem_singleton.1 hnew
      cases hstops.symm.trans hothers
  cause hfree hcause := by
    obtain ⟨other, hother, hothers⟩ := h.cause hfree hcause
    exact ⟨other, List.mem_append_left _ hother, hothers⟩
  level := h.level
  isOver := h.isOver

/-- A handler is called that stops the engine. -/
theorem call_stopping (h : Progress plan start isOver phases scene)
    (hold : phases[place]? = some .recorded) {call : Call η} (hplace : call.stamp.place = place)
    (hstops : plan.stops call.handler = true) :
    Progress plan start isOver (phases.set place .stopping) (withCall scene call) where
  number := h.number
  runs := h.runs
  orderly := h.orderly.set hold rfl rfl rfl
  entries := by
    obtain ⟨own, hown⟩ := h.entries
    have hset : Entries _ _ (phases.set place .stopping) _ := hown.set hold rfl
    exact ⟨own, hset.chronicle, hset.places, hset.sorted, hset.counts⟩
  timely := by
    intro other hother hothers
    rcases List.mem_append.1 hother with hcall | hnew
    · exact (h.timely other hcall hothers).set hold (fun _ => rfl) fun _ _ => .inl rfl
    · cases List.mem_singleton.1 hnew
      rw [hplace]
      exact ⟨h.orderly.start_le hold rfl, .stopping,
        (getElem?_set_phase hold).2 (.inl ⟨rfl, rfl⟩), rfl, fun _ => .inl rfl⟩
  cause _ _ := ⟨call, List.mem_append_right _ (List.mem_singleton_self _), hstops⟩
  level := h.length_set _
  isOver hover := by
    cases hover.symm.trans (h.not_over hold rfl)

/-- The engine is stopped. -/
theorem stop (h : Progress plan start isOver phases scene) (hold : phases[place]? = some .stopping) :
    Progress plan start isOver (phases.set place .recorded) (stopped scene) where
  number := h.number
  runs := h.runs
  orderly := (h.orderly.set hold rfl rfl rfl).imp fun _ => nofun
  entries := by
    obtain ⟨own, hown⟩ := h.entries
    have hset : Entries _ _ (phases.set place .recorded) _ := hown.set hold rfl
    exact ⟨own, hset.chronicle, hset.places, hset.sorted, hset.counts⟩
  timely other hother hothers :=
    ((h.timely other hother hothers).imp (nofun : False → _)).set hold (fun _ => rfl) nofun |>.imp
      nofun
  cause hfree _ := h.cause hfree (.inr (List.mem_of_getElem? hold))
  level := h.length_set _
  isOver hover := by
    cases hover.symm.trans (h.not_over hold rfl)

/-- The next group of rules waits; no handler has been called so far that stops the engine. -/
theorem openEach (h : Progress plan start isOver phases scene) (hthrough : ∀ phase ∈ phases, phase.IsThrough)
    (hrunning : scene.engine.status = .running) {n : Nat}
    (hlevel : OneLevel plan phases.length (phases.length + n)) :
    Progress plan phases.length false (phases ++ List.replicate n .waiting) scene where
  number := h.number
  runs := h.runs
  orderly := h.orderly.append (fun hstopped => hstopped hrunning) hthrough n
  entries := by
    obtain ⟨own, hown⟩ := h.entries
    refine ⟨own, hown.chronicle, fun place => (hown.places place).trans ?_, hown.sorted, hown.counts⟩
    constructor
    · rintro ⟨phase, hphase, hrecorded⟩
      exact ⟨phase, by rw [List.getElem?_append_left (List.getElem?_eq_some_iff.1 hphase).1, hphase],
        hrecorded⟩
    · rintro ⟨phase, hphase, hrecorded⟩
      rw [List.getElem?_append] at hphase
      split at hphase
      · exact ⟨phase, hphase, hrecorded⟩
      · rw [List.eq_of_mem_replicate (List.mem_of_getElem? hphase)] at hrecorded
        cases hrecorded
  timely call hcall hstops := by
    obtain ⟨_, phase, hphase, _, hcalls⟩ := h.timely call hcall hstops
    have hend := hthrough phase (List.mem_of_getElem? hphase)
    rcases hcalls hrunning with rfl | rfl <;> rcases hend with hwrong | hwrong <;> cases hwrong
  cause hfree hcause := by
    refine h.cause hfree (hcause.imp_right fun hstopping => ?_)
    rcases List.mem_append.1 hstopping with hold | hnew
    · exact hold
    · cases List.eq_of_mem_replicate hnew
  level := by
    rw [List.length_append, List.length_replicate]
    exact hlevel
  isOver := nofun

/-- The run is over when every rule is through, or when every rule so far is and the engine is
stopped. -/
theorem finish (h : Progress plan start isOver phases scene) (hthrough : ∀ phase ∈ phases, phase.IsThrough)
    (hlast : phases.length = plan.order.length ∨ scene.engine.status ≠ .running) :
    Progress plan start true phases scene :=
  { h with isOver := fun _ => ⟨hthrough, hlast⟩ }

/-- A run starts. -/
theorem zero (hnumber : scene.run.number = plan.number)
    (hruns : scene.engine.runs = plan.number + 1) (hstatus : scene.engine.status = .running)
    (hcalls : scene.run.calls = []) (hearlier : scene.run.journal = plan.earlier)
    (hcounts : (HasSession.session scene).ruleCounts = plan.counts) :
    Progress plan 0 false [] scene where
  number := hnumber
  runs := hruns
  orderly := by constructor <;> simp
  entries := by
    refine ⟨[], hearlier ▸ .nil _ _ _, by simp [Stamped.places], fun _ => .nil, fun _ => ?_⟩
    rw [hcounts]
    cases plan.counts <;> rfl
  timely := by
    rw [hcalls]
    exact List.forall_mem_nil _
  cause _ hcause := by
    rcases hcause with hstopped | hstopping
    · exact absurd hstatus hstopped
    · cases hstopping
  level _ _ _ _ _ _ hlt := absurd hlt (Nat.not_lt_zero _)
  isOver hover := by cases hover

end Progress

end Rulebook.Engine
