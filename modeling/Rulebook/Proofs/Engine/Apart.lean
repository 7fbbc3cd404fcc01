import Rulebook.Proofs.Condition.Reckoning
import Rulebook.Proofs.Engine.Afterwards
import Rulebook.Proofs.Engine.Stages
import Rulebook.Proofs.Fact.Memoization

/-!
Rules that share a run.

The rules of a run have one cache of facts and one of operators in common, and those of a group take
turns.  Still each of them comes to what it comes to alone, on an almanac of its own, as long as
computations give the same for parameters that are alike and nobody changes anything but the rules
(`run_apart`), and none of them is kept waiting for good by the others.  What is left to the order in
which rules were added is the order of results of one priority.
-/

namespace Rulebook

open Eval

/-! ### What a rule comes to -/

namespace Rule

/-- What a rule comes to, unless its evaluation fails. -/
def reckon (outlook : Outlook) (rule : Rule) : Option RuleResult :=
  (rule.conditions.reckonIn outlook depthLimit).map fun conditions => {
    name := rule.name
    priority := rule.priority
    event := rule.event.members
    conditions
    result := conditions.holds }

/-- How far the evaluation of a rule waits at most: requests are followed this deep, and each
condition, met by way of references or not, waits for those in it. -/
noncomputable def reach (named : Table Value Condition) (rule : Rule) : Nat :=
  depthLimit + 1 + depthLimit * sizeOf named + sizeOf rule.conditions

/-- The comparisons in a rule can be reckoned. -/
def Answered (reckoning : Reckoning) (almanac : Almanac) (named : Table Value Condition)
    (rule : Rule) : Prop :=
  ∀ leaf name priority,
    Condition.Meets named rule.conditions (.comparison leaf name priority) →
      reckoning.Answers almanac depthLimit leaf

variable {σ : Type} [HasSession σ] {reckoning : Reckoning} {start : Session} {rest : σ → Prop}

/-- What a rule is reckoned from when evaluation starts with a session. -/
def outlookOf (reckoning : Reckoning) (named : Table Value Condition) (start : Session) :
    Outlook where
  named := named
  almanac := start.almanac
  compare := reckoning.compare start

/-- Whatever goes on besides, a rule comes to what is reckoned for it. -/
theorem comes_evaluate (hsound : reckoning.Sound start.almanac)
    (hrest : Reckoning.SessionFree rest) (named : σ → Table Value Condition)
    {conditions : Table Value Condition} (hnamed : ∀ world, rest world → named world = conditions)
    {rule : Rule} (hanswered : rule.Answered reckoning start.almanac conditions) :
    Comes (reckoning.shared start rest) (rule.reach conditions) (rule.evaluate named)
      (·.toOption = rule.reckon (outlookOf reckoning conditions start)) := by
  have hforeseen : Condition.Foreseen (reckoning.shared start rest)
      ⟨Leaf.compare depthLimit, named⟩ (outlookOf reckoning conditions start) :=
    ⟨Reckoning.steady_shared hrest, fun _ world hworld => hnamed world hworld.2⟩
  have hconditions := Condition.comes_evaluateIn hforeseen
    (fun leaf name priority hmeets =>
      Reckoning.comes_compare hsound hrest (hanswered leaf name priority hmeets)) depthLimit
  rw [reckon, Option.map_eq_bind]
  refine hconditions.bind_toOption fun found _ => ?_
  refine (Reckoning.comes_count hrest .rules (outcomeLabel found.holds)).bind_ok ?_
  have htime : Comes (reckoning.shared start rest) (rule.reach conditions) (Session.update fun session =>
      { session with tally := session.tally.map Tally.time } : Eval σ Unit) (· = .ok ()) :=
    Reckoning.comes_update hrest fun _ _ hnow => hnow.aside rfl rfl
  exact htime.bind_ok (.outcome rfl)

end Rule

namespace Engine

open Session Stamped Reckoning

variable {η : Type} {handling : Handling η} {engine : Engine η} {entries : List RuntimeEntry}
  {reused : Option (Almanac × RunJournal)} {almanac : Almanac} {reckoning : Reckoning}

/-! ### What goes on besides the rules -/

/-- The session of an engine with an almanac. -/
def sessionOf (engine : Engine η) (almanac : Almanac) : Session where
  almanac := almanac
  registry := engine.registry
  tally := engine.tally
  notes := engine.notes

/-- What a rule comes to when it is evaluated alone, on an almanac of its own. -/
def alone (engine : Engine η) (almanac : Almanac) (rule : Rule) : Except Error RuleResult :=
  (Eval.run (engine.sessionOf almanac) (rule.evaluate fun _ => engine.conditions)).1

/-- What rules of the engine are reckoned from. -/
def outlook (engine : Engine η) (reckoning : Reckoning) (almanac : Almanac) : Outlook :=
  Rule.outlookOf reckoning engine.conditions (engine.sessionOf almanac)

/-- The engine with its run is left as it is, but for what is counted and noted. -/
def Still (scene now : Scene η) : Prop :=
  ∃ tally notes, now = HasSession.withSession
    { HasSession.session scene with tally, notes } scene

/-- The handlers of the engine change nothing, never fail, and wait only for what they start
themselves, no further than this. -/
def Serene (handling : Handling η) (engine : Engine η) (rank : Nat) : Prop :=
  ∀ event, ∀ call : Call η, call.handler ∈ engine.handlersOf event →
    Calm Still rank (handling call) ∧ (handling call).Unfailing

/-- Handlers neither take results away nor add any; and those of the engine change nothing, never
fail, and wait for nobody else. -/
structure Harmless (handling : Handling η) (engine : Engine η) : Prop where
  unobtrusive : ∀ call, Within (Unobtrusive True False call.stamp.run) (handling call)
  serene : ∃ rank, Serene handling engine rank

/-- The engine runs, its conditions and handlers are those of the start, and each result that was
recorded is what its rule comes to. -/
structure Untouched (engine : Engine η) (worth : Rule → Option RuleResult) (scene : Scene η) :
    Prop where
  status : scene.engine.status = .running
  conditions : scene.engine.conditions = engine.conditions
  handlers : scene.engine.handlers = engine.handlers
  results : ∀ entry ∈ scene.run.journal.results, ∃ rule,
    engine.runOrder[entry.stamp.place]? = some rule ∧ worth rule = some entry.item

variable {worth : Rule → Option RuleResult} {start : Session} {rule : Rule} {stamp : Stamp}
  {rank : Nat}

theorem sessionFree_untouched :
    SessionFree (Untouched (η := η) engine worth) :=
  fun _ _ h => ⟨h.status, h.conditions, h.handlers, h.results⟩

/-- What is done while a run goes on does not keep the rules from coming to what is reckoned. -/
abbrev amid (reckoning : Reckoning) (start : Session) (engine : Engine η)
    (worth : Rule → Option RuleResult) : List Task → Scene η → Prop :=
  shared reckoning start (Untouched engine worth)

theorem comes_onRun {change : Run η → Run η} (halmanac : ∀ run, (change run).almanac = run.almanac)
    (hresults : ∀ run, ∀ entry ∈ (change run).journal.results, entry ∈ run.journal.results ∨
      ∃ rule, engine.runOrder[entry.stamp.place]? = some rule ∧ worth rule = some entry.item) :
    Comes (amid reckoning start engine worth) rank (Act.onRun change) (· = .ok ()) := by
  refine .modify fun tasks scene h => ⟨h.1.aside (halmanac scene.run) rfl, ?_⟩
  obtain ⟨hstatus, hconditions, hhandlers, hold⟩ := h.2
  refine ⟨hstatus, hconditions, hhandlers, fun entry hentry => ?_⟩
  exact (hresults scene.run entry hentry).elim (hold entry) id

theorem comes_callEach (hserene : Serene handling engine rank) (result : Bool) (subject : Subject)
    (event : Value) {handlers : List η}
    (hhandlers : ∀ handler ∈ handlers, handler ∈ engine.handlersOf event) :
    Comes (amid reckoning start engine worth) rank
      (callEach handling rule result stamp subject handlers) (· = .ok ()) := by
  induction handlers with
  | nil => exact .outcome rfl
  | cons handler rest ih =>
      obtain ⟨hhandler, hrest⟩ := List.forall_mem_cons.1 hhandlers
      refine Comes.get_bind fun _ seen _ => ?_
      dsimp only
      generalize hcall : Call.mk handler stamp subject _ rule.name result = call
      obtain rfl : call.handler = handler := by rw [← hcall]
      obtain ⟨hcalm, hunfailing⟩ := hserene event call hhandler
      have hcalled : Comes (amid reckoning start engine worth) rank
          (Act.onRun fun run => { run with calls := run.calls ++ [call] }) (· = .ok ()) :=
        comes_onRun (fun _ => rfl) fun _ _ hentry => .inl hentry
      have hhandled : Comes (amid reckoning start engine worth) rank (handling call) (· = .ok ()) := by
        refine (hcalm.comes open_shared ?_).of_unfailing hunfailing
        rintro tasks scene _ ⟨tally, notes, rfl⟩ hscene
        exact shared_withSession sessionFree_untouched (hscene.1.aside rfl rfl) hscene.2
      exact hcalled.bind_ok (hhandled.bind_ok (ih hrest))

theorem comes_emit (hserene : Serene handling engine rank) (result : Bool) (event : Value)
    (subject : Subject) :
    Comes (amid reckoning start engine worth) rank (emit handling rule result stamp event subject)
      (· = .ok ()) := by
  refine Comes.get_bind fun _ seen hseen => comes_callEach hserene result subject event ?_
  intro handler hhandler
  rw [handlersOf, hseen.2.handlers] at hhandler
  exact hhandler

theorem comes_report (hserene : Serene handling engine rank) {result : RuleResult}
    (hplace : engine.runOrder[stamp.place]? = some rule) (hworth : worth rule = some result) :
    Comes (amid reckoning start engine worth) rank (report handling rule stamp result)
      (· = .ok ()) := by
  have hrecord : ∀ outcome, Comes (amid reckoning start engine worth) rank
      (record stamp result outcome) (· = .ok ()) := by
    refine fun outcome => comes_onRun (fun _ => rfl) fun run entry hentry => ?_
    rcases List.mem_append.1 hentry with hold | hnew
    · exact .inl hold
    · obtain rfl := List.mem_singleton.1 hnew
      exact .inr ⟨rule, hplace, hworth⟩
  have hemit : ∀ verdict event subject, Comes (amid reckoning start engine worth) rank
      (emit handling rule verdict stamp event subject) (· = .ok ()) := comes_emit hserene
  unfold report
  split
  · exact (hrecord _).bind_ok ((hemit true _ .event).bind_ok (hemit true _ .payload))
  · exact (hrecord _).bind_ok (hemit false _ .event)

/-! ### Rules, groups and runs -/

/-- What is reckoned for the rules of an engine, and what evaluations of them come to. -/
structure Reckons (reckoning : Reckoning) (almanac : Almanac) (engine : Engine η) : Prop where
  sound : reckoning.Sound almanac
  operators : Registry.Remembers Registry.Outdated engine.registry
  answered : ∀ rule ∈ engine.rules, rule.Answered reckoning almanac engine.conditions
  worth : ∀ rule ∈ engine.rules, ∃ result,
    rule.reckon (engine.outlook reckoning almanac) = some result

/-- What holds during a run of the engine. -/
abbrev duringRun (reckoning : Reckoning) (almanac : Almanac) (engine : Engine η) :
    List Task → Scene η → Prop :=
  amid reckoning (engine.sessionOf almanac) engine (Rule.reckon (engine.outlook reckoning almanac))

theorem comes_evaluateRule (h : Reckons reckoning almanac engine) (hrule : rule ∈ engine.rules)
    {result : RuleResult} (hworth : rule.reckon (engine.outlook reckoning almanac) = some result) :
    Comes (duringRun reckoning almanac engine) (rule.reach engine.conditions) (evaluateRule rule)
      (· = .ok result) := by
  have hevaluate : Comes (duringRun reckoning almanac engine) _ (rule.evaluate namedIn)
      (·.toOption = rule.reckon (engine.outlook reckoning almanac)) :=
    Rule.comes_evaluate h.sound sessionFree_untouched namedIn (fun _ hscene => hscene.conditions)
      (h.answered rule hrule)
  rw [hworth] at hevaluate
  refine hevaluate.attempt.bind (fun outcome houtcome => ?_) ?_
  · obtain ⟨_, hfound, hresult⟩ := houtcome
    obtain rfl := Except.ok.inj hfound
    cases outcome with
    | error e => cases hresult
    | ok found =>
        obtain rfl := Option.some.inj hresult
        exact .outcome rfl
  · rintro e ⟨found, hfound, _⟩
    cases hfound

/-- How far the evaluations of rules wait at most. -/
noncomputable def reach (engine : Engine η) : Nat :=
  depthLimit + 1 + depthLimit * sizeOf engine.conditions + sizeOf engine.rules

theorem reach_le (hrule : rule ∈ engine.rules) : rule.reach engine.conditions ≤ engine.reach := by
  have hsize := List.sizeOf_lt_of_mem hrule
  rw [Rule.mk.sizeOf_spec] at hsize
  rw [Rule.reach, reach]
  omega

theorem comes_process (h : Reckons reckoning almanac engine)
    (hserene : Serene handling engine rank) (hrule : rule ∈ engine.rules)
    (hplace : engine.runOrder[stamp.place]? = some rule) :
    Comes (duringRun reckoning almanac engine) (engine.reach + rank) (process handling rule stamp)
      (· = .ok ()) := by
  obtain ⟨result, hworth⟩ := h.worth rule hrule
  refine Comes.get_bind fun _ seen hseen => ?_
  rw [if_pos hseen.2.status]
  exact ((comes_evaluateRule h hrule hworth).raise (Nat.le_add_right_of_le (reach_le hrule))).bind_ok
    ((comes_report hserene hplace hworth).raise (Nat.le_add_left rank _))

/-- The rules of a group are where their stamps say. -/
def Placed (engine : Engine η) (group : List (Rule × Stamp)) : Prop :=
  ∀ entry ∈ group, entry.1 ∈ engine.rules ∧ engine.runOrder[entry.2.place]? = some entry.1

theorem exists_allOk {ι : Type} {items : List ι} {outcomes : List (Except Error Unit)}
    (h : List.Forall₂ (fun _ outcome => outcome = .ok ()) items outcomes) :
    ∃ results, Schedule.allOk outcomes = .ok results := by
  induction h with
  | nil => exact ⟨[], rfl⟩
  | cons houtcome _ ih =>
      obtain ⟨results, hresults⟩ := ih
      exact ⟨() :: results, by rw [houtcome, Schedule.allOk, hresults]; rfl⟩

theorem comes_runGroup (h : Reckons reckoning almanac engine)
    (hserene : Serene handling engine rank) {group : List (Rule × Stamp)}
    (hgroup : engine.Placed group) :
    Comes (duringRun reckoning almanac engine) (engine.reach + rank + 1) (runGroup handling group)
      (· = .ok ()) := by
  have hopen : Open (duringRun reckoning almanac engine) := open_shared
  have heach := Comes.each hopen fun entry hentry =>
    comes_process h hserene (hgroup entry hentry).1 (hgroup entry hentry).2
  refine heach.bind (fun outcomes houtcomes => ?_) ?_
  · obtain ⟨_, hfound, hall⟩ := houtcomes
    obtain rfl := Except.ok.inj hfound
    obtain ⟨results, hresults⟩ := exists_allOk hall
    rw [hresults]
    exact Comes.bind_ok (.outcome rfl) (.outcome rfl)
  · rintro e ⟨_, hfound, _⟩
    cases hfound

theorem comes_runGroups (h : Reckons reckoning almanac engine)
    (hserene : Serene handling engine rank) {groups : List (List (Rule × Stamp))}
    (hgroups : ∀ group ∈ groups, engine.Placed group) :
    Comes (duringRun reckoning almanac engine) (engine.reach + rank + 1)
      (runGroups handling groups) (· = .ok ()) := by
  induction groups with
  | nil => exact .outcome rfl
  | cons group rest ih =>
      obtain ⟨hgroup, hrest⟩ := List.forall_mem_cons.1 hgroups
      refine Comes.get_bind fun _ seen hseen => ?_
      rw [if_pos hseen.2.status]
      exact (comes_runGroup h hserene hgroup).bind_ok (ih hrest)

theorem placed_stamped {place : Nat} {groups : List (List Rule)}
    (horder : engine.runOrder.drop place = groups.flatten)
    (hrules : ∀ group ∈ groups, ∀ rule ∈ group, rule ∈ engine.rules) (number : Nat) :
    ∀ group ∈ stamped number place groups, engine.Placed group := by
  induction groups generalizing place with
  | nil => nofun
  | cons group rest ih =>
      obtain ⟨hgroup, hrest⟩ := List.forall_mem_cons.1 hrules
      rw [List.flatten_cons] at horder
      refine List.forall_mem_cons.2 ⟨fun entry hentry => ?_, ih ?_ hrest⟩
      · obtain ⟨i, hrule, hstamp⟩ := mem_stampedGroup hentry
        refine ⟨hgroup _ (List.mem_of_getElem? hrule), ?_⟩
        rw [hstamp, ← List.getElem?_drop, horder,
          List.getElem?_append_left (List.getElem?_eq_some_iff.1 hrule).1]
        exact hrule
      · rw [← List.drop_drop, horder, List.drop_left]

theorem placed_prioritized (hgrouped : Grouped engine) (number : Nat) :
    ∀ group ∈ stamped number 0 engine.prioritize.1, engine.Placed group := by
  refine placed_stamped rfl ?_ number
  rw [hgrouped.prioritize_fst]
  exact fun group hgroup rule hrule =>
    (batchesBy_perm _ _).mem_iff.1 (List.mem_flatten_of_mem hgroup hrule)

/-- Nothing has been recorded yet on the almanac of a run, and nothing computed. -/
structure Unused (reused : Option (Almanac × RunJournal)) : Prop where
  journal : journalBefore reused = Journal.empty
  cache : ∀ almanac journal, reused = some (almanac, journal) → almanac.cache = Cache.empty

theorem unused_none : Unused none := ⟨rfl, nofun⟩

/-- Facts and entries are added to the almanac before anything is computed on it. -/
theorem Unused.cache_eq (h : Unused reused)
    (hentries : (engine.almanacFor (reused.map (·.1))).addEntries entries = (almanac, none)) :
    almanac.cache = Cache.empty := by
  have hkept := (engine.almanacFor (reused.map (·.1))).cache_addEntries entries
  rw [hentries] at hkept
  refine hkept.trans ?_
  cases reused with
  | none => rfl
  | some given => exact h.cache given.1 given.2 rfl

/-- What holds during a run holds when it starts. -/
theorem duringRun_first (h : Reckons reckoning almanac engine) (hunused : Unused reused)
    (hentries : (engine.almanacFor (reused.map (·.1))).addEntries entries = (almanac, none))
    {tasks : List Task} (htasks : ∀ task ∈ tasks, task.job = none) :
    duringRun reckoning almanac engine tasks
      (firstScene engine almanac (journalBefore reused)) := by
  have hsession : HasSession.session (firstScene engine almanac (journalBefore reused)) =
      engine.sessionOf almanac := by
    unfold firstScene prioritize
    split <;> rfl
  have hkept := (Unaltered.refl h.operators).prioritize
  refine ⟨?_, rfl, hkept.conditions, hkept.handlers, ?_⟩
  · rw [hsession]
    exact agrees_start (hunused.cache_eq hentries) h.operators htasks
  · rw [hunused.journal]
    exact nofun

/-- Nothing is due any more at the end of a run.  There are so many turns that it takes a very long
run to fall short of this. -/
def Rests (handling : Handling η) (engine : Engine η) (entries : List RuntimeEntry)
    (reused : Option (Almanac × RunJournal)) : Prop :=
  ∀ loop, opening handling engine entries reused = some loop → (loop.run turnLimit).queue = []

theorem rests_of_queue {last : Nat} (hlast : last ≤ turnLimit)
    (h : (opening handling engine entries reused).map (fun loop => (loop.run last).queue.isEmpty) =
      some true) : Rests handling engine entries reused := by
  intro loop hopening
  rw [hopening, Option.map_some, Option.some.injEq, List.isEmpty_iff] at h
  rw [Strand.Loop.run_eq_of_queue_nil hlast h, h]

/-- The strand of a run comes to its end, and the results are those that are reckoned. -/
theorem untouched_run (h : Reckons reckoning almanac engine) (hharmless : Harmless handling engine)
    (hgrouped : Grouped engine) (hunused : Unused reused)
    (hentries : (engine.almanacFor (reused.map (·.1))).addEntries entries = (almanac, none))
    (hrests : Rests handling engine entries reused) :
    let result := Eval.run (firstScene engine almanac (journalBefore reused))
      (runGroups handling (stamped engine.runs 0 engine.prioritize.1))
    result.1 = .ok () ∧ ∃ tasks, duringRun reckoning almanac engine tasks result.2 := by
  obtain ⟨rank, hserene⟩ := hharmless.serene
  have hcomes := comes_runGroups h hserene (placed_prioritized hgrouped engine.runs)
  obtain ⟨hresult, huntouched⟩ := hcomes.run (duringRun_first h hunused hentries
    (List.forall_mem_singleton.2 rfl))
  refine ⟨hresult.resolve_right fun hstalled => hstalled.2 (hrests _ ?_), huntouched⟩
  rw [opening, hentries]

/-! ### What a run hands back -/

/-- What is handed back are the results that the rules of the engine come to alone, those that hold
apart from the others, in the order of the priorities and with their events.  The facts are those of
the start. -/
structure AsAlone (engine : Engine η) (almanac : Almanac) (returned : Returned) : Prop where
  results : ((returned.results ++ returned.failureResults).map Except.ok).Perm
    (engine.rules.map (engine.alone almanac))
  holds : ∀ result ∈ returned.results, result.result = true
  fails : ∀ result ∈ returned.failureResults, result.result = false
  sorted : returned.results.Pairwise fun result later =>
    result.priority.level ≤ later.priority.level
  failuresSorted : returned.failureResults.Pairwise fun result later =>
    result.priority.level ≤ later.priority.level
  events : returned.events = returned.results.map RuleResult.event
  failureEvents : returned.failureEvents = returned.failureResults.map RuleResult.event
  almanac : returned.almanac = { almanac with cache := returned.almanac.cache }

/-- When the results are those of all places in a list, they are those of its members. -/
theorem perm_of_places {α : Type} {items : List α} {results : List (Stamped RuleResult)}
    (hplaces : (Stamped.places results).Perm (List.range items.length))
    {f : α → Except Error RuleResult}
    (hresults : ∀ entry ∈ results, ∃ item,
      items[entry.stamp.place]? = some item ∧ f item = .ok entry.item) :
    (results.map fun entry => Except.ok entry.item).Perm (items.map f) := by
  refine (List.map_perm_map_iff (Option.some_injective _)).1 ?_
  have hitems : (items.map f).map some =
      (List.range items.length).map fun place => items[place]?.map f := by
    refine List.ext_getElem (by simp) fun place hplace _ => ?_
    have hlt : place < items.length := by simpa using hplace
    simp [hlt]
  have hfound : (results.map fun entry => (Except.ok entry.item : Except Error RuleResult)).map some =
      (Stamped.places results).map fun place => items[place]?.map f := by
    rw [Stamped.places, List.map_map, List.map_map]
    refine List.map_congr_left fun entry hentry => ?_
    obtain ⟨item, hitem, hf⟩ := hresults entry hentry
    rw [Function.comp_apply, Function.comp_apply, hitem, Option.map_some, hf]
  rw [hitems, hfound]
  exact hplaces.map _

/-- What is handed back by a run that does not fail, when its results are what the rules come to
alone. -/
theorem Complete.asAlone {ended : RunEnd η} (h : Complete engine ended.run.journal)
    (halone : ∀ entry ∈ ended.run.journal.results, ∃ rule,
      engine.runOrder[entry.stamp.place]? = some rule ∧
        engine.alone almanac rule = .ok entry.item)
    (halmanac : ended.run.almanac = { almanac with cache := ended.run.almanac.cache })
    (hreturns : ended.failure = none) :
    ∃ returned, ended.returned = .ok returned ∧ engine.AsAlone almanac returned := by
  obtain ⟨returned, hreturned, hsame, hsplits⟩ := h.exists_returned hreturns
  have hsorted : (ended.run.journal.results.map Stamped.item).Pairwise fun result later =>
      result.priority.level ≤ later.priority.level := List.pairwise_map.2 h.sorted
  refine ⟨returned, hreturned, ?_⟩
  constructor
  · have hresults := perm_of_places h.places halone
    rw [hsplits.results, hsplits.failureResults]
    refine ((List.filter_append_perm _ _).map _).trans ?_
    rw [List.map_map]
    exact hresults.trans (h.order.map _)
  · intro result hresult
    rw [hsplits.results] at hresult
    exact (List.mem_filter.1 hresult).2
  · intro result hresult
    rw [hsplits.failureResults] at hresult
    simpa using (List.mem_filter.1 hresult).2
  · rw [hsplits.results]
    exact hsorted.sublist List.filter_sublist
  · rw [hsplits.failureResults]
    exact hsorted.sublist List.filter_sublist
  · exact hsplits.events
  · exact hsplits.failureEvents
  · rw [hsame]
    exact halmanac

/-- A run hands back what the rules come to alone. -/
theorem exists_asAlone (h : Reckons reckoning almanac engine) (hharmless : Harmless handling engine)
    (hgrouped : Grouped engine) (hunused : Unused reused)
    (hentries : (engine.almanacFor (reused.map (·.1))).addEntries entries = (almanac, none))
    (halone : ∀ rule result, rule.reckon (engine.outlook reckoning almanac) = some result →
      rule ∈ engine.rules → engine.alone almanac rule = .ok result)
    (hrests : Rests handling engine entries reused) :
    ∃ returned, (engine.run handling entries reused).1.returned = .ok returned ∧
      engine.AsAlone almanac returned := by
  obtain ⟨hresult, tasks, hagrees, huntouched⟩ :=
    untouched_run h hharmless hgrouped hunused hentries hrests
  have hrun := run_started handling hentries
  have hreturns : (engine.run handling entries reused).1.failure = none := by
    rw [hrun]
    dsimp only
    rw [hresult]
  have hcomplete := complete_of_running hharmless.unobtrusive hgrouped hunused.journal hreturns
    (fun loop hopening => by
      rw [opening, hentries] at hopening
      obtain rfl := Option.some.inj hopening
      exact huntouched.status)
  refine hcomplete.asAlone (fun entry hentry => ?_) ?_ hreturns
  · rw [hrun] at hentry
    obtain ⟨rule, hrule, hworth⟩ := huntouched.results entry hentry
    have hmem : rule ∈ engine.rules := hcomplete.order.mem_iff.1 (List.mem_of_getElem? hrule)
    exact ⟨rule, hrule, halone rule entry.item hworth hmem⟩
  · rw [hrun]
    exact hagrees.almanac

/-! ### The order of the rules -/

/-- The results are the same but for the order of those of one priority. -/
structure SameInGroups (first second : List RuleResult) : Prop where
  levels : first.map (·.priority.level) = second.map (·.priority.level)
  groups : ∀ level, (first.filter (·.priority.level = level)).Perm
    (second.filter (·.priority.level = level))

theorem sameInGroups_of_perm {first second : List RuleResult} (h : first.Perm second)
    (hfirst : first.Pairwise fun result later => result.priority.level ≤ later.priority.level)
    (hsecond : second.Pairwise fun result later => result.priority.level ≤ later.priority.level) :
    SameInGroups first second where
  levels := (h.map _).eq_of_pairwise (fun _ _ _ _ => Nat.le_antisymm)
    (List.pairwise_map.2 hfirst) (List.pairwise_map.2 hsecond)
  groups _ := h.filter _

namespace AsAlone

variable {returned other : Returned} {rules : List Rule}

/-- In which order the rules were added makes no difference to what they come to. -/
theorem of_perm (h : (engine.withRules rules).AsAlone almanac returned)
    (hrules : rules.Perm engine.rules) : engine.AsAlone almanac returned :=
  { h with results := h.results.trans (hrules.map _) }

theorem perm_of_verdict (h : engine.AsAlone almanac returned)
    (hother : engine.AsAlone almanac other) :
    returned.results.Perm other.results ∧ returned.failureResults.Perm other.failureResults := by
  have hall : (returned.results ++ returned.failureResults).Perm
      (other.results ++ other.failureResults) :=
    (List.map_perm_map_iff fun _ _ heq => Except.ok.inj heq).1 (h.results.trans hother.results.symm)
  have hsplit : ∀ {found : Returned}, engine.AsAlone almanac found →
      (found.results ++ found.failureResults).filter RuleResult.result = found.results ∧
        (found.results ++ found.failureResults).filter (!·.result) = found.failureResults := by
    intro found hfound
    rw [List.filter_append, List.filter_append]
    constructor
    · rw [List.filter_eq_self.2 hfound.holds, List.filter_eq_nil_iff.2, List.append_nil]
      intro result hresult
      rw [hfound.fails result hresult]
      exact Bool.false_ne_true
    · rw [List.filter_eq_nil_iff.2, List.nil_append, List.filter_eq_self.2]
      · intro result hresult
        rw [hfound.fails result hresult]
        rfl
      · intro result hresult
        rw [hfound.holds result hresult]
        exact Bool.false_ne_true
  constructor
  · rw [← (hsplit h).1, ← (hsplit hother).1]
    exact hall.filter _
  · rw [← (hsplit h).2, ← (hsplit hother).2]
    exact hall.filter _

end AsAlone

/-! ### Rules that share a run -/

/-- A rule comes to what is reckoned for it when it is evaluated alone, unless that comes to no
end. -/
theorem toOption_alone (hsound : reckoning.Sound almanac)
    (hoperators : Registry.Remembers Registry.Outdated engine.registry)
    (hcache : almanac.cache = Cache.empty)
    (hanswered : rule.Answered reckoning almanac engine.conditions) :
    engine.alone almanac rule = .error .stalled ∨
      (engine.alone almanac rule).toOption = rule.reckon (engine.outlook reckoning almanac) := by
  have hcomes : Comes (shared reckoning (engine.sessionOf almanac) fun _ : Session => True)
      (rule.reach engine.conditions) (rule.evaluate fun _ => engine.conditions)
      (·.toOption = rule.reckon (engine.outlook reckoning almanac)) :=
    Rule.comes_evaluate hsound (fun _ _ _ => trivial) _ (fun _ _ => rfl) hanswered
  obtain ⟨hresult, _⟩ :=
    hcomes.run ⟨agrees_start hcache hoperators (List.forall_mem_singleton.2 rfl), trivial⟩
  exact hresult.symm.imp_left And.left

variable {rules others : List Rule}

theorem almanacFor_withRules (engine : Engine η) (rules : List Rule) (given : Option Almanac) :
    (engine.withRules rules).almanacFor given = engine.almanacFor given := by
  cases given <;> rfl

theorem exists_asAlone_withRules (hunused : Unused reused)
    (hentries : (engine.almanacFor (reused.map (·.1))).addEntries entries = (almanac, none))
    (hsound : reckoning.Sound almanac)
    (hoperators : Registry.Remembers Registry.Outdated engine.registry)
    (hanswered : ∀ rule ∈ engine.rules, rule.Answered reckoning almanac engine.conditions)
    (hharmless : Harmless handling engine)
    (halone : ∀ rule ∈ engine.rules, ∃ result, engine.alone almanac rule = .ok result)
    (hrules : rules.Perm engine.rules)
    (hrests : Rests handling (engine.withRules rules) entries reused) :
    ∃ returned, ((engine.withRules rules).run handling entries reused).1.returned = .ok returned ∧
      engine.AsAlone almanac returned := by
  have hcache := hunused.cache_eq hentries
  have hcomes : ∀ rule ∈ engine.rules, ∀ result, engine.alone almanac rule = .ok result →
      rule.reckon (engine.outlook reckoning almanac) = some result := by
    intro rule hrule result hresult
    rcases toOption_alone hsound hoperators hcache (hanswered rule hrule) with hstalled | hworth
    · cases hresult.symm.trans hstalled
    · rw [← hworth, hresult]
      rfl
  have hreckons : Reckons reckoning almanac (engine.withRules rules) := by
    refine ⟨hsound, hoperators, fun rule hrule => hanswered rule (hrules.mem_iff.1 hrule), ?_⟩
    intro rule hrule
    obtain ⟨result, hresult⟩ := halone rule (hrules.mem_iff.1 hrule)
    exact ⟨result, hcomes rule (hrules.mem_iff.1 hrule) result hresult⟩
  obtain ⟨returned, hreturned, hasAlone⟩ := exists_asAlone hreckons
    ⟨hharmless.unobtrusive, hharmless.serene⟩ (grouped_withRules engine rules) hunused
    (by rwa [almanacFor_withRules])
    (fun rule result hworth hrule => by
      obtain ⟨found, hfound⟩ := halone rule (hrules.mem_iff.1 hrule)
      obtain rfl := Option.some.inj
        ((hcomes rule (hrules.mem_iff.1 hrule) found hfound).symm.trans hworth)
      exact hfound) hrests
  exact ⟨returned, hreturned, hasAlone.of_perm hrules⟩

/-- Rules that share a run do not influence each other.  The computations of an engine give the same
for parameters that are alike and never fail, its handlers change nothing and wait for nobody else,
and none of its rules fails.  Then, in whichever order its rules were added, a run on an almanac that
was not used before hands back what they come to alone, each on an almanac of its own; and two orders
make no difference but to the order of results of one priority. -/
theorem run_apart (hunused : Unused reused)
    (hentries : (engine.almanacFor (reused.map (·.1))).addEntries entries = (almanac, none))
    (hsound : reckoning.Sound almanac)
    (hoperators : Registry.Remembers Registry.Outdated engine.registry)
    (hanswered : ∀ rule ∈ engine.rules, rule.Answered reckoning almanac engine.conditions)
    (hharmless : Harmless handling engine)
    (halone : ∀ rule ∈ engine.rules, ∃ result, engine.alone almanac rule = .ok result)
    (hrules : rules.Perm engine.rules) (hothers : others.Perm engine.rules)
    (hrests : Rests handling (engine.withRules rules) entries reused)
    (hothersRest : Rests handling (engine.withRules others) entries reused) :
    ∃ returned other,
      ((engine.withRules rules).run handling entries reused).1.returned = .ok returned ∧
        ((engine.withRules others).run handling entries reused).1.returned = .ok other ∧
          engine.AsAlone almanac returned ∧ engine.AsAlone almanac other ∧
            SameInGroups returned.results other.results ∧
              SameInGroups returned.failureResults other.failureResults := by
  obtain ⟨returned, hreturned, hasAlone⟩ := exists_asAlone_withRules hunused hentries hsound
    hoperators hanswered hharmless halone hrules hrests
  obtain ⟨other, hother, hotherAlone⟩ := exists_asAlone_withRules hunused hentries hsound
    hoperators hanswered hharmless halone hothers hothersRest
  obtain ⟨hresults, hfailures⟩ := hasAlone.perm_of_verdict hotherAlone
  exact ⟨returned, other, hreturned, hother, hasAlone, hotherAlone,
    sameInGroups_of_perm hresults hasAlone.sorted hotherAlone.sorted,
    sameInGroups_of_perm hfailures hasAlone.failuresSorted hotherAlone.failuresSorted⟩

/-! ### Rules that share a spelling -/

/-- A comparison of the spelling of no parameters. -/
def spells (fact operator : String) : Leaf := ⟨fact, operator, .str "\x7b\x7d", none, none⟩

/-- A rule that compares a spelling. -/
def speller (name type : String) (priority : Priority) (leaf : Leaf) : Rule where
  name := some name
  priority := priority
  event := ⟨type, none⟩
  conditions := .all [.comparison leaf none none] none Priority.first

/-- Two rules of one priority, which ask for the same spelling and come to different verdicts. -/
def equalSpeller : Rule := speller "a" "x" Priority.first (spells "text" "equal")

@[inherit_doc equalSpeller]
def unequalSpeller : Rule := speller "b" "y" Priority.first (spells "text" "notEqual")

/-- A rule that comes after them. -/
def pairSpeller : Rule :=
  speller "c" "z" ((Priority.ofInt? 2).getD Priority.first) (spells "pair" "notEqual")

/-- An engine with these rules, and with a handler that lets others go first. -/
def spellingEngine : Engine Catalogue.Handler :=
  { equipped [equalSpeller, unequalSpeller, pairSpeller]
      [(.str "success", [⟨.str "N", .nothing, true⟩])] with
    facts := spelling.facts }

theorem answers_spells (fact operator : String) :
    spelled.Answers spelling depthLimit (spells fact operator) where
  fact := by
    refine ⟨fun found program _ => ⟨by rfl, Fact.normalParams_normalParams _⟩, by decide, ?_⟩
    intro found program _
    simp only [spelled, depthLimit]
    split <;> omega
  value request hrequest := by
    cases hrequest

theorem answered_speller (name type : String) (priority : Priority) (fact operator : String) :
    (speller name type priority (spells fact operator)).Answered spelled spelling [] := by
  intro leaf name' priority' hmeets
  obtain heq | ⟨next, hleads, hrest⟩ := hmeets.cases_head
  · cases heq
  · cases hleads with
    | all _ _ hmem =>
        obtain rfl := List.mem_singleton.1 hmem
        obtain heq | ⟨_, hnone, _⟩ := hrest.cases_head
        · cases heq
          exact answers_spells fact operator
        · cases hnone

theorem harmless_spellingEngine : Harmless Catalogue.handle spellingEngine where
  unobtrusive call :=
    (Catalogue.within_handle call fun _ => trivial).mono fun _ _ hnow => hnow.unobtrusive False
  serene := by
    refine ⟨0, fun event call hcall => ?_⟩
    have hnothing : call.handler = ⟨.str "N", .nothing, true⟩ := by
      refine forall_mem_handlersOf (P := (· = _)) (fun handlers hhandlers => ?_) event _ hcall
      obtain rfl := List.mem_singleton.1 hhandlers
      exact fun handler hhandler => List.mem_singleton.1 hhandler
    refine ⟨?_, Catalogue.unfailing_handle (by rw [hnothing])⟩
    rw [Catalogue.handle, hnothing]
    exact .bind .pause fun _ => .outcome _

/-- The rules in two orders: one rule's value is there when the other one asks for it, and in the end
each of them comes to what it comes to alone. -/
theorem run_apart_spellingEngine :
    let entries : List RuntimeEntry := [.value (.str "given") (.int 1)]
    let run := fun rules => ((spellingEngine.withRules rules).run Catalogue.handle entries none).1
    (spellingEngine.almanacFor none).addEntries entries = (spelling, none) ∧
      (∀ rule ∈ spellingEngine.rules, ∃ result, spellingEngine.alone spelling rule = .ok result) ∧
      ∃ returned other,
        (run [equalSpeller, unequalSpeller, pairSpeller]).returned = .ok returned ∧
          (run [pairSpeller, unequalSpeller, equalSpeller]).returned = .ok other ∧
            spellingEngine.AsAlone spelling returned ∧ spellingEngine.AsAlone spelling other ∧
              SameInGroups returned.results other.results ∧
                SameInGroups returned.failureResults other.failureResults := by
  intro entries run
  have halone : ∀ rule ∈ spellingEngine.rules, ∃ result,
      spellingEngine.alone spelling rule = .ok result := by
    have hsome : ∀ rule ∈ spellingEngine.rules,
        (spellingEngine.alone spelling rule).toOption.isSome = true := by decide +kernel
    intro rule hrule
    have hresult := hsome rule hrule
    cases halone : spellingEngine.alone spelling rule with
    | ok result => exact ⟨result, rfl⟩
    | error e =>
        rw [halone] at hresult
        cases hresult
  have hanswered : ∀ rule ∈ spellingEngine.rules,
      rule.Answered spelled spelling spellingEngine.conditions := by
    intro rule hrule
    have hcases : rule = equalSpeller ∨ rule = unequalSpeller ∨ rule = pairSpeller := by
      simpa [spellingEngine, equipped, withRules] using hrule
    rcases hcases with rfl | rfl | rfl <;> exact answered_speller _ _ _ _ _
  have hfirst : Rests Catalogue.handle
      (spellingEngine.withRules [equalSpeller, unequalSpeller, pairSpeller]) entries none :=
    rests_of_queue (show 100 ≤ turnLimit by decide) (by decide +kernel)
  have hsecond : Rests Catalogue.handle
      (spellingEngine.withRules [pairSpeller, unequalSpeller, equalSpeller]) entries none :=
    rests_of_queue (show 100 ≤ turnLimit by decide) (by decide +kernel)
  exact ⟨rfl, halone, run_apart unused_none rfl sound_spelled (Registry.remembers_withDefaults _)
    hanswered harmless_spellingEngine halone (.refl _) (List.reverse_perm spellingEngine.rules)
    hfirst hsecond⟩

end Engine

end Rulebook
