import Rulebook.Proofs.Fact.Worth

/-!
Definitions that take the place of others.

Between requests, facts and values are entered into an almanac, and facts are supplied that it does
not have.  Entering a fact does not touch the cache, where values are remembered by the own id of a
fact and the parameters.  So a request is answered by the definition in force unless a value is
remembered, and what is remembered is what some definition with that id was worth when an earlier
request was made; it is kept ever after (`Bid.exists_settles`).
-/

namespace Rulebook

open Eval

/-- What an almanac is bidden: something is entered, the facts of a table are supplied, or a request
is made. -/
inductive Bid where
  | enter (entry : RuntimeEntry)
  | supply (facts : Table Value Fact)
  | ask (request : FactRequest)

namespace Almanac

/-- What the almanac has in force after a bid.  An entry that is refused changes nothing. -/
def enact (almanac : Almanac) : Bid → Almanac
  | .enter entry => (almanac.addEntry entry).toOption.getD almanac
  | .supply facts => almanac.addMissing facts
  | .ask _ => almanac

/-- Wherever a request is made, computations are functions of their parameters, and rank below the
depth to which requests are followed. -/
def Allows (rank : String → Nat) (depth : Nat) : Almanac → List Bid → Prop
  | _, [] => True
  | almanac, .ask request :: bids =>
      almanac.Grounded rank ∧ almanac.Below rank depth request ∧ almanac.Allows rank depth bids
  | almanac, bid :: bids => (almanac.enact bid).Allows rank depth bids

end Almanac

namespace Bid

/-- One bid after the other leads from a session to another, each request being answered before the
next one. -/
inductive Leads (depth : Nat) : Session → List Bid → Session → Prop where
  | nil (session : Session) : Leads depth session [] session
  | enter {session last : Session} {bids : List Bid} (entry : RuntimeEntry)
      (rest : Leads depth
        { session with almanac := session.almanac.enact (.enter entry) } bids last) :
      Leads depth session (.enter entry :: bids) last
  | supply {session last : Session} {bids : List Bid} (facts : Table Value Fact)
      (rest : Leads depth
        { session with almanac := session.almanac.enact (.supply facts) } bids last) :
      Leads depth session (.supply facts :: bids) last
  | ask {session after last : Session} {bids : List Bid} {request : FactRequest}
      {result : Except Error Value} (first : Settles session (factValue depth request) result after)
      (rest : Leads depth after bids last) : Leads depth session (.ask request :: bids) last

/-- When one of the requests was made, this was a job for a fact that was in force then. -/
def Records (depth : Nat) (session : Session) (bids : List Bid) (job : Job) : Prop :=
  ∃ earlier request later middle, bids = earlier ++ .ask request :: later ∧
    Leads depth session earlier middle ∧ job.Records middle.almanac

/-- When one of the requests was made, a fact was in force that shares its signature with this one
and gave this value. -/
def Remembers (depth : Nat) (session : Session) (bids : List Bid) (fact : Fact)
    (params value : Value) : Prop :=
  ∃ earlier request later middle, bids = earlier ++ .ask request :: later ∧
    Leads depth session earlier middle ∧ ∃ id other program params',
      Reckoning.Computes middle.almanac id other program ∧ other.cacheable = true ∧
        Fact.signatureText other.id params' = Fact.signatureText fact.id params ∧
          other.worth params' = .ok value

variable {rank : String → Nat} {depth : Nat} {almanac : Almanac} {session after last : Session}
  {bids more : List Bid} {request : FactRequest}

/-- Bids lead to one session. -/
theorem Leads.unique (h : Leads depth session bids after) (hother : Leads depth session bids last) :
    after = last := by
  induction h with
  | nil session =>
      cases hother
      rfl
  | enter entry _ ih =>
      cases hother with
      | enter _ hrest => exact ih hrest
  | supply facts _ ih =>
      cases hother with
      | supply _ hrest => exact ih hrest
  | ask hfirst _ ih =>
      cases hother with
      | ask hfirst' hrest' =>
          obtain ⟨-, rfl⟩ := hfirst.unique hfirst'
          exact ih hrest'

/-- Bids and then others. -/
theorem leads_append : Leads depth session (bids ++ more) last ↔
    ∃ middle, Leads depth session bids middle ∧ Leads depth middle more last := by
  constructor
  · intro h
    induction bids generalizing session with
    | nil => exact ⟨session, .nil session, h⟩
    | cons bid bids ih =>
        cases h with
        | enter entry hrest =>
            obtain ⟨middle, hmiddle, hlast⟩ := ih hrest
            exact ⟨middle, .enter entry hmiddle, hlast⟩
        | supply facts hrest =>
            obtain ⟨middle, hmiddle, hlast⟩ := ih hrest
            exact ⟨middle, .supply facts hmiddle, hlast⟩
        | ask hfirst hrest =>
            obtain ⟨middle, hmiddle, hlast⟩ := ih hrest
            exact ⟨middle, .ask hfirst hmiddle, hlast⟩
  · rintro ⟨middle, hmiddle, hlast⟩
    induction hmiddle with
    | nil session => exact hlast
    | enter entry _ ih => exact .enter entry (ih hlast)
    | supply facts _ ih => exact .supply facts (ih hlast)
    | ask hfirst _ ih => exact .ask hfirst (ih hlast)

/-- What is in force after a bid has nothing to do with the cache. -/
theorem enact_withCache (almanac : Almanac) (cache : Cache) (bid : Bid) :
    { almanac with cache }.enact bid = { almanac.enact bid with cache } := by
  cases bid with
  | enter entry =>
      cases entry with
      | value id value =>
          simp only [Almanac.enact, Almanac.addEntry, Almanac.addRuntimeFact]
          split
          · rfl
          · split <;> rfl
      | fact fact =>
          simp only [Almanac.enact, Almanac.addEntry, Almanac.addFact]
          split <;> rfl
  | supply facts => rfl
  | ask request => rfl

theorem cache_enact (almanac : Almanac) (bid : Bid) :
    (almanac.enact bid).cache = almanac.cache := by
  have h := congrArg Almanac.cache (enact_withCache almanac almanac.cache bid)
  exact h

/-- What is in force changes, and what is remembered does not. -/
theorem poised_enact (h : Poised almanac rank depth session) (bid : Bid) :
    Poised (almanac.enact bid) rank depth
      { session with almanac := session.almanac.enact bid } where
  frame := by
    dsimp only
    rw [cache_enact, h.frame, enact_withCache]
  coherent := by
    dsimp only
    rw [cache_enact]
    exact h.coherent
  running := by
    dsimp only
    rw [cache_enact]
    exact h.running

theorem Records.cons {bid : Bid} {middle : Session}
    (hbid : ∀ bids last, Leads depth middle bids last → Leads depth session (bid :: bids) last)
    {job : Job} (h : Records depth middle bids job) : Records depth session (bid :: bids) job := by
  obtain ⟨earlier, request, later, middle', rfl, hleads, hrecords⟩ := h
  exact ⟨bid :: earlier, request, later, middle', rfl, hbid _ _ hleads, hrecords⟩

/-- Bids lead somewhere, and every job that is started meanwhile is for a fact that was in force
when a request was made. -/
theorem exists_leads (hallows : almanac.Allows rank depth bids)
    (hpoised : Poised almanac rank depth session) :
    ∃ after added, Leads depth session bids after ∧
      Poised (bids.foldl Almanac.enact almanac) rank depth after ∧
        after.almanac.cache.jobs = session.almanac.cache.jobs ++ added ∧
          ∀ job ∈ added, Records depth session bids job := by
  induction bids generalizing almanac session with
  | nil =>
      exact ⟨session, [], .nil session, hpoised, (List.append_nil _).symm, fun _ h => nomatch h⟩
  | cons bid bids ih =>
      cases bid with
      | enter entry =>
          obtain ⟨after, added, hleads, hafter, hjobs, hrecords⟩ :=
            ih hallows (poised_enact hpoised (.enter entry))
          refine ⟨after, added, .enter entry hleads, hafter, ?_, ?_⟩
          · rw [hjobs]
            dsimp only
            rw [cache_enact]
          · exact fun job hjob => (hrecords job hjob).cons fun _ _ => .enter entry
      | supply facts =>
          obtain ⟨after, added, hleads, hafter, hjobs, hrecords⟩ :=
            ih hallows (poised_enact hpoised (.supply facts))
          refine ⟨after, added, .supply facts hleads, hafter, ?_, ?_⟩
          · rw [hjobs]
            dsimp only
            rw [cache_enact]
          · exact fun job hjob => (hrecords job hjob).cons fun _ _ => .supply facts
      | ask request =>
          obtain ⟨hgrounded, hbelow, hrest⟩ := hallows
          obtain ⟨result, middle, hsettles, hanswered⟩ :=
            (Poised.alone_factValue hgrounded (Nat.le_refl depth) hbelow hpoised).settles
          obtain ⟨added, hadded, hfirst⟩ := hanswered.furthers.jobs
          obtain ⟨after, others, hleads, hafter, hjobs, hrecords⟩ :=
            ih hrest (hanswered.furthers.poised hpoised)
          refine ⟨after, added ++ others, .ask hsettles hleads, hafter, ?_, ?_⟩
          · rw [hjobs, hadded, List.append_assoc]
          · refine List.forall_mem_append.2 ⟨fun job hjob => ?_, fun job hjob => ?_⟩
            · refine ⟨[], request, bids, session, rfl, .nil session, ?_⟩
              rw [hpoised.frame]
              exact hfirst job hjob
            · exact (hrecords job hjob).cons fun _ _ => .ask hsettles

theorem allows_append : almanac.Allows rank depth (bids ++ more) ↔
    almanac.Allows rank depth bids ∧ (bids.foldl Almanac.enact almanac).Allows rank depth more := by
  induction bids generalizing almanac with
  | nil => exact (and_iff_right trivial).symm
  | cons bid bids ih =>
      cases bid with
      | enter entry => exact ih
      | supply facts => exact ih
      | ask request =>
          simp only [List.cons_append, Almanac.Allows, List.foldl_cons, Almanac.enact, ih,
            and_assoc]

/-- What is remembered is what a fact was worth that was in force when a request was made. -/
theorem remembers_of_recall? (hcoherent : after.almanac.cache.Coherent [])
    (hrecords : ∀ job ∈ after.almanac.cache.jobs, Records depth session bids job) {fact : Fact}
    {params : Value} {result : Except Error Value}
    (hrecall : after.almanac.cache.recall? fact params = some result) :
    ∃ value, result = .ok value ∧ Remembers depth session bids fact params value := by
  obtain ⟨-, job, hfind, houtcome⟩ := Cache.recall?_eq_some_iff.1 hrecall
  obtain ⟨hmem, hsignature, hnot⟩ := hcoherent.not_failed_of_find? hfind
  cases result with
  | error e => exact absurd ⟨e, houtcome⟩ hnot
  | ok value =>
      obtain ⟨earlier, request, later, middle, hbids, hleads, id, other, program, params',
        hcomputes, hcacheable, hsame, hworth⟩ := hrecords job hmem
      refine ⟨value, rfl, earlier, request, later, middle, hbids, hleads, id, other, program,
        params', hcomputes, hcacheable, hsame.symm.trans hsignature, ?_⟩
      exact (Option.some.inj (houtcome.symm.trans hworth)).symm

/-- What is remembered is kept, whatever is entered. -/
theorem recall?_of_leads {middle : Session} (hallows : almanac.Allows rank depth (bids ++ more))
    (hpoised : Poised almanac rank depth session) (hleads : Leads depth session bids middle)
    (hlast : Leads depth middle more last) {fact : Fact} {params value : Value}
    (hrecall : middle.almanac.cache.recall? fact params = some (.ok value)) :
    last.almanac.cache.recall? fact params = some (.ok value) := by
  obtain ⟨hfirst, hsecond⟩ := allows_append.1 hallows
  obtain ⟨_, _, hmiddle, hpoised', -⟩ := exists_leads hfirst hpoised
  obtain rfl := hmiddle.unique hleads
  obtain ⟨_, added, hend, hpoised'', hjobs, -⟩ := exists_leads hsecond hpoised'
  obtain rfl := hend.unique hlast
  obtain ⟨hcacheable, job, hfind, houtcome⟩ := Cache.recall?_eq_some_iff.1 hrecall
  have hstands := hpoised'.coherent.find?_of_prefix hpoised''.coherent ⟨added, hjobs.symm⟩ hfind
    houtcome
  exact Cache.recall?_eq_some_iff.2 ⟨hcacheable, job, hstands, houtcome⟩

theorem poised_of_empty (hempty : session.almanac.cache = Cache.empty) :
    Poised session.almanac rank depth session where
  frame := rfl
  coherent := by
    rw [hempty]
    exact Cache.coherent_empty
  running job hjob := by
    rw [hempty] at hjob
    cases hjob

/-- Bids on an almanac that starts with nothing remembered, and a request after them.  The request
gets its reply, which for a computed fact is what the definition in force is worth unless a value is
remembered for its signature.  Such a value is what some fact was worth that was in force when an
earlier request was made, with that signature; what a request finds is remembered, and it is kept
whatever is entered after that. -/
theorem exists_settles (hempty : session.almanac.cache = Cache.empty)
    (hallows : session.almanac.Allows rank depth (bids ++ [.ask request])) :
    ∃ after last, Leads depth session bids after ∧
      after.almanac =
        { bids.foldl Almanac.enact session.almanac with cache := after.almanac.cache } ∧
      Settles after (factValue depth request) (after.almanac.reply request) last ∧
      (∀ fact params result, after.almanac.cache.recall? fact params = some result →
        ∃ value, result = .ok value ∧ Remembers depth session bids fact params value) ∧
      (∀ fact program value, Reckoning.Computes after.almanac request.fact fact program →
        fact.cacheable = true → after.almanac.valueOf fact request.params = .ok value →
          last.almanac.cache.recall? fact request.params = some (.ok value)) ∧
      ∀ earlier later middle fact params value, bids = earlier ++ later →
        Leads depth session earlier middle →
          middle.almanac.cache.recall? fact params = some (.ok value) →
            after.almanac.cache.recall? fact params = some (.ok value) := by
  have hpoised : Poised session.almanac rank depth session := poised_of_empty hempty
  obtain ⟨hfirst, hgrounded, hbelow, -⟩ := allows_append.1 hallows
  obtain ⟨after, added, hleads, hafter, hjobs, hrecords⟩ := exists_leads hfirst hpoised
  obtain ⟨result, last, hsettles, hanswered⟩ :=
    (Poised.alone_factValue hgrounded (Nat.le_refl depth) hbelow hafter).settles
  refine ⟨after, last, hleads, hafter.frame, hanswered.reply ▸ hsettles, ?_, ?_, ?_⟩
  · intro fact params result hrecall
    rw [hempty, show Cache.empty.jobs = [] from rfl, List.nil_append] at hjobs
    exact remembers_of_recall? hafter.coherent (hjobs ▸ hrecords) hrecall
  · intro fact program value hcomputes
    rw [hafter.frame] at hcomputes
    exact hanswered.kept fact program value hcomputes
  · rintro earlier later middle fact params value rfl hmiddle hrecall
    obtain ⟨middle', hmiddle', hlater⟩ := leads_append.1 hleads
    obtain rfl := hmiddle'.unique hmiddle
    exact recall?_of_leads hfirst hpoised hmiddle' hlater hrecall

/-! ### A definition in place of another -/

/-- A fact that is computed, and has this value. -/
def giving (value : Value) : Fact :=
  ⟨.str "x", FactOptions.default, .computed fun _ => .done value⟩

/-- A request for that fact. -/
def forValue : FactRequest := ⟨.str "x", .null, .null⟩

/-- A fact is entered and asked for, and then another one is entered in its place. -/
def redefining : List Bid :=
  [.enter (.fact (giving (.int 1))), .ask forValue, .enter (.fact (giving (.int 2)))]

/-- A session in which nothing is known. -/
def unknowing : Session := ⟨Almanac.empty, Registry.empty, some Tally.empty, []⟩

/-- An almanac in which the fact has this value. -/
def holding (value : Value) : Almanac :=
  { Almanac.empty with facts := [(.str "x", giving value)] }

theorem enact_empty (value : Value) :
    Almanac.empty.enact (.enter (.fact (giving value))) = holding value := rfl

theorem enact_holding (value other : Value) :
    (holding value).enact (.enter (.fact (giving other))) = holding other := by
  simp [Almanac.enact, Almanac.addEntry, Almanac.addFact, Table.insert, Value.hashable,
    Except.toOption, holding, giving]

theorem computes_holding (value : Value) :
    Reckoning.Computes (holding value) (.str "x") (giving value) fun _ => .done value := by
  simp [Reckoning.computes_iff, holding, giving, Almanac.empty, Table.find?, Value.hashable]

theorem grounded_holding (value : Value) : (holding value).Grounded fun _ => 0 := by
  intro id fact program hcomputes params
  rw [worth_of_computes hcomputes]
  obtain ⟨_, _, hfound, hsource⟩ := Reckoning.computes_iff.1 hcomputes
  obtain ⟨_, _, hmem⟩ := Table.exists_mem_of_find? hfound
  obtain ⟨_, rfl⟩ := Prod.mk.inj (List.mem_singleton.1 hmem)
  obtain rfl := FactSource.computed.inj hsource
  exact .done value

theorem below_holding (value : Value) :
    (holding value).Below (fun _ => 0) depthLimit forValue :=
  ⟨Nat.zero_lt_succ _, fun _ _ _ => Nat.zero_lt_succ _⟩

theorem foldl_redefining : redefining.foldl Almanac.enact Almanac.empty = holding (.int 2) :=
  enact_holding (.int 1) (.int 2)

theorem allows_redefining :
    unknowing.almanac.Allows (fun _ => 0) depthLimit (redefining ++ [.ask forValue]) := by
  simp only [redefining, List.cons_append, List.nil_append, Almanac.Allows, unknowing, enact_empty,
    enact_holding]
  exact ⟨grounded_holding _, below_holding _, grounded_holding _, below_holding _, trivial⟩

theorem exists_settles_redefining :
    unknowing.almanac.cache = Cache.empty ∧
      unknowing.almanac.Allows (fun _ => 0) depthLimit (redefining ++ [.ask forValue]) ∧
      ∃ after last, Leads depthLimit unknowing redefining after ∧
        after.almanac =
          { redefining.foldl Almanac.enact unknowing.almanac with cache := after.almanac.cache } ∧
        Settles after (factValue depthLimit forValue) (after.almanac.reply forValue) last ∧
        (∀ fact params result, after.almanac.cache.recall? fact params = some result →
          ∃ value, result = .ok value ∧
            Remembers depthLimit unknowing redefining fact params value) ∧
        (∀ fact program value, Reckoning.Computes after.almanac (.str "x") fact program →
          fact.cacheable = true → after.almanac.valueOf fact .null = .ok value →
            last.almanac.cache.recall? fact .null = some (.ok value)) ∧
        ∀ earlier later middle fact params value, redefining = earlier ++ later →
          Leads depthLimit unknowing earlier middle →
            middle.almanac.cache.recall? fact params = some (.ok value) →
              after.almanac.cache.recall? fact params = some (.ok value) :=
  ⟨rfl, allows_redefining, exists_settles rfl allows_redefining⟩

/-- Wherever computations are functions of their parameters, a request for a computed fact is
answered with what the definition in force is worth. -/
def AnswersInForce (depth : Nat) (session : Session) : Prop :=
  ∀ rank bids request after last fact program result,
    session.almanac.Allows rank depth (bids ++ [.ask request]) → Leads depth session bids after →
      Reckoning.Computes after.almanac request.fact fact program →
        Settles after (factValue depth request) result last →
          result = fact.worth request.params >>= fun value =>
            after.almanac.applyPath value request.path

/-- What was asked for between the two definitions is remembered. -/
theorem recall?_redefining {after : Session} (h : Leads depthLimit unknowing redefining after) :
    after.almanac.cache.recall? (giving (.int 1)) .null = some (.ok (.int 1)) := by
  let defined : Session := ⟨holding (.int 1), Registry.empty, some Tally.empty, []⟩
  have hpoised : Poised defined.almanac (fun _ => 0) depthLimit defined := poised_of_empty rfl
  obtain ⟨result, middle, hsettles, hanswered⟩ :=
    (Poised.alone_factValue (grounded_holding (.int 1)) (Nat.le_refl depthLimit)
      (below_holding (.int 1)) hpoised).settles
  have hrecall := hanswered.kept _ _ (.int 1) (computes_holding (.int 1)) rfl rfl
  cases h with
  | enter _ hrest =>
      cases hrest with
      | ask hfirst hrest =>
          obtain ⟨-, rfl⟩ := hsettles.unique hfirst
          cases hrest with
          | enter _ hrest =>
              cases hrest
              rw [cache_enact]
              exact hrecall

/-- The second definition is answered for with the value of the first. -/
theorem not_answersInForce_unknowing : ¬ AnswersInForce depthLimit unknowing := by
  intro hanswers
  obtain ⟨hfirst, hgrounded, hbelow, -⟩ := allows_append.1 allows_redefining
  obtain ⟨after, _, hleads, hafter, -⟩ := exists_leads hfirst (poised_of_empty rfl)
  obtain ⟨result, last, hsettles, hanswered⟩ :=
    (Poised.alone_factValue hgrounded (Nat.le_refl depthLimit) hbelow hafter).settles
  have hcomputes : Reckoning.Computes after.almanac (.str "x") (giving (.int 2))
      fun _ => .done (.int 2) := by
    rw [hafter.frame, show unknowing.almanac = Almanac.empty from rfl, foldl_redefining]
    exact computes_holding (.int 2)
  have hwrong := hanswers _ _ _ _ _ _ _ _ allows_redefining hleads hcomputes hsettles
  -- The two definitions share their signature, so what is remembered for one is so for the other.
  have hrecall : after.almanac.cache.recall? (giving (.int 2)) .null = some (.ok (.int 1)) :=
    recall?_redefining hleads
  have hreply : after.almanac.reply forValue = .ok (.int 1) := by
    rw [Almanac.reply, show after.almanac.lookup forValue.fact = _ from hcomputes]
    dsimp only
    rw [Almanac.valueOf, show forValue.params = .null from rfl, hrecall]
    rfl
  have hworth : ((giving (.int 2)).worth forValue.params >>= fun value =>
      after.almanac.applyPath value forValue.path) = .ok (.int 2) := rfl
  rw [hanswered.reply, hreply, hworth] at hwrong
  cases hwrong

end Bid

end Rulebook
