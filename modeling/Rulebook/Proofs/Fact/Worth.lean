import Rulebook.Proofs.Fact.Answering

/-!
What a definition is worth by itself.

The value of a constant is given, and a computation gives an outcome if it comes to that whatever its
requests are answered; so a definition has a worth for given parameters (`Fact.worth`), which has
nothing to do with what is remembered.  A request that is made alone is answered with what is
remembered for its signature, or else with what the definition is worth, and what is remembered from
then on is what definitions that are in force are worth (`Poised.alone_factValue`).  Nothing is
assumed about the ids under which definitions stand, and computations may fail.
-/

namespace Rulebook

open Eval Session

/-- The outcome of a computation all requests of which are answered with nothing. -/
def Program.outcome : Program → Except Error Value
  | .done value => .ok value
  | .fail e => .error e
  | .ask _ next => (next (.ok .null)).outcome
  | .note _ _ next => (next 0).outcome
  | .pause next => next.outcome

/-- A computation comes to this outcome, whatever its requests are answered and however many calls
were noted before.  All of its requests are permitted ones. -/
inductive Program.Gives (permitted : FactRequest → Prop) : Program → Except Error Value → Prop where
  | done (value : Value) : Gives permitted (.done value) (.ok value)
  | fail (e : Error) : Gives permitted (.fail e) (.error e)
  | ask {request : FactRequest} {next : Except Error Value → Program} {result : Except Error Value}
      (asks : permitted request) (goesOn : ∀ answer, Gives permitted (next answer) result) :
      Gives permitted (.ask request next) result
  | note {label : String} {params : Value} {next : Nat → Program} {result : Except Error Value}
      (goesOn : ∀ n, Gives permitted (next n) result) : Gives permitted (.note label params next) result
  | pause {next : Program} {result : Except Error Value} (goesOn : Gives permitted next result) :
      Gives permitted (.pause next) result

/-- What a definition gives for these parameters: its constant, or what its computation comes to. -/
def Fact.worth (fact : Fact) (params : Value) : Except Error Value :=
  match fact.source with
  | .constant value => .ok value
  | .computed program => (program (Fact.normalParams params)).outcome

/-- What is remembered for a fact and parameters, if its values are remembered. -/
def Cache.recall? (cache : Cache) (fact : Fact) (params : Value) : Option (Except Error Value) :=
  (fact.signatureText? params).bind fun signature => (cache.find? signature).bind Job.outcome

namespace Almanac

variable {almanac : Almanac} {request : FactRequest}

/-- Computations for the request rank lower than this.  Computations are ranked by their
signatures. -/
def Below (almanac : Almanac) (rank : String → Nat) (limit : Nat) (request : FactRequest) : Prop :=
  0 < limit ∧ ∀ fact program, Reckoning.Computes almanac request.fact fact program →
    rank (Fact.signatureText fact.id request.params) < limit

/-- Computations are functions of their parameters, and ask only for what ranks lower. -/
def Grounded (almanac : Almanac) (rank : String → Nat) : Prop :=
  ∀ id fact program, Reckoning.Computes almanac id fact program → ∀ params,
    (program (Fact.normalParams params)).Gives
      (almanac.Below rank (rank (Fact.signatureText fact.id params))) (fact.worth params)

/-- The value of a definition in this almanac: what is remembered, or else what it is worth. -/
def valueOf (almanac : Almanac) (fact : Fact) (params : Value) : Except Error Value :=
  (almanac.cache.recall? fact params).getD (fact.worth params)

/-- The reply to a request: the value given for the occasion if there is one, else that of the
definition. -/
def reply (almanac : Almanac) (request : FactRequest) : Except Error Value :=
  match almanac.lookup request.fact with
  | .error e => .error e
  | .ok .undefined =>
      if almanac.allowUndefinedFacts then .ok .null else .error (.undefinedFact request.fact)
  | .ok (.value value) => almanac.applyPath value request.path
  | .ok (.computed fact _) => do
      almanac.applyPath (← almanac.valueOf fact request.params) request.path

end Almanac

/-- A finished job of a remembered fact that the almanac has in force, with what that is worth. -/
def Job.Records (job : Job) (almanac : Almanac) : Prop :=
  ∃ id fact program params, Reckoning.Computes almanac id fact program ∧ fact.cacheable = true ∧
    job.signature = Fact.signatureText fact.id params ∧ job.outcome = some (fact.worth params)

/-- Requests led from one session to another: nothing has changed in the almanac but the cache, and
each job that was started is finished and records what a fact of the almanac is worth. -/
structure Furthers (almanac : Almanac) (before after : Session) : Prop where
  frame : after.almanac = { before.almanac with cache := after.almanac.cache }
  jobs : ∃ added, after.almanac.cache.jobs = before.almanac.cache.jobs ++ added ∧
    ∀ job ∈ added, job.Records almanac
  coherent : before.almanac.cache.Coherent [] → after.almanac.cache.Coherent []

/-- The session has the almanac with some cache, and jobs that are still running rank at least as
high as the bound. -/
structure Poised (almanac : Almanac) (rank : String → Nat) (bound : Nat) (session : Session) :
    Prop where
  frame : session.almanac = { almanac with cache := session.almanac.cache }
  coherent : session.almanac.cache.Coherent []
  running : ∀ job ∈ session.almanac.cache.jobs, job.outcome = none → bound ≤ rank job.signature

variable {almanac : Almanac} {rank : String → Nat} {bound : Nat} {request : FactRequest}
  {fact : Fact} {program : Value → Program} {before after last world : Session}

theorem worth_of_computes {id : Value} (h : Reckoning.Computes almanac id fact program)
    (params : Value) : fact.worth params = (program (Fact.normalParams params)).outcome := by
  rw [Fact.worth, (Reckoning.computes_iff.1 h).2.2.2]

/-! ### What requests lead to -/

/-- What has nothing to do with the almanac. -/
theorem Furthers.aside (h : after.almanac = before.almanac) : Furthers almanac before after where
  frame := by rw [h]
  jobs := ⟨[], by rw [h, List.append_nil], fun _ hjob => nomatch hjob⟩
  coherent hcoherent := by rwa [h]

theorem Furthers.trans (h : Furthers almanac before after) (hlast : Furthers almanac after last) :
    Furthers almanac before last where
  frame := by
    rw [hlast.frame]
    dsimp only
    rw [h.frame]
  jobs := by
    obtain ⟨added, hadded, hrecords⟩ := h.jobs
    obtain ⟨more, hmore, hrecords'⟩ := hlast.jobs
    refine ⟨added ++ more, by rw [hmore, hadded, List.append_assoc], ?_⟩
    exact List.forall_mem_append.2 ⟨hrecords, hrecords'⟩
  coherent hcoherent := hlast.coherent (h.coherent hcoherent)

theorem Poised.mono (h : Poised almanac rank bound world) {lower : Nat} (hle : lower ≤ bound) :
    Poised almanac rank lower world where
  frame := h.frame
  coherent := h.coherent
  running job hjob hrunning := Nat.le_trans hle (h.running job hjob hrunning)

theorem Furthers.poised (h : Furthers almanac before after)
    (hpoised : Poised almanac rank bound before) : Poised almanac rank bound after where
  frame := by
    rw [h.frame]
    dsimp only
    rw [hpoised.frame]
  coherent := h.coherent hpoised.coherent
  running job hjob hrunning := by
    obtain ⟨added, hadded, hrecords⟩ := h.jobs
    rw [hadded, List.mem_append] at hjob
    rcases hjob with hold | hnew
    · exact hpoised.running job hold hrunning
    · obtain ⟨_, _, _, _, _, _, _, houtcome⟩ := hrecords job hnew
      rw [hrunning] at houtcome
      cases houtcome

/-- A job that stands and has come to a value stands later, if jobs are only added. -/
theorem Cache.Coherent.find?_of_prefix {cache later : Cache} {signature : String} {job : Job}
    {value : Value} (hcoherent : cache.Coherent []) (hlater : later.Coherent [])
    (hleads : cache.jobs <+: later.jobs) (hfind : cache.find? signature = some job)
    (houtcome : job.outcome = some (.ok value)) : later.find? signature = some job := by
  obtain ⟨number, hstands, hjob⟩ := Option.bind_eq_some_iff.1 hfind
  obtain ⟨found, hfound, hsignature⟩ := hcoherent.stands signature number hstands
  obtain rfl := Option.some.inj (hjob.symm.trans hfound)
  have hkept : later.jobs[number]? = some job := by
    rw [← hjob, List.prefix_iff_getElem?.1 hleads number (List.getElem?_eq_some_iff.1 hjob).1]
    exact (List.getElem?_eq_getElem _).symm
  have hstands' := hlater.stands_of_not_failed hkept (Job.not_failed_of_ok houtcome)
  rw [hsignature] at hstands'
  rw [Cache.find?, hstands', Option.bind_some, hkept]

/-- What stands, where no failure is due to be heard of, has not failed. -/
theorem Cache.Coherent.not_failed_of_find? {cache : Cache} {signature : String} {job : Job}
    (hcoherent : cache.Coherent []) (hfind : cache.find? signature = some job) :
    job ∈ cache.jobs ∧ job.signature = signature ∧ ¬ job.Failed := by
  obtain ⟨number, hstands, hjob⟩ := Option.bind_eq_some_iff.1 hfind
  obtain ⟨found, hfound, rfl⟩ := hcoherent.stands signature number hstands
  obtain rfl := Option.some.inj (hjob.symm.trans hfound)
  refine ⟨List.mem_of_getElem? hjob, rfl, fun hfailed => ?_⟩
  exact absurd ((hcoherent.standing number job hjob).1 hstands hfailed) List.not_mem_nil

theorem Cache.recall?_eq_some_iff {cache : Cache} {params : Value} {result : Except Error Value} :
    cache.recall? fact params = some result ↔ fact.cacheable = true ∧
      ∃ job, cache.find? (Fact.signatureText fact.id params) = some job ∧
        job.outcome = some result := by
  rw [Cache.recall?, Fact.signatureText?]
  split
  · next hcacheable => simp [hcacheable, Option.bind_eq_some_iff]
  · next hnot => simp [hnot]

/-! ### Computations that are remembered -/

/-- A job was started for a signature that none stood for, and now it is finished with what the fact
is worth. -/
theorem Furthers.finished {strand : Nat} {params : Value} {result : Except Error Value}
    (hcomputes : Reckoning.Computes almanac request.fact fact program)
    (hcacheable : fact.cacheable = true)
    (hfree : before.almanac.cache.entries.find? (Fact.signatureText fact.id params) = none)
    (hresult : result = fact.worth params)
    (h : Furthers almanac
      (before.onCache fun cache => cache.start (Fact.signatureText fact.id params) strand) after) :
    Furthers almanac before
      (Fact.evicting before.almanac.cache.nextJob
        (after.onCache fun cache => cache.complete before.almanac.cache.nextJob result)) := by
  let job := before.almanac.cache.nextJob
  let running : Job := ⟨Fact.signatureText fact.id params, strand, none⟩
  obtain ⟨added, hadded, hrecords⟩ := h.jobs
  obtain ⟨hadded, hrunning⟩ : after.almanac.cache.jobs =
      before.almanac.cache.jobs ++ running :: added ∧
        after.almanac.cache.jobs[job]? = some running := Cache.jobs_of_start hadded
  constructor
  · have hframe := h.frame
    simp only [Session.onCache] at hframe
    rw [Fact.evicting]
    simp only [HasSession.session, HasSession.withSession, Session.onCache, id]
    rw [hframe]
  · refine ⟨{ running with outcome := some result } :: added, ?_, ?_⟩
    · exact (Cache.jobs_evict _ job).trans (Reckoning.jobs_complete hadded rfl result)
    · refine List.forall_mem_cons.2 ⟨?_, hrecords⟩
      exact ⟨_, fact, program, params, hcomputes, hcacheable, rfl, by rw [hresult]⟩
  · intro hcoherent
    have hafter := h.coherent (hcoherent.start hfree strand)
    have hevicted := (hafter.complete hrunning rfl result).evict job
    rwa [List.nil_append, List.filter_singleton, bne_self_eq_false, cond_false] at hevicted

/-- A job that has just come to a value stands, and with that value. -/
theorem find?_finished {cache : Cache} {job : Nat} {running : Job} {value : Value} {due : List Nat}
    (hcoherent : cache.Coherent due) (hrunning : cache.jobs[job]? = some running)
    (hnone : running.outcome = none) :
    ((cache.complete job (.ok value)).evict job).find? running.signature =
      some { running with outcome := some (.ok value) } := by
  have hfinal : (cache.complete job (.ok value)).jobs[job]? =
      some { running with outcome := some (.ok value) } := by
    rw [Cache.getElem?_complete, if_pos rfl, hrunning, Option.map_some, hnone, Option.none_or]
  have hok : ¬ Job.Failed { running with outcome := some (.ok value) } := Job.not_failed_of_ok rfl
  have hstands := (hcoherent.complete hrunning hnone (.ok value)).stands_of_not_failed hfinal hok
  rw [Cache.evict_of_not_failed hfinal hok, Cache.find?]
  dsimp only at hstands
  rw [hstands, Option.bind_some, hfinal]

namespace Poised

/-- What a request comes to, and what it leads to: it gets its reply, and the value of a remembered
fact is remembered afterwards. -/
structure Answered (almanac : Almanac) (world : Session) (request : FactRequest)
    (result : Except Error Value) (after : Session) : Prop where
  reply : result = world.almanac.reply request
  furthers : Furthers almanac world after
  kept : ∀ fact program value, Reckoning.Computes almanac request.fact fact program →
    fact.cacheable = true → world.almanac.valueOf fact request.params = .ok value →
      after.almanac.cache.recall? fact request.params = some (.ok value)

/-- A computation that is a function of its parameters, given what its requests lead to. -/
theorem alone_run {permitted : FactRequest → Prop} {ask : FactRequest → Eval Session Value}
    {program : Program} {result : Except Error Value} (hgives : program.Gives permitted result)
    (hask : ∀ request world, permitted request → Poised almanac rank bound world →
      Alone world (ask request) (Answered almanac world request))
    (hpoised : Poised almanac rank bound world) :
    Alone world (program.run ask) fun outcome after =>
      outcome = result ∧ Furthers almanac world after := by
  induction hgives generalizing world with
  | done value => exact Alone.outcome ⟨rfl, .aside rfl⟩
  | fail e => exact Alone.outcome ⟨rfl, .aside rfl⟩
  | @ask request next _ hasks _ ih =>
      refine (hask request world hasks hpoised).attempt.bind_ok ?_
      intro answer after hanswered
      refine (ih answer (hanswered.furthers.poised hpoised)).imp ?_
      exact fun _ _ hlast => ⟨hlast.1, hanswered.furthers.trans hlast.2⟩
  | @note label params next _ _ ih =>
      have hnoted : Furthers almanac world
          { world with notes := world.notes ++ [(label, params)] } := .aside rfl
      refine (alone_note label params).bind_ok ?_
      rintro n after rfl
      refine (ih n (hnoted.poised hpoised)).imp ?_
      exact fun _ _ hlast => ⟨hlast.1, hnoted.trans hlast.2⟩
  | pause _ ih =>
      refine Alone.pause.bind_ok ?_
      rintro _ after rfl
      exact ih hpoised

theorem alone_compute (hgrounded : almanac.Grounded rank)
    (hcomputes : Reckoning.Computes almanac request.fact fact program)
    {ask : FactRequest → Eval Session Value}
    (hask : ∀ asked world,
      almanac.Below rank (rank (Fact.signatureText fact.id request.params)) asked →
        Poised almanac rank (rank (Fact.signatureText fact.id request.params)) world →
          Alone world (ask asked) (Answered almanac world asked))
    (hpoised : Poised almanac rank (rank (Fact.signatureText fact.id request.params)) world) :
    Alone world (fact.compute ask program (Fact.normalParams request.params)) fun result after =>
      result = fact.worth request.params ∧ Furthers almanac world after := by
  have hcounted : Furthers almanac world (world.counting .computations fact.label) := .aside rfl
  refine alone_update_bind (Session.counting .computations fact.label) ?_
  refine (alone_run (hgrounded _ fact program hcomputes request.params) hask
    (hcounted.poised hpoised)).imp ?_
  exact fun _ _ hlast => ⟨hlast.1, hcounted.trans hlast.2⟩

/-- A job that stands for the signature of a request that ranks below the bound is finished. -/
theorem outcome_of_find? (hpoised : Poised almanac rank bound world) {signature : String} {job : Job}
    (hfind : world.almanac.cache.find? signature = some job) (hrank : rank signature < bound) :
    ∃ result, job.outcome = some result := by
  obtain ⟨hmem, rfl, -⟩ := hpoised.coherent.not_failed_of_find? hfind
  apply Option.ne_none_iff_exists'.1
  intro hrunning
  have hle := hpoised.running job hmem hrunning
  omega

/-- The value of a computed fact was found, and what that leads to. -/
structure Valued (almanac : Almanac) (world : Session) (fact : Fact) (params : Value)
    (result : Except Error Value) (after : Session) : Prop where
  value : result = world.almanac.valueOf fact params
  furthers : Furthers almanac world after
  kept : fact.cacheable = true → ∀ value, result = .ok value →
    after.almanac.cache.recall? fact params = some (.ok value)

theorem alone_remember (hpoised : Poised almanac rank bound world)
    (hcomputes : Reckoning.Computes almanac request.fact fact program)
    (hcacheable : fact.cacheable = true)
    (hrank : rank (Fact.signatureText fact.id request.params) < bound)
    {computation : Eval Session Value}
    (hcomputation : ∀ world,
      Poised almanac rank (rank (Fact.signatureText fact.id request.params)) world →
        Alone world computation fun result after =>
          result = fact.worth request.params ∧ Furthers almanac world after) :
    Alone world (fact.remember (Fact.signatureText fact.id request.params) computation)
      (Valued almanac world fact request.params) := by
  apply Rulebook.alone_remember
  · intro job hfind
    obtain ⟨result, houtcome⟩ := hpoised.outcome_of_find? hfind hrank
    have hrecalled : world.almanac.cache.recall? fact request.params = some result :=
      Cache.recall?_eq_some_iff.2 ⟨hcacheable, job, hfind, houtcome⟩
    refine ⟨result, houtcome, ?_, .aside rfl, ?_⟩
    · rw [Almanac.valueOf, hrecalled, Option.getD_some]
    · rintro _ value rfl
      exact hrecalled
  · intro hfind strand
    let missed := world.counting .cacheMisses fact.label
    have hmissed : Furthers almanac world missed := .aside rfl
    have hfree : missed.almanac.cache.entries.find?
        (Fact.signatureText fact.id request.params) = none := hpoised.coherent.find?_eq_none.1 hfind
    have hstarted : Poised almanac rank (rank (Fact.signatureText fact.id request.params))
        (missed.onCache fun cache =>
          cache.start (Fact.signatureText fact.id request.params) strand) := by
      refine ⟨?_, hpoised.coherent.start hfree strand, ?_⟩
      · have hframe := hpoised.frame
        simp only [Session.onCache, missed, Session.counting] at hframe ⊢
        rw [hframe]
      · intro job hjob hrunning
        rcases List.mem_append.1 hjob with hold | hnew
        · exact (hpoised.mono hrank.le).running job hold hrunning
        · rw [List.mem_singleton.1 hnew]
    refine (hcomputation _ hstarted).imp ?_
    rintro result after ⟨hresult, hfurthers⟩
    refine ⟨?_, hmissed.trans (hfurthers.finished hcomputes hcacheable hfree hresult), ?_⟩
    · rw [Almanac.valueOf, Cache.recall?, Fact.signatureText?, if_pos hcacheable, Option.bind_some,
        hfind, hresult]
      rfl
    · rintro _ value rfl
      have hrunning : after.almanac.cache.jobs[world.almanac.cache.nextJob]? =
          some ⟨Fact.signatureText fact.id request.params, strand, none⟩ := by
        obtain ⟨added, hadded, _⟩ := hfurthers.jobs
        rw [hadded]
        simp [Session.onCache, missed, Session.counting, Cache.start, Cache.nextJob]
      exact Cache.recall?_eq_some_iff.2 ⟨hcacheable, _, find?_finished
        (hfurthers.coherent (hpoised.coherent.start hfree strand)) hrunning rfl, rfl⟩

theorem alone_unremembered (hnot : fact.cacheable = false) {computation : Eval Session Value}
    (hcomputation : Alone world computation fun result after =>
      result = fact.worth request.params ∧ Furthers almanac world after) :
    Alone world computation (Valued almanac world fact request.params) := by
  refine hcomputation.imp ?_
  rintro result after ⟨hresult, hfurthers⟩
  refine ⟨?_, hfurthers, fun hcacheable => ?_⟩
  · rw [Almanac.valueOf, Cache.recall?, Fact.signatureText?, hnot]
    exact hresult
  · rw [hnot] at hcacheable
    cases hcacheable

/-- The path is applied to the value of a computed fact in the end. -/
theorem alone_applyPath (hframe : world.almanac = { almanac with cache := world.almanac.cache })
    (hcomputes : Reckoning.Computes almanac request.fact fact program) {step : Eval Session Value}
    (h : Alone world step (Valued almanac world fact request.params)) :
    Alone world (step >>= fun value => Eval.outcome (almanac.applyPath value request.path))
      (Answered almanac world request) := by
  have hlookup : world.almanac.lookup request.fact = .ok (.computed fact program) := by
    rw [hframe]
    exact hcomputes
  have hpath : world.almanac.applyPath = almanac.applyPath := by
    rw [hframe]
    rfl
  have hreply : world.almanac.reply request = world.almanac.valueOf fact request.params >>=
      fun value => almanac.applyPath value request.path := by
    rw [Almanac.reply, hlookup, hpath]
  apply h.bind
  · intro value after hvalued
    refine Alone.outcome ⟨?_, hvalued.furthers, ?_⟩
    · rw [hreply, ← hvalued.value]
      rfl
    · intro other _ found hother hcacheable hfound
      obtain ⟨rfl, rfl⟩ := hcomputes.unique hother
      rw [← hvalued.value] at hfound
      exact hvalued.kept hcacheable found hfound
  · intro e after hvalued
    refine ⟨?_, hvalued.furthers, ?_⟩
    · rw [hreply, ← hvalued.value]
      rfl
    · intro other _ found hother _ hfound
      obtain ⟨rfl, rfl⟩ := hcomputes.unique hother
      rw [← hvalued.value] at hfound
      cases hfound

/-- Nothing has to be computed for the request. -/
theorem alone_outcome {result : Except Error Value} (hresult : result = world.almanac.reply request)
    (hnot : ∀ fact program, ¬ Reckoning.Computes almanac request.fact fact program) :
    Alone world (Eval.outcome result) (Answered almanac world request) :=
  Alone.outcome ⟨hresult, .aside rfl, fun fact program _ hcomputes =>
    absurd hcomputes (hnot fact program)⟩

theorem alone_answer (hgrounded : almanac.Grounded rank) (hbelow : almanac.Below rank bound request)
    {ask : FactRequest → Eval Session Value}
    (hask : ∀ asked world lower, lower < bound → almanac.Below rank lower asked →
      Poised almanac rank lower world → Alone world (ask asked) (Answered almanac world asked))
    (hpoised : Poised almanac rank bound world) :
    Alone world (request.answer ask) (Answered almanac world request) := by
  have hframe := hpoised.frame
  have hlookup : world.almanac.lookup request.fact = almanac.lookup request.fact := by
    rw [hframe]
    rfl
  have hpath : world.almanac.applyPath = almanac.applyPath := by
    rw [hframe]
    rfl
  have hallow : world.almanac.allowUndefinedFacts = almanac.allowUndefinedFacts := by
    rw [hframe]
  apply alone_current_bind
  dsimp only
  rw [hlookup, hpath, hallow]
  cases hfound : almanac.lookup request.fact with
  | error e =>
      apply alone_outcome
      · rw [Almanac.reply, hlookup, hfound]
      · simp [Reckoning.Computes, hfound]
  | ok entry =>
      cases entry with
      | undefined =>
          have hnot : ∀ fact program, ¬ Reckoning.Computes almanac request.fact fact program := by
            simp [Reckoning.Computes, hfound]
          have hreply : world.almanac.reply request = if almanac.allowUndefinedFacts then .ok .null
              else .error (.undefinedFact request.fact) := by
            rw [Almanac.reply, hlookup, hfound]
            dsimp only
            rw [hallow]
          dsimp only
          split
          · next hallowed => exact alone_outcome (by rw [hreply, if_pos hallowed]) hnot
          · next hrefused => exact alone_outcome (by rw [hreply, if_neg hrefused]) hnot
      | value value =>
          apply alone_outcome
          · rw [Almanac.reply, hlookup, hfound, hpath]
          · simp [Reckoning.Computes, hfound]
      | computed fact program =>
          have hrank := hbelow.2 fact program hfound
          have hasks := fun asked world => hask asked world _ hrank
          dsimp only
          rw [Fact.signatureText?, Fact.signatureText_normalParams]
          by_cases hcacheable : fact.cacheable = true
          · rw [if_pos hcacheable]
            apply alone_applyPath hframe hfound
            exact hpoised.alone_remember hfound hcacheable hrank fun _ =>
              alone_compute hgrounded hfound hasks
          · rw [if_neg hcacheable]
            apply alone_applyPath hframe hfound
            apply alone_unremembered (Bool.eq_false_of_not_eq_true hcacheable)
            exact alone_compute hgrounded hfound hasks (hpoised.mono hrank.le)

/-- A request that is made alone gets its reply, as long as no job is waited for that is not
finished. -/
theorem alone_factValue (hgrounded : almanac.Grounded rank) {depth : Nat} (hle : bound ≤ depth)
    (hbelow : almanac.Below rank bound request) (hpoised : Poised almanac rank bound world) :
    Alone world (factValue depth request) (Answered almanac world request) := by
  induction depth generalizing bound request world with
  | zero => exact absurd hbelow.1 (Nat.not_lt.2 hle)
  | succ depth ih =>
      refine alone_answer hgrounded hbelow ?_ hpoised
      intro asked world lower hlower hbelow hpoised
      exact ih (Nat.le_of_lt_succ (Nat.lt_of_lt_of_le hlower hle)) hbelow hpoised

end Poised

end Rulebook
