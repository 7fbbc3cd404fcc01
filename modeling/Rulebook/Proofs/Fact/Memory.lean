import Rulebook.Proofs.Alone
import Rulebook.Proofs.Fact.Coherence
import Rulebook.Proofs.Fact.Reckoning
import Rulebook.Proofs.Session

/-!
What requests that are made one after the other leave behind.

`Progress` ties the sessions before and after some requests to the computations that were made for
them, in the order in which they began: each of them is counted, and those of remembered facts have
each a finished job of its own in the cache.  `alone_factValue` says that a request is answered as it
is reckoned and makes such progress, provided that the cache is `Ready`: all of its jobs have the
values that are reckoned, or go deeper than the request and so are not waited for.
-/

namespace Rulebook

/-- A computation that was made: for which fact, with which parameters, and what it asked for. -/
structure Calculation where
  name : String
  params : Value
  asked : List FactRequest

namespace Calculation

/-- The text that tells the computation from others. -/
def signature (made : Calculation) : String := Fact.signatureText (.str made.name) made.params

/-- The request is one for this computation. -/
def Meets (made : Calculation) (request : FactRequest) : Prop :=
  request.fact = .str made.name ∧ made.params = Fact.normalParams request.params

/-- A fact of the almanac makes this computation, for parameters that it accepts. -/
def Genuine (reckoning : Reckoning) (almanac : Almanac) (made : Calculation) : Prop :=
  ∃ fact program, Reckoning.Computes almanac (.str made.name) fact program ∧
    reckoning.accepts made.name made.params ∧
      (program made.params).Asks (reckoning.answer almanac) made.asked

/-- All requests: those from outside, and those that computations made. -/
def requests (direct : List FactRequest) (made : List Calculation) : List FactRequest :=
  direct ++ made.flatMap asked

end Calculation

/-- Are values of the fact remembered?  Not if a value is given for the occasion. -/
def Almanac.remembers (almanac : Almanac) (name : String) : Bool :=
  match almanac.lookup (.str name) with
  | .ok (.computed fact _) => fact.cacheable
  | _ => false

/-- How many computations were counted for a fact, if anything is counted. -/
def Session.computations (session : Session) (name : String) : Option Nat :=
  session.tally.map fun tally => tally.amount .computations name

namespace Reckoning

variable {reckoning : Reckoning} {almanac : Almanac} {request : FactRequest} {fact : Fact}
  {program : Value → Program} {before after last world : Session} {bound : Nat}
  {asked more : List FactRequest} {made others : List Calculation}

/-- A finished job for a computation, with the value that is reckoned. -/
def Finished (reckoning : Reckoning) (made : Calculation) (job : Job) : Prop :=
  job.signature = made.signature ∧
    job.outcome = some (.ok (reckoning.value made.name made.params))

/-- There was a job for the request, if it is for a remembered fact. -/
def Served (almanac : Almanac) (cache : Cache) (request : FactRequest) : Prop :=
  ∀ fact program, Computes almanac request.fact fact program → fact.cacheable = true →
    ∃ job ∈ cache.jobs, job.signature = Fact.signatureText fact.id request.params

/-- Some requests led from one session to another, and these computations were made for them. -/
structure Progress (reckoning : Reckoning) (almanac : Almanac) (before after : Session)
    (asked : List FactRequest) (made : List Calculation) : Prop where
  frame : after.almanac = { before.almanac with cache := after.almanac.cache }
  jobs : ∃ added, after.almanac.cache.jobs = before.almanac.cache.jobs ++ added ∧
    List.Forall₂ reckoning.Finished
      (made.filter fun calculation => almanac.remembers calculation.name) added
  coherent : before.almanac.cache.Coherent [] → after.almanac.cache.Coherent []
  counted : ∀ name, after.computations name = (before.computations name).map fun count =>
    count + made.countP fun calculation => calculation.name = name
  genuine : ∀ calculation ∈ made, calculation.Genuine reckoning almanac
  served : ∀ request ∈ Calculation.requests asked made, Served almanac after.almanac.cache request
  caused : ∀ calculation ∈ made, ∃ request ∈ Calculation.requests asked made,
    calculation.Meets request

/-- The session has the almanac with some cache, the jobs of which have the values that are
reckoned; those without an outcome go at least as deep as the bound. -/
structure Ready (reckoning : Reckoning) (almanac : Almanac) (bound : Nat) (session : Session) :
    Prop where
  frame : session.almanac = { almanac with cache := session.almanac.cache }
  coherent : session.almanac.cache.Coherent []
  jobs : ∀ job ∈ session.almanac.cache.jobs, ∃ name params,
    reckoning.accepts name (Fact.normalParams params) ∧
      job.signature = Fact.signatureText (.str name) params ∧
        (job.outcome = some (.ok (reckoning.value name (Fact.normalParams params))) ∨
          job.outcome = none ∧ bound ≤ reckoning.depth name (Fact.normalParams params))

/-! ### Progress -/

theorem remembers_of_computes {name : String} (h : Computes almanac (.str name) fact program) :
    almanac.remembers name = fact.cacheable := by
  rw [Almanac.remembers, h]

theorem Served.mono {cache later : Cache} (h : Served almanac cache request)
    (hleads : cache.jobs <+: later.jobs) : Served almanac later request := by
  intro fact program hcomputes hcacheable
  obtain ⟨job, hjob, hsignature⟩ := h fact program hcomputes hcacheable
  exact ⟨job, hleads.subset hjob, hsignature⟩

theorem Progress.prefix_jobs (h : Progress reckoning almanac before after asked made) :
    before.almanac.cache.jobs <+: after.almanac.cache.jobs := by
  obtain ⟨added, hadded, _⟩ := h.jobs
  exact ⟨added, hadded.symm⟩

/-- What has nothing to do with the cache or with computations. -/
theorem Progress.aside (halmanac : after.almanac = before.almanac)
    (hcounts : ∀ name, after.computations name = before.computations name) :
    Progress reckoning almanac before after [] [] where
  frame := by rw [halmanac]
  jobs := ⟨[], by rw [halmanac, List.append_nil], .nil⟩
  coherent h := by rwa [halmanac]
  counted name := by
    rw [hcounts]
    exact Option.map_id'.symm
  genuine _ h := nomatch h
  served _ h := nomatch h
  caused _ h := nomatch h

theorem mem_requests_append {found : FactRequest} :
    found ∈ Calculation.requests (asked ++ more) (made ++ others) ↔
      found ∈ Calculation.requests asked made ∨ found ∈ Calculation.requests more others := by
  simp only [Calculation.requests, List.flatMap_append, List.mem_append]
  tauto

/-- Requests and then others. -/
theorem Progress.trans (h : Progress reckoning almanac before after asked made)
    (hlast : Progress reckoning almanac after last more others) :
    Progress reckoning almanac before last (asked ++ more) (made ++ others) where
  frame := by
    rw [hlast.frame]
    dsimp only
    rw [h.frame]
  jobs := by
    obtain ⟨added, hadded, hfinished⟩ := h.jobs
    obtain ⟨added', hadded', hfinished'⟩ := hlast.jobs
    refine ⟨added ++ added', by rw [hadded', hadded, List.append_assoc], ?_⟩
    rw [List.filter_append]
    exact List.rel_append hfinished hfinished'
  coherent hcoherent := hlast.coherent (h.coherent hcoherent)
  counted name := by
    rw [hlast.counted, h.counted, Option.map_map]
    refine congrArg (fun change => Option.map change _) (funext fun count => ?_)
    rw [Function.comp_apply, List.countP_append, Nat.add_assoc]
  genuine calculation hmem :=
    (List.mem_append.1 hmem).elim (h.genuine calculation) (hlast.genuine calculation)
  served request hmem := by
    rcases mem_requests_append.1 hmem with hfirst | hsecond
    · exact (h.served request hfirst).mono hlast.prefix_jobs
    · exact hlast.served request hsecond
  caused calculation hmem := by
    rcases List.mem_append.1 hmem with hfirst | hsecond
    · obtain ⟨request, hrequest, hmeets⟩ := h.caused calculation hfirst
      exact ⟨request, mem_requests_append.2 (.inl hrequest), hmeets⟩
    · obtain ⟨request, hrequest, hmeets⟩ := hlast.caused calculation hsecond
      exact ⟨request, mem_requests_append.2 (.inr hrequest), hmeets⟩

/-- What is ready for deep requests is ready for others. -/
theorem Ready.mono (h : reckoning.Ready almanac bound world) {lower : Nat} (hle : lower ≤ bound) :
    reckoning.Ready almanac lower world where
  frame := h.frame
  coherent := h.coherent
  jobs job hjob := by
    obtain ⟨name, params, haccepts, hsignature, houtcome⟩ := h.jobs job hjob
    refine ⟨name, params, haccepts, hsignature, houtcome.imp_right fun hrunning => ?_⟩
    exact ⟨hrunning.1, Nat.le_trans hle hrunning.2⟩

/-- The computations that were made have parameters as they come to computations. -/
theorem Progress.normalParams_params (h : Progress reckoning almanac before after asked made)
    {calculation : Calculation} (hmem : calculation ∈ made) :
    Fact.normalParams calculation.params = calculation.params := by
  obtain ⟨request, _, _, hparams⟩ := h.caused calculation hmem
  rw [hparams, Fact.normalParams_normalParams]

theorem Progress.ready (h : Progress reckoning almanac before after asked made)
    (hready : reckoning.Ready almanac bound before) : reckoning.Ready almanac bound after where
  frame := by
    rw [h.frame]
    dsimp only
    rw [hready.frame]
  coherent := h.coherent hready.coherent
  jobs job hjob := by
    obtain ⟨added, hadded, hfinished⟩ := h.jobs
    rw [hadded, List.mem_append] at hjob
    rcases hjob with hold | hnew
    · exact hready.jobs job hold
    · obtain ⟨calculation, hmem, hsignature, houtcome⟩ := exists_of_mem_right hfinished hnew
      have hmade := (List.mem_filter.1 hmem).1
      obtain ⟨_, _, _, haccepts, _⟩ := h.genuine calculation hmade
      have hnormal := h.normalParams_params hmade
      exact ⟨calculation.name, calculation.params, hnormal.symm ▸ haccepts, hsignature,
        .inl (hnormal.symm ▸ houtcome)⟩

/-! ### Small steps -/

theorem computations_counting (session : Session) (counter : Counter) (label name : String) :
    (session.counting counter label).computations name = (session.computations name).map
      fun count => count + if counter = .computations ∧ label = name then 1 else 0 := by
  simp only [Session.computations, Session.counting, Option.map_map]
  refine congrArg (fun change => Option.map change _) (funext fun tally => ?_)
  rw [Function.comp_apply, Function.comp_apply, Tally.amount_count]

/-- Something is counted, but no computation. -/
theorem progress_counting (session : Session) {counter : Counter} (hcounter : counter ≠ .computations)
    (label : String) :
    Progress reckoning almanac session (session.counting counter label) [] [] := by
  refine .aside rfl fun name => ?_
  rw [computations_counting]
  simp [hcounter]

theorem progress_note (session : Session) (label : String) (params : Value) :
    Progress reckoning almanac session
      { session with notes := session.notes ++ [(label, params)] } [] [] :=
  .aside rfl fun _ => rfl

/-- A request for which nothing had to be computed. -/
theorem Progress.direct (h : Progress reckoning almanac before after [] [])
    (hserved : Served almanac after.almanac.cache request) :
    Progress reckoning almanac before after [request] [] where
  frame := h.frame
  jobs := h.jobs
  coherent := h.coherent
  counted := h.counted
  genuine _ hmem := nomatch hmem
  caused _ hmem := nomatch hmem
  served found hfound := by
    obtain rfl := List.mem_singleton.1 hfound
    exact hserved

/-- A computation was made, and with it what it asked for. -/
theorem Progress.calculated {start final : Session} {calculation : Calculation}
    (h : Progress reckoning almanac start after calculation.asked made)
    (hgenuine : calculation.Genuine reckoning almanac) (hmeets : calculation.Meets request)
    (hstart : ∀ name, start.computations name = (before.computations name).map
      fun count => count + if calculation.name = name then 1 else 0)
    (hfinal : ∀ name, final.computations name = after.computations name)
    (hframe : final.almanac = { before.almanac with cache := final.almanac.cache })
    (hjobs : ∃ added, final.almanac.cache.jobs = before.almanac.cache.jobs ++ added ∧
      List.Forall₂ reckoning.Finished
        ((calculation :: made).filter fun calculation => almanac.remembers calculation.name) added)
    (hcoherent : before.almanac.cache.Coherent [] → final.almanac.cache.Coherent [])
    (hkept : ∀ found, Served almanac after.almanac.cache found →
      Served almanac final.almanac.cache found)
    (hserved : Served almanac final.almanac.cache request) :
    Progress reckoning almanac before final [request] (calculation :: made) where
  frame := hframe
  jobs := hjobs
  coherent := hcoherent
  counted name := by
    rw [hfinal, h.counted, hstart, Option.map_map]
    refine congrArg (fun change => Option.map change _) (funext fun count => ?_)
    rw [Function.comp_apply, List.countP_cons]
    simp only [decide_eq_true_eq]
    omega
  genuine := List.forall_mem_cons.2 ⟨hgenuine, h.genuine⟩
  served := List.forall_mem_cons.2 ⟨hserved, fun found hfound => hkept found (h.served found hfound)⟩
  caused := by
    refine List.forall_mem_cons.2 ⟨⟨request, List.mem_cons_self, hmeets⟩, fun other hother => ?_⟩
    obtain ⟨found, hfound, hother⟩ := h.caused other hother
    exact ⟨found, List.mem_cons_of_mem _ hfound, hother⟩

/-- A computation of a fact that is not remembered. -/
theorem Progress.unremembered {calculation : Calculation}
    (h : Progress reckoning almanac (before.counting .computations calculation.name) after
      calculation.asked made)
    (hgenuine : calculation.Genuine reckoning almanac) (hmeets : calculation.Meets request)
    (hnot : almanac.remembers calculation.name = false) :
    Progress reckoning almanac before after [request] (calculation :: made) := by
  refine h.calculated hgenuine hmeets (fun name => ?_) (fun _ => rfl) h.frame ?_ h.coherent
    (fun _ h => h) ?_
  · rw [computations_counting]
    simp
  · rw [List.filter_cons, hnot]
    exact h.jobs
  · intro fact program hcomputes hcacheable
    rw [hmeets.1] at hcomputes
    rw [remembers_of_computes hcomputes, hcacheable] at hnot
    cases hnot

/-- A running job is finished in its place. -/
theorem jobs_complete {cache : Cache} {first rest : List Job} {running : Job}
    (hjobs : cache.jobs = first ++ running :: rest) (hrunning : running.outcome = none)
    (outcome : Except Error Value) : (cache.complete first.length outcome).jobs =
      first ++ { running with outcome := some outcome } :: rest := by
  simp [Cache.complete, hjobs, List.modify_eq_take_drop, hrunning]

/-- A computation of a remembered fact has a job of its own. -/
theorem Progress.remembered (hsound : reckoning.Sound almanac) {calculation : Calculation}
    {strand : Nat}
    (hfree : before.almanac.cache.entries.find? calculation.signature = none)
    (h : Progress reckoning almanac
      ((before.onCache fun cache => cache.start calculation.signature strand).counting .computations
        calculation.name) after calculation.asked made)
    (hgenuine : calculation.Genuine reckoning almanac) (hmeets : calculation.Meets request)
    (hremembers : almanac.remembers calculation.name = true) :
    Progress reckoning almanac before
      (Fact.evicting before.almanac.cache.nextJob (after.onCache fun cache =>
        cache.complete before.almanac.cache.nextJob
          (.ok (reckoning.value calculation.name calculation.params))))
      [request] (calculation :: made) := by
  let value := reckoning.value calculation.name calculation.params
  let job := before.almanac.cache.nextJob
  let running : Job := ⟨calculation.signature, strand, none⟩
  obtain ⟨added, hadded, hfinished⟩ := h.jobs
  obtain ⟨hadded, hrunning⟩ : after.almanac.cache.jobs =
      before.almanac.cache.jobs ++ running :: added ∧
        after.almanac.cache.jobs[job]? = some running := Cache.jobs_of_start hadded
  have hjobs := jobs_complete hadded rfl (.ok value)
  have hfinal : (after.almanac.cache.complete job (.ok value)).jobs[job]? =
      some { running with outcome := some (.ok value) } := by
    rw [show job = before.almanac.cache.jobs.length from rfl, hjobs]
    simp
  have hstays : Fact.evicting job (after.onCache fun cache => cache.complete job (.ok value)) =
      after.onCache fun cache => cache.complete job (.ok value) := by
    have hevict := Cache.evict_of_not_failed hfinal (Job.not_failed_of_ok rfl)
    exact congrArg (fun cache => after.onCache fun _ => cache) hevict
  rw [hstays]
  refine h.calculated hgenuine hmeets (fun name => ?_) (fun _ => rfl) ?_ ?_ ?_ ?_ ?_
  · rw [computations_counting]
    simp [Session.computations, Session.onCache]
  · have hframe := h.frame
    simp only [Session.onCache, Session.counting] at hframe ⊢
    rw [hframe]
  · refine ⟨_, hjobs, ?_⟩
    rw [List.filter_cons, hremembers]
    exact .cons ⟨rfl, rfl⟩ hfinished
  · intro hcoherent
    have hafter := h.coherent (hcoherent.start hfree strand)
    have hevicted := (hafter.complete hrunning rfl (.ok value)).evict job
    rwa [Cache.evict_of_not_failed hfinal (Job.not_failed_of_ok rfl), List.nil_append,
      List.filter_singleton, bne_self_eq_false, cond_false] at hevicted
  · intro found hserved fact program hcomputes hcacheable
    obtain ⟨known, hknown, hsignature⟩ := hserved fact program hcomputes hcacheable
    obtain ⟨place, hplace⟩ := List.getElem?_of_mem hknown
    obtain ⟨later, hlater, hsame, _⟩ :=
      Cache.grows_complete after.almanac.cache job (.ok value) place known hplace
    exact ⟨later, List.mem_of_getElem? hlater, hsame.trans hsignature⟩
  · intro fact program hcomputes _
    rw [hmeets.1] at hcomputes
    obtain ⟨name, hname, hid, _⟩ := hsound.named hcomputes
    refine ⟨{ running with outcome := some (.ok value) }, ?_, ?_⟩
    · exact List.mem_of_getElem? hfinal
    · change Fact.signatureText (.str calculation.name) calculation.params = _
      rw [hid, ← hname, hmeets.2, Fact.signatureText_normalParams]

end Reckoning

end Rulebook
