import Mathlib.Logic.Relation
import Rulebook.Proofs.Fact.Coherence
import Rulebook.Proofs.Session

/-!
The traffic at the cache.

Requests reach the cache, jobs are finished and taken out of it, and those who asked are told, in
any order: `Move` says what may happen next.  `Orderly` holds of everything that comes of it.
-/

namespace Rulebook

/-- A request that has reached the cache: the label it was counted under, the signature it was for,
and the job that it started or joined. -/
structure Visit where
  label : String
  signature : String
  job : Nat
  started : Bool

/-- What a request is counted as. -/
def Visit.counter (visit : Visit) : Counter :=
  if visit.started then .cacheMisses else .cacheHits

/-- A session, the requests that have reached its cache so far, the finished jobs of which the cache
is still to hear, and what was told to which request. -/
structure Traffic where
  session : Session
  visits : List Visit
  due : List Nat
  told : List (Nat × Except Error Value)

namespace Traffic

/-- The cache. -/
def cache (traffic : Traffic) : Cache := traffic.session.almanac.cache

/-- Nobody has asked for anything. -/
def opening (session : Session) : Traffic := ⟨session, [], [], []⟩

/-- A request has joined a job. -/
def joined (traffic : Traffic) (label signature : String) (job : Nat) : Traffic :=
  { traffic with
    session := traffic.session.counting .cacheHits label
    visits := traffic.visits ++ [⟨label, signature, job, false⟩] }

/-- A request has started a job, which a strand is to do. -/
def begun (traffic : Traffic) (label signature : String) (strand : Nat) : Traffic :=
  { traffic with
    session := (traffic.session.counting .cacheMisses label).onCache
      fun cache => cache.start signature strand
    visits := traffic.visits ++ [⟨label, signature, traffic.cache.nextJob, true⟩] }

/-- A job is finished. -/
def completed (traffic : Traffic) (job : Nat) (outcome : Except Error Value) : Traffic :=
  { traffic with
    session := traffic.session.onCache fun cache => cache.complete job outcome
    due := traffic.due ++ [job] }

/-- The cache has heard of a finished job. -/
def evicted (traffic : Traffic) (job : Nat) : Traffic :=
  { traffic with
    session := Fact.evicting job traffic.session
    due := traffic.due.filter (· != job) }

/-- A request was told an outcome. -/
def answered (traffic : Traffic) (number : Nat) (outcome : Except Error Value) : Traffic :=
  { traffic with told := traffic.told ++ [(number, outcome)] }

/-- What may happen next.  Nothing says in which order: a request may come between a failure and the
eviction that follows it, and a request may be told of an outcome long after. -/
inductive Move : Traffic → Traffic → Prop where
  | hit {traffic : Traffic} {signature : String} {job : Nat} {record : Job} (label : String)
      (stands : traffic.cache.entries.find? signature = some job)
      (known : traffic.cache.jobs[job]? = some record) :
      Move traffic (traffic.joined label signature job)
  | miss {traffic : Traffic} {signature : String} (label : String) (strand : Nat)
      (free : traffic.cache.find? signature = none) :
      Move traffic (traffic.begun label signature strand)
  | complete {traffic : Traffic} {job : Nat} {record : Job} (outcome : Except Error Value)
      (known : traffic.cache.jobs[job]? = some record) (running : record.outcome = none) :
      Move traffic (traffic.completed job outcome)
  | evict {traffic : Traffic} {job : Nat} (due : job ∈ traffic.due) :
      Move traffic (traffic.evicted job)
  | answer {traffic : Traffic} {number : Nat} {visit : Visit} {record : Job}
      {outcome : Except Error Value} (asked : traffic.visits[number]? = some visit)
      (waiting : ∀ other, (number, other) ∉ traffic.told)
      (known : traffic.cache.jobs[visit.job]? = some record)
      (finished : record.outcome = some outcome) :
      Move traffic (traffic.answered number outcome)
  | aside {traffic : Traffic} {session : Session}
      (cache : session.almanac.cache = traffic.cache)
      (counts : ∀ counter : Counter, counter.ofCache = true →
        session.tally.map (fun tally => tally.labels counter) =
          traffic.session.tally.map fun tally => tally.labels counter) :
      Move traffic { traffic with session }

/-- What may happen in the long run. -/
abbrev Reaches : Traffic → Traffic → Prop := Relation.ReflTransGen Move

variable {traffic later : Traffic}

/-! ### What holds all the time -/

/-- A request is for the signature of its job. -/
def Attends (cache : Cache) (visit : Visit) : Prop :=
  ∃ record, cache.jobs[visit.job]? = some record ∧ record.signature = visit.signature

theorem Attends.mono {cache after : Cache} {visit : Visit} (h : Attends cache visit)
    (hgrows : cache.Grows after) : Attends after visit := by
  obtain ⟨record, hrecord, hsignature⟩ := h
  obtain ⟨changed, hchanged, hsame, _⟩ := hgrows _ record hrecord
  exact ⟨changed, hchanged, hsame.trans hsignature⟩

/-- A request was told the outcome of its job. -/
def Told (traffic : Traffic) (number : Nat) (outcome : Except Error Value) : Prop :=
  ∃ visit record, traffic.visits[number]? = some visit ∧
    traffic.cache.jobs[visit.job]? = some record ∧ record.outcome = some outcome

/-- The cache is coherent, every job was started by one request, and every request has a job, the
outcome of which is all that it is ever told. -/
structure Orderly (traffic : Traffic) : Prop where
  coherent : traffic.cache.Coherent traffic.due
  started : (traffic.visits.filter Visit.started).map Visit.job =
    List.range traffic.cache.jobs.length
  attends : ∀ visit ∈ traffic.visits, Attends traffic.cache visit
  told : ∀ number outcome, (number, outcome) ∈ traffic.told → traffic.Told number outcome
  once : (traffic.told.map Prod.fst).Nodup

/-- Nothing that happened is undone: jobs keep their outcomes, and requests their jobs. -/
structure Grows (traffic later : Traffic) : Prop where
  jobs : traffic.cache.Grows later.cache
  visits : traffic.visits <+: later.visits
  told : traffic.told <+: later.told

theorem Grows.refl (traffic : Traffic) : traffic.Grows traffic :=
  ⟨Cache.grows_of_jobs_eq rfl, List.prefix_rfl, List.prefix_rfl⟩

theorem Grows.trans {latest : Traffic} (h : traffic.Grows later) (hlater : later.Grows latest) :
    traffic.Grows latest :=
  ⟨h.jobs.trans hlater.jobs, h.visits.trans hlater.visits, h.told.trans hlater.told⟩

theorem Told.mono {number : Nat} {outcome : Except Error Value} (h : traffic.Told number outcome)
    (hgrows : traffic.Grows later) : later.Told number outcome := by
  obtain ⟨visit, record, hvisit, hrecord, houtcome⟩ := h
  obtain ⟨after, hafter, _, hkept⟩ := hgrows.jobs _ record hrecord
  refine ⟨visit, after, ?_, hafter, hkept outcome houtcome⟩
  obtain ⟨hlt, rfl⟩ := List.getElem?_eq_some_iff.1 hvisit
  exact List.prefix_iff_getElem?.1 hgrows.visits number hlt

theorem Move.grows (h : Move traffic later) : traffic.Grows later := by
  cases h with
  | hit label stands known =>
      exact ⟨Cache.grows_of_jobs_eq rfl, List.prefix_append _ _, List.prefix_rfl⟩
  | miss label strand free =>
      exact ⟨Cache.grows_start _ _ _, List.prefix_append _ _, List.prefix_rfl⟩
  | complete outcome known running =>
      exact ⟨Cache.grows_complete _ _ _, List.prefix_rfl, List.prefix_rfl⟩
  | evict due => exact ⟨Cache.grows_evict _ _, List.prefix_rfl, List.prefix_rfl⟩
  | answer asked waiting known finished =>
      exact ⟨Cache.grows_of_jobs_eq rfl, List.prefix_rfl, List.prefix_append _ _⟩
  | aside cache counts =>
      exact ⟨Cache.grows_of_jobs_eq (congrArg Cache.jobs cache), List.prefix_rfl, List.prefix_rfl⟩

theorem grows_of_reaches (h : traffic.Reaches later) : traffic.Grows later := by
  induction h with
  | refl => exact .refl traffic
  | tail _ hmove ih => exact ih.trans hmove.grows

theorem orderly_opening {session : Session} (h : session.almanac.cache = Cache.empty) :
    (opening session).Orderly := by
  have hcache : (opening session).cache = Cache.empty := h
  refine ⟨?_, ?_, nofun, nofun, List.nodup_nil⟩
  · rw [hcache]
    exact Cache.coherent_empty
  · rw [hcache]
    rfl

/-- What happens to the jobs of a traffic in which nobody else asks and nobody is told. -/
theorem Orderly.of_jobs (h : traffic.Orderly) (hgrows : traffic.Grows later)
    (hcoherent : later.cache.Coherent later.due) (hvisits : later.visits = traffic.visits)
    (hjobs : later.cache.jobs.length = traffic.cache.jobs.length)
    (htold : later.told = traffic.told) : later.Orderly where
  coherent := hcoherent
  started := by rw [hvisits, h.started, hjobs]
  attends visit hvisit := (h.attends visit (hvisits ▸ hvisit)).mono hgrows.jobs
  told number outcome hmem := (h.told number outcome (htold ▸ hmem)).mono hgrows
  once := htold ▸ h.once

/-- One more request, which has joined a job or started one. -/
theorem Orderly.visit (h : traffic.Orderly) (hgrows : traffic.Grows later) {visit : Visit}
    (hcoherent : later.cache.Coherent later.due) (hvisits : later.visits = traffic.visits ++ [visit])
    (hstarted : List.range later.cache.jobs.length =
      List.range traffic.cache.jobs.length ++ ([visit].filter Visit.started).map Visit.job)
    (hattends : Attends later.cache visit) (htold : later.told = traffic.told) :
    later.Orderly where
  coherent := hcoherent
  started := by rw [hvisits, List.filter_append, List.map_append, h.started, hstarted]
  attends other hother := by
    rw [hvisits] at hother
    rcases List.mem_append.1 hother with hold | hnew
    · exact (h.attends other hold).mono hgrows.jobs
    · rw [List.mem_singleton.1 hnew]
      exact hattends
  told number outcome hmem := (h.told number outcome (htold ▸ hmem)).mono hgrows
  once := htold ▸ h.once

/-- A request that was told nothing yet is told the outcome of its job. -/
theorem Orderly.answer (h : traffic.Orderly) {number : Nat} {outcome : Except Error Value}
    (hwaiting : ∀ other, (number, other) ∉ traffic.told) (houtcome : traffic.Told number outcome) :
    (traffic.answered number outcome).Orderly where
  coherent := h.coherent
  started := h.started
  attends := h.attends
  told place told hmem := by
    rcases List.mem_append.1 hmem with hold | hnew
    · exact h.told place told hold
    · cases List.mem_singleton.1 hnew
      exact houtcome
  once := by
    change ((traffic.told ++ [_]).map Prod.fst).Nodup
    rw [List.map_append, List.nodup_append]
    refine ⟨h.once, List.pairwise_singleton _ _, ?_⟩
    intro place hplace other hother
    obtain ⟨⟨_, told⟩, htold, rfl⟩ := List.mem_map.1 hplace
    rw [List.mem_singleton.1 hother]
    rintro rfl
    exact hwaiting told htold

theorem Orderly.move (h : traffic.Orderly) (hmove : Move traffic later) : later.Orderly := by
  have hgrows := hmove.grows
  cases hmove with
  | hit label stands known =>
      exact h.visit hgrows h.coherent rfl (List.append_nil _).symm (h.coherent.stands _ _ stands) rfl
  | @miss signature label strand free =>
      have hcoherent := h.coherent.start (h.coherent.find?_eq_none.1 free) strand
      have hjobs : List.range (traffic.cache.start signature strand).jobs.length =
          List.range traffic.cache.jobs.length ++ [traffic.cache.nextJob] := by
        rw [Cache.start, List.length_append, List.length_singleton, List.range_succ, Cache.nextJob]
      have hattends : Attends (traffic.cache.start signature strand)
          ⟨label, signature, traffic.cache.nextJob, true⟩ :=
        ⟨⟨signature, strand, none⟩, List.getElem?_concat_length, rfl⟩
      exact h.visit hgrows hcoherent rfl hjobs hattends rfl
  | complete outcome known running =>
      exact h.of_jobs hgrows (h.coherent.complete known running outcome) rfl
        (List.length_modify _ _ _) rfl
  | @evict job due =>
      exact h.of_jobs hgrows (h.coherent.evict job) rfl
        (congrArg List.length (Cache.jobs_evict _ _)) rfl
  | @answer number visit record outcome asked waiting known finished =>
      exact h.answer waiting ⟨visit, record, asked, known, finished⟩
  | @aside session cache counts =>
      have hcoherent : session.almanac.cache.Coherent traffic.due := by
        rw [cache]
        exact h.coherent
      exact h.of_jobs hgrows hcoherent rfl (congrArg (fun cache => cache.jobs.length) cache) rfl

theorem Orderly.reaches (h : traffic.Orderly) (hreaches : traffic.Reaches later) :
    later.Orderly := by
  induction hreaches with
  | refl => exact h
  | tail _ hmove ih => exact ih.move hmove

end Traffic

end Rulebook
