import Rulebook.Condition.Evaluate
import Rulebook.Proofs.Fact.Failure
import Rulebook.Proofs.Mirrors
import Rulebook.Proofs.Table

/-!
Looking facts up is mirrored.

Sessions mirror each other if they tell the same, but for the numbers of the strands that are at work
and for what was counted as skipped.  Looking facts up in one of them is mirrored in the other, for
nothing that is looked up depends on either (`Faithful.mirrors_answerBy`).
-/

namespace Rulebook

open Session Eval Strand

/-! ### The cache -/

/-- Jobs for one signature with one outcome. -/
structure Job.Alike (job job' : Job) : Prop where
  signature : job.signature = job'.signature
  outcome : job.outcome = job'.outcome

/-- Jobs that are alike; if they are still running, their strands mirror each other. -/
structure Job.Mirrors (shift : Nat) (job job' : Job) : Prop extends job.Alike job' where
  strand : job'.outcome = none → job'.strand ≠ 0 ∧ job.strand = job'.strand + shift

/-- Caches with jobs that are alike; those that stand there mirror each other. -/
structure Cache.Mirrors (shift : Nat) (cache cache' : Cache) : Prop where
  entries : cache.entries = cache'.entries
  length : cache.jobs.length = cache'.jobs.length
  alike : ∀ (number : Nat) (job job' : Job), cache.jobs[number]? = some job →
    cache'.jobs[number]? = some job' → job.Alike job'
  stands : ∀ (signature : String) (number : Nat) (job job' : Job),
    cache'.entries.find? signature = some number → cache.jobs[number]? = some job →
      cache'.jobs[number]? = some job' → job.Mirrors shift job'

namespace Cache.Mirrors

variable {shift : Nat} {cache cache' : Cache}

/-- A job has the number of its image. -/
theorem rel_getElem? (h : cache.Mirrors shift cache') (number : Nat) :
    Option.Rel Job.Alike cache.jobs[number]? cache'.jobs[number]? := by
  have hlength := h.length
  cases hjob : cache.jobs[number]? with
  | none =>
      rw [List.getElem?_eq_none_iff, hlength, ← List.getElem?_eq_none_iff] at hjob
      rw [hjob]
      exact .none
  | some job =>
      have hlt := (List.getElem?_eq_some_iff.1 hjob).1
      rw [hlength] at hlt
      rw [List.getElem?_eq_getElem hlt]
      exact .some (h.alike number job _ hjob (List.getElem?_eq_getElem hlt))

theorem rel_find? (h : cache.Mirrors shift cache') (signature : String) :
    Option.Rel (Job.Mirrors shift) (cache.find? signature) (cache'.find? signature) := by
  unfold Cache.find?
  rw [h.entries]
  cases hnumber : cache'.entries.find? signature with
  | none => exact .none
  | some number =>
      have hrel := h.rel_getElem? number
      rw [Option.bind_some, Option.bind_some]
      generalize hjob : cache.jobs[number]? = job, hjob' : cache'.jobs[number]? = job' at hrel
      cases hrel with
      | none => exact .none
      | some _ => exact .some (h.stands signature number _ _ hnumber hjob hjob')

theorem start (h : cache.Mirrors shift cache') (signature : String) {strand : Nat}
    (hstrand : strand ≠ 0) :
    (cache.start signature (strand + shift)).Mirrors shift (cache'.start signature strand) := by
  have hlength := h.length
  have hjobs : ∀ {number : Nat} {job job' : Job},
      (cache.start signature (strand + shift)).jobs[number]? = some job →
        (cache'.start signature strand).jobs[number]? = some job' →
          (cache.jobs[number]? = some job ∧ cache'.jobs[number]? = some job') ∨
            number = cache'.nextJob ∧ job.Mirrors shift job' := by
    intro number job job' hjob hjob'
    rcases getElem?_start hjob with hold | ⟨hnumber, rfl⟩
    · rcases getElem?_start hjob' with hold' | ⟨hnumber', _⟩
      · exact .inl ⟨hold, hold'⟩
      · have hlt := (List.getElem?_eq_some_iff.1 hold).1
        rw [hlength, hnumber'] at hlt
        exact absurd hlt (Nat.lt_irrefl _)
    · rcases getElem?_start hjob' with hold' | ⟨hnumber', rfl⟩
      · have hlt := (List.getElem?_eq_some_iff.1 hold').1
        rw [← hlength, hnumber] at hlt
        exact absurd hlt (Nat.lt_irrefl _)
      · exact .inr ⟨hnumber', ⟨⟨rfl, rfl⟩, fun _ => ⟨hstrand, rfl⟩⟩⟩
  constructor
  · change cache.entries.insert signature cache.jobs.length =
      cache'.entries.insert signature cache'.jobs.length
    rw [h.entries, hlength]
  · change (cache.jobs ++ [_]).length = (cache'.jobs ++ [_]).length
    rw [List.length_append, List.length_append, hlength]
    rfl
  · intro number job job' hjob hjob'
    rcases hjobs hjob hjob' with ⟨hold, hold'⟩ | ⟨_, hnew⟩
    · exact h.alike number job job' hold hold'
    · exact hnew.toAlike
  · intro found number job job' hfound hjob hjob'
    rcases hjobs hjob hjob' with ⟨hold, hold'⟩ | ⟨_, hnew⟩
    · change (cache'.entries.insert signature cache'.nextJob).find? found = some number at hfound
      rw [Table.find?_insert] at hfound
      split at hfound
      · obtain rfl := Option.some.inj hfound
        exact absurd (List.getElem?_eq_some_iff.1 hold').1 (Nat.lt_irrefl _)
      · exact h.stands found number job job' hfound hold hold'
    · exact hnew

theorem complete (h : cache.Mirrors shift cache') (finished : Nat)
    (outcome : Except Error Value) :
    (cache.complete finished outcome).Mirrors shift (cache'.complete finished outcome) := by
  constructor
  · exact h.entries
  · change (cache.jobs.modify _ _).length = (cache'.jobs.modify _ _).length
    rw [List.length_modify, List.length_modify, h.length]
  · intro number job job' hjob hjob'
    rw [getElem?_complete] at hjob hjob'
    split at hjob
    · next hsame =>
        rw [if_pos hsame] at hjob'
        obtain ⟨before, hbefore, rfl⟩ := Option.map_eq_some_iff.1 hjob
        obtain ⟨before', hbefore', rfl⟩ := Option.map_eq_some_iff.1 hjob'
        obtain ⟨hsignature, houtcome⟩ := h.alike number _ _ hbefore hbefore'
        exact ⟨hsignature, congrArg (Option.or · (some outcome)) houtcome⟩
    · next hother =>
        rw [if_neg hother] at hjob'
        exact h.alike number job job' hjob hjob'
  · intro signature number job job' hfound hjob hjob'
    rw [getElem?_complete] at hjob hjob'
    split at hjob
    · next hsame =>
        rw [if_pos hsame] at hjob'
        obtain ⟨before, hbefore, rfl⟩ := Option.map_eq_some_iff.1 hjob
        obtain ⟨before', hbefore', rfl⟩ := Option.map_eq_some_iff.1 hjob'
        obtain ⟨⟨hsignature, houtcome⟩, _⟩ :=
          h.stands signature number _ _ hfound hbefore hbefore'
        refine ⟨⟨hsignature, congrArg (Option.or · (some outcome)) houtcome⟩, fun hnone => ?_⟩
        simp at hnone
    · next hother =>
        rw [if_neg hother] at hjob'
        exact h.stands signature number job job' hfound hjob hjob'

theorem evict (h : cache.Mirrors shift cache') (number : Nat) :
    (cache.evict number).Mirrors shift (cache'.evict number) := by
  have hentries : (cache.evict number).entries = (cache'.evict number).entries := by
    have hrel := h.rel_getElem? number
    unfold Cache.evict
    rw [h.entries]
    generalize cache.jobs[number]? = job, cache'.jobs[number]? = job' at hrel
    cases hrel with
    | none => exact h.entries
    | @some job job' hsame =>
        obtain ⟨signature, strand, outcome⟩ := job
        obtain ⟨signature', strand', outcome'⟩ := job'
        obtain ⟨rfl, rfl⟩ := hsame
        rcases outcome with _ | (_ | _)
        · exact h.entries
        · dsimp only
          split
          · rfl
          · exact h.entries
        · exact h.entries
  constructor
  · exact hentries
  · rw [jobs_evict, jobs_evict]
    exact h.length
  · rw [jobs_evict, jobs_evict]
    exact h.alike
  · rw [jobs_evict, jobs_evict]
    intro signature found job job' hfound
    exact h.stands signature found job job' (find?_entries_of_evict hfound)

end Cache.Mirrors

/-! ### Sessions -/

/-- Tallies that are the same but for what was skipped. -/
def Tally.AlikeButSkips (tally tally' : Tally) : Prop :=
  ∀ counter label, counter ≠ .skips → tally.count? counter label = tally'.count? counter label

/-- Sessions with the same operators and notes and with almanacs that differ from one almanac in
their caches only. -/
structure Session.Mirrors (shift : Nat) (start : Almanac) (session session' : Session) :
    Prop where
  almanac : session.almanac = { start with cache := session.almanac.cache }
  almanac' : session'.almanac = { start with cache := session'.almanac.cache }
  cache : session.almanac.cache.Mirrors shift session'.almanac.cache
  registry : session.registry = session'.registry
  tally : Option.Rel Tally.AlikeButSkips session.tally session'.tally
  notes : session.notes = session'.notes

theorem Tally.count?_count (tally : Tally) (counter other : Counter) (label name : String) :
    (tally.count counter label).count? other name =
      if (counter, label) = (other, name) then some ((tally.count? counter label).getD 0 + 1)
      else tally.count? other name := by
  rw [Tally.count, Tally.count?, Table.find?_insert]
  simp only [beq_iff_eq]
  rfl

namespace Session.Mirrors

variable {shift : Nat} {start : Almanac} {session session' : Session}

theorem onCache (h : session.Mirrors shift start session') {change change' : Cache → Cache}
    (hchange : (change session.almanac.cache).Mirrors shift (change' session'.almanac.cache)) :
    (session.onCache change).Mirrors shift start (session'.onCache change') where
  almanac := by
    rw [Session.onCache, h.almanac]
  almanac' := by
    rw [Session.onCache, h.almanac']
  cache := hchange
  registry := h.registry
  tally := h.tally
  notes := h.notes

theorem counting (h : session.Mirrors shift start session') (counter : Counter) (label : String) :
    (session.counting counter label).Mirrors shift start (session'.counting counter label) where
  almanac := h.almanac
  almanac' := h.almanac'
  cache := h.cache
  registry := h.registry
  tally := by
    have htally := h.tally
    unfold Session.counting
    generalize session.tally = tally, session'.tally = tally' at htally
    cases htally with
    | none => exact .none
    | some hsame =>
        refine .some fun other name hother => ?_
        rw [Tally.count?_count, Tally.count?_count]
        split
        · next heq =>
            obtain ⟨rfl, rfl⟩ := Prod.mk.inj heq
            rw [hsame counter label hother]
        · exact hsame other name hother
  notes := h.notes

/-- What is skipped in one session need not be in the other. -/
theorem counting_skips (h : session.Mirrors shift start session') (label : String) :
    (session.counting .skips label).Mirrors shift start session' where
  almanac := h.almanac
  almanac' := h.almanac'
  cache := h.cache
  registry := h.registry
  tally := by
    have htally := h.tally
    unfold Session.counting
    generalize session.tally = tally, session'.tally = tally' at htally
    cases htally with
    | none => exact .none
    | some hsame =>
        refine .some fun other name hother => ?_
        rw [Tally.count?_count, if_neg fun heq => hother (Prod.mk.inj heq).1.symm]
        exact hsame other name hother
  notes := h.notes

/-- Whatever is read of the almanacs, but for their caches, is the same. -/
theorem read_eq {α : Type} (h : session.Mirrors shift start session') (read : Almanac → α)
    (hread : ∀ almanac cache, read { almanac with cache } = read almanac) :
    read session.almanac = read start ∧ read session'.almanac = read start :=
  ⟨(congrArg read h.almanac).trans (hread _ _), (congrArg read h.almanac').trans (hread _ _)⟩

end Session.Mirrors

/-! ### Steps -/

variable {σ τ α : Type} {mirror : Mirror σ τ Ending} {start : Almanac}

/-- Whoever joins a job waits for the strand that mirrors the one of that job. -/
theorem mirrors_join {job job' : Job} (h : job.Mirrors mirror.shift job') :
    Mirrors mirror (job.join : Eval σ Value) job'.join := by
  unfold Job.join
  rw [h.outcome]
  cases houtcome : job'.outcome with
  | some result => exact .outcome result
  | none =>
      obtain ⟨hne, hstrand⟩ := h.strand houtcome
      rw [hstrand]
      exact .join hne

variable [HasSession σ] [HasSession τ]

/-- Answer a request, given how facts are computed. -/
def FactRequest.answerBy (compute : Fact → (Value → Program) → Value → Eval σ Value)
    (request : FactRequest) : Eval σ Value := do
  let params := Fact.normalParams request.params
  let almanac := (← current).almanac
  match almanac.lookup request.fact with
  | .error e => throw e
  | .ok .undefined =>
      if almanac.allowUndefinedFacts then return .null else throw (.undefinedFact request.fact)
  | .ok (.value value) => Eval.outcome (almanac.applyPath value request.path)
  | .ok (.computed fact program) =>
      let computation := compute fact program params
      let value ← match fact.signatureText? params with
        | none => computation
        | some signature => fact.remember signature computation
      Eval.outcome (almanac.applyPath value request.path)

theorem FactRequest.answerBy_compute (ask : FactRequest → Eval σ Value) (request : FactRequest) :
    request.answerBy (Fact.compute ask) = request.answer ask :=
  rfl

/-- Worlds that belong together hold sessions that mirror each other, and they still belong together
when these have changed. -/
structure Faithful (mirror : Mirror σ τ Ending) (start : Almanac) : Prop where
  session : ∀ world world', mirror.related world world' →
    (HasSession.session world).Mirrors mirror.shift start (HasSession.session world')
  update : ∀ world world' session session', mirror.related world world' →
    session.Mirrors mirror.shift start session' →
      mirror.related (HasSession.withSession session world)
        (HasSession.withSession session' world')

namespace Faithful

/-- Steps that look at the session first. -/
theorem current_bind (h : Faithful mirror start) {rest : Session → Eval σ α}
    {rest' : Session → Eval τ α}
    (hrest : ∀ session session', session.Mirrors mirror.shift start session' →
      Mirrors mirror (rest session) (rest' session')) :
    Mirrors mirror (current >>= rest) (current >>= rest') :=
  fun _ _ _ hnext => .read fun world world' hworld =>
    hrest _ _ (h.session world world' hworld) _ _ _ hnext

theorem mirrors_update (h : Faithful mirror start) {change change' : Session → Session}
    (hchange : ∀ session session', session.Mirrors mirror.shift start session' →
      (change session).Mirrors mirror.shift start (change' session')) :
    Mirrors mirror (Session.update change : Eval σ Unit) (Session.update change') :=
  .modify fun world world' hworld =>
    h.update _ _ _ _ hworld (hchange _ _ (h.session world world' hworld))

theorem mirrors_count (h : Faithful mirror start) (counter : Counter) (label : String) :
    Mirrors mirror (count counter label : Eval σ Unit) (count counter label) :=
  h.mirrors_update fun _ _ hsession => hsession.counting counter label

/-- What was skipped need not be counted in the image. -/
theorem related_counting_skips (h : Faithful mirror start) (label : String) (world : σ) (world' : τ)
    (hworld : mirror.related world world') :
    mirror.related (HasSession.withSession
      ((HasSession.session world).counting .skips label) world) world' := by
  have hsession := (h.session world world' hworld).counting_skips label
  have hupdate := h.update _ _ _ _ hworld hsession
  rwa [HasSession.withSession_session world'] at hupdate

theorem mirrors_note (h : Faithful mirror start) (label : String) (params : Value) :
    Mirrors mirror (note label params : Eval σ Nat) (note label params) := by
  refine (h.mirrors_update fun session session' hsession => ?_).bind fun _ =>
    h.current_bind fun session session' hsession => ?_
  · exact ⟨hsession.almanac, hsession.almanac', hsession.cache, hsession.registry, hsession.tally,
      congrArg (· ++ [(label, params)]) hsession.notes⟩
  · rw [hsession.notes]
    exact .outcome _

theorem mirrors_operator (h : Faithful mirror start) (name : String) :
    Mirrors mirror (Session.operator name : Eval σ Operator) (Session.operator name) := by
  refine h.current_bind fun session session' hsession => ?_
  rw [hsession.registry]
  refine (h.mirrors_update fun now now' hnow => ?_).bind fun _ => .outcome _
  exact ⟨hnow.almanac, hnow.almanac', hnow.cache, rfl, hnow.tally, hnow.notes⟩

/-- A computation, given that its requests are mirrored. -/
theorem mirrors_run (h : Faithful mirror start) {ask : FactRequest → Eval σ Value}
    {ask' : FactRequest → Eval τ Value} (hask : ∀ request, Mirrors mirror (ask request) (ask' request))
    (program : Program) : Mirrors mirror (program.run ask) (program.run ask') := by
  induction program with
  | done value => exact .outcome _
  | fail e => exact .outcome _
  | ask request next ih => exact (hask request).attempt.bind ih
  | note label params next ih => exact (h.mirrors_note label params).bind ih
  | pause next ih => exact Mirrors.pause.bind fun _ => ih

theorem mirrors_completing (h : Faithful mirror start) (job : Nat) {computation : Eval σ Value}
    {computation' : Eval τ Value} (hcomputation : Mirrors mirror computation computation') :
    Mirrors mirror (Fact.completing job computation) (Fact.completing job computation') :=
  hcomputation.attempt.bind fun result =>
    (h.mirrors_update fun _ _ hsession => hsession.onCache (hsession.cache.complete job result)).bind
      fun _ => .outcome _

theorem mirrors_remember (h : Faithful mirror start) (fact : Fact) (signature : String)
    {computation : Eval σ Value} {computation' : Eval τ Value}
    (hcomputation : Mirrors mirror computation computation') :
    Mirrors mirror (fact.remember signature computation) (fact.remember signature computation') := by
  refine h.current_bind fun session session' hsession => ?_
  have hfound := hsession.cache.rel_find? signature
  dsimp only
  generalize session.almanac.cache.find? signature = found,
    session'.almanac.cache.find? signature = found' at hfound
  cases hfound with
  | some hjob => exact (h.mirrors_count _ _).bind fun _ => mirrors_join hjob
  | none =>
      rw [Cache.nextJob, Cache.nextJob, hsession.cache.length]
      refine (h.mirrors_count _ _).bind fun _ => ?_
      refine Mirrors.spawn_bind (h.mirrors_completing _ hcomputation) ?_ fun strand hstrand => ?_
      · intro _ world world' hworld
        have hnow := h.session world world' hworld
        exact h.update _ _ _ _ hworld (hnow.onCache (hnow.cache.evict _))
      · refine (h.mirrors_update fun now now' hnow => ?_).bind fun _ => .join hstrand
        exact hnow.onCache (hnow.cache.start signature hstrand)

theorem mirrors_compute (h : Faithful mirror start) {ask : FactRequest → Eval σ Value}
    {ask' : FactRequest → Eval τ Value} (hask : ∀ request, Mirrors mirror (ask request) (ask' request))
    (fact : Fact) (program : Value → Program) (params : Value) :
    Mirrors mirror (fact.compute ask program params) (fact.compute ask' program params) :=
  (h.mirrors_count _ _).bind fun _ => h.mirrors_run hask _

/-- A request, given that what is computed for it is mirrored. -/
theorem mirrors_answerBy (h : Faithful mirror start)
    {compute : Fact → (Value → Program) → Value → Eval σ Value}
    {compute' : Fact → (Value → Program) → Value → Eval τ Value}
    (hcompute : ∀ fact program params,
      Mirrors mirror (compute fact program params) (compute' fact program params))
    (request : FactRequest) :
    Mirrors mirror (request.answerBy compute) (request.answerBy compute') := by
  refine h.current_bind fun session session' hsession => ?_
  obtain ⟨hlookup, hlookup'⟩ :=
    hsession.read_eq (fun almanac => almanac.lookup request.fact) fun _ _ => rfl
  obtain ⟨hallow, hallow'⟩ := hsession.read_eq Almanac.allowUndefinedFacts fun _ _ => rfl
  obtain ⟨hpath, hpath'⟩ := hsession.read_eq Almanac.applyPath fun _ _ => rfl
  dsimp only at hlookup hlookup' ⊢
  rw [hlookup, hlookup', hallow, hallow', hpath, hpath']
  split
  · exact .outcome _
  · split
    · exact .outcome _
    · exact .outcome _
  · exact .outcome _
  · next fact program _ =>
      have hcomputation := hcompute fact program (Fact.normalParams request.params)
      split
      · exact hcomputation.bind fun _ => .outcome _
      · exact (h.mirrors_remember fact _ hcomputation).bind fun _ => .outcome _

end Faithful

end Rulebook
