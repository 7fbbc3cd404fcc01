import Rulebook.Proofs.Fact.Traffic

/-!
One computation for each signature.

Whatever the order in which requests come, jobs are finished, the cache hears of it and requests are
told: one job at most is being done for a signature, those who asked for it share its outcome, a
value stays for good, and after a failure the next request starts anew (`shared_of_reaches`).
-/

namespace Rulebook.Traffic

variable {traffic later : Traffic} {start : Session}

/-- At most one job for each signature is not finished. -/
def Single (traffic : Traffic) : Prop :=
  ∀ (first second : Nat) (one another : Job), traffic.cache.jobs[first]? = some one →
    traffic.cache.jobs[second]? = some another → one.signature = another.signature →
      one.outcome = none → another.outcome = none → first = second

/-- Every job was started by one request.  Every request has one job for its signature, and it may
be told the outcome of that job as soon as there is one, but only once, and nothing else.  That does
not change. -/
structure Shares (traffic : Traffic) : Prop where
  started : (traffic.visits.filter Visit.started).map Visit.job =
    List.range traffic.cache.jobs.length
  attends : ∀ visit ∈ traffic.visits, Attends traffic.cache visit
  told : ∀ number outcome, (number, outcome) ∈ traffic.told → traffic.Told number outcome
  once : (traffic.told.map Prod.fst).Nodup
  ready : ∀ number outcome, traffic.Told number outcome →
    (number, outcome) ∈ traffic.told ∨ Move traffic (traffic.answered number outcome)
  lasting : ∀ later, traffic.Reaches later → traffic.Grows later

/-- A job that has succeeded is the last one for its signature.  Requests for the signature that
come later join it, and they are told its value. -/
def Settles (traffic : Traffic) : Prop :=
  ∀ (job : Nat) (record : Job) (value : Value), traffic.cache.jobs[job]? = some record →
    record.outcome = some (.ok value) → ∀ later, traffic.Reaches later →
      (∀ (other : Nat) (another : Job), later.cache.jobs[other]? = some another →
        another.signature = record.signature → other ≤ job) ∧
      ∀ (number : Nat) (visit : Visit), traffic.visits.length ≤ number →
        later.visits[number]? = some visit → visit.signature = record.signature →
          visit.job = job ∧ visit.started = false ∧
            ∀ outcome, (number, outcome) ∈ later.told → outcome = .ok value

/-- A job that has failed stands in the cache until the cache hears of it.  Then it stands there no
more, but nothing else is taken out.  Requests for the signature that come later have a job that was
started later. -/
structure Evicts (traffic : Traffic) : Prop where
  stands : ∀ (job : Nat) (record : Job), traffic.cache.jobs[job]? = some record → record.Failed →
    (traffic.cache.entries.find? record.signature = some job ↔ job ∈ traffic.due)
  free : ∀ (job : Nat) (record : Job), traffic.cache.jobs[job]? = some record → record.Failed →
    job ∈ traffic.due → (traffic.evicted job).cache.find? record.signature = none
  others : ∀ (job other : Nat) (signature : String), other ≠ job →
    traffic.cache.entries.find? signature = some other →
      (traffic.evicted job).cache.entries.find? signature = some other
  kept : ∀ (job : Nat) (record : Job), traffic.cache.jobs[job]? = some record → ¬ record.Failed →
    (traffic.evicted job).cache = traffic.cache
  retried : ∀ (job : Nat) (record : Job), traffic.cache.jobs[job]? = some record → record.Failed →
    job ∉ traffic.due → ∀ later, traffic.Reaches later → ∀ (number : Nat) (visit : Visit),
      traffic.visits.length ≤ number → later.visits[number]? = some visit →
        visit.signature = record.signature → job < visit.job

/-- What was counted since the start: a miss for every job and a miss or a hit for every request,
each under the label of the request. -/
def Accounts (start : Session) (traffic : Traffic) : Prop :=
  ∀ before, start.tally = some before → ∃ now, traffic.session.tally = some now ∧
    now.total .cacheMisses = before.total .cacheMisses + traffic.cache.jobs.length ∧
    now.total .cacheHits + now.total .cacheMisses =
      before.total .cacheHits + before.total .cacheMisses + traffic.visits.length ∧
    ∀ label, now.amount .cacheMisses label = before.amount .cacheMisses label +
        traffic.visits.countP (fun visit => visit.started && visit.label == label) ∧
      now.amount .cacheHits label = before.amount .cacheHits label +
        traffic.visits.countP fun visit => !visit.started && visit.label == label

/-! ### One state -/

theorem Orderly.single (h : traffic.Orderly) : traffic.Single := by
  intro first second one another hone hanother hsame hfirst hsecond
  have hone' := h.coherent.stands_of_not_failed hone (Job.not_failed_of_running hfirst)
  have hanother' := h.coherent.stands_of_not_failed hanother (Job.not_failed_of_running hsecond)
  rw [hsame, hanother'] at hone'
  exact (Option.some.inj hone').symm

theorem Orderly.shares (h : traffic.Orderly) : traffic.Shares where
  started := h.started
  attends := h.attends
  told := h.told
  once := h.once
  ready number outcome htold := by
    obtain ⟨visit, record, hvisit, hrecord, houtcome⟩ := htold
    by_cases hsome : ∃ other, (number, other) ∈ traffic.told
    · obtain ⟨other, hother⟩ := hsome
      obtain ⟨visit', record', hvisit', hrecord', houtcome'⟩ := h.told number other hother
      obtain rfl := Option.some.inj (hvisit.symm.trans hvisit')
      obtain rfl := Option.some.inj (hrecord.symm.trans hrecord')
      obtain rfl := Option.some.inj (houtcome.symm.trans houtcome')
      exact .inl hother
    · exact .inr (.answer hvisit (not_exists.1 hsome) hrecord houtcome)
  lasting _ := grows_of_reaches

/-! ### Requests that come later -/

/-- A request that is there after a move was there before, or it has just joined the job that stood
for its signature, or it has just started one as none stood there. -/
theorem Move.visit_cases (h : Move traffic later) {number : Nat} {visit : Visit}
    (hvisit : later.visits[number]? = some visit) :
    traffic.visits[number]? = some visit ∨
      visit.started = false ∧ traffic.cache.entries.find? visit.signature = some visit.job ∨
      visit.started = true ∧ traffic.cache.find? visit.signature = none ∧
        visit.job = traffic.cache.nextJob := by
  have happend : ∀ new : Visit, (traffic.visits ++ [new])[number]? = some visit →
      traffic.visits[number]? = some visit ∨ visit = new := by
    intro new hnew
    rw [List.getElem?_append] at hnew
    split at hnew
    · exact .inl hnew
    · exact .inr (List.mem_singleton.1 (List.mem_of_getElem? hnew))
  cases h with
  | hit label stands known =>
      rcases happend _ hvisit with hold | rfl
      · exact .inl hold
      · exact .inr (.inl ⟨rfl, stands⟩)
  | miss label strand free =>
      rcases happend _ hvisit with hold | rfl
      · exact .inl hold
      · exact .inr (.inr ⟨rfl, free, rfl⟩)
  | complete outcome known running => exact .inl hvisit
  | evict due => exact .inl hvisit
  | answer asked waiting known finished => exact .inl hvisit
  | aside cache counts => exact .inl hvisit

/-- What holds of the jobs that requests for a signature may have from now on holds of the jobs of
those that come later. -/
theorem later_visit {signature : String} (holds : Nat → Bool → Prop)
    (hjoin : ∀ later, traffic.Reaches later → ∀ job,
      later.cache.entries.find? signature = some job → holds job false)
    (hstart : ∀ later, traffic.Reaches later → later.cache.find? signature = none →
      holds later.cache.nextJob true)
    (h : traffic.Reaches later) {number : Nat} {visit : Visit}
    (hlate : traffic.visits.length ≤ number) (hvisit : later.visits[number]? = some visit)
    (hsignature : visit.signature = signature) : holds visit.job visit.started := by
  induction h with
  | refl => exact absurd (List.getElem?_eq_some_iff.1 hvisit).1 (Nat.not_lt.2 hlate)
  | tail hreaches hmove ih =>
      rcases hmove.visit_cases hvisit with hold | ⟨hjoined, hstands⟩ | ⟨hstarted, hfree, hjob⟩
      · exact ih hold
      · rw [hjoined]
        exact hjoin _ hreaches _ (hsignature ▸ hstands)
      · rw [hstarted, hjob]
        exact hstart _ hreaches (hsignature ▸ hfree)

theorem Orderly.settles (h : traffic.Orderly) : traffic.Settles := by
  intro job record value hrecord hvalue later hreaches
  -- A value is no failure, so from now on the job stands in the cache.
  have hstands : ∀ later, traffic.Reaches later →
      later.cache.entries.find? record.signature = some job := by
    intro later hlater
    obtain ⟨after, hafter, hsignature, houtcome⟩ :=
      (grows_of_reaches hlater).jobs job record hrecord
    rw [← hsignature]
    exact (h.reaches hlater).coherent.stands_of_not_failed hafter
      (Job.not_failed_of_ok (houtcome _ hvalue))
  have horderly := h.reaches hreaches
  constructor
  · intro other another hanother hsame
    exact horderly.coherent.last _ job (hstands later hreaches) other another hanother hsame
  · intro number visit hlate hvisit hsame
    have hjob : visit.job = job ∧ visit.started = false := by
      apply later_visit (fun found started => found = job ∧ started = false) _ _ hreaches hlate
        hvisit hsame
      · intro middle hmiddle found hfound
        rw [hstands middle hmiddle] at hfound
        exact ⟨(Option.some.inj hfound).symm, rfl⟩
      · intro middle hmiddle hfree
        have hnone := (h.reaches hmiddle).coherent.find?_eq_none.1 hfree
        rw [hstands middle hmiddle] at hnone
        cases hnone
    refine ⟨hjob.1, hjob.2, fun outcome htold => ?_⟩
    obtain ⟨found, after, hfound, hafter, houtcome⟩ := horderly.told number outcome htold
    obtain rfl := Option.some.inj (hvisit.symm.trans hfound)
    rw [hjob.1] at hafter
    obtain ⟨kept, hkept, _, hsettled⟩ := (grows_of_reaches hreaches).jobs job record hrecord
    obtain rfl := Option.some.inj (hkept.symm.trans hafter)
    rw [hsettled _ hvalue] at houtcome
    exact (Option.some.inj houtcome).symm

/-! ### Failures -/

/-- The cache does not hear of a job again. -/
theorem not_due_of_reaches {job : Nat} {record : Job}
    (hrecord : traffic.cache.jobs[job]? = some record) (hfailed : record.Failed)
    (hdue : job ∉ traffic.due) (h : traffic.Reaches later) : job ∉ later.due := by
  induction h with
  | refl => exact hdue
  | tail hreaches hmove ih =>
      cases hmove with
      | hit label stands known => exact ih
      | miss label strand free => exact ih
      | @complete other running outcome known hrunning =>
          intro hmem
          rcases List.mem_append.1 hmem with hold | hnew
          · exact ih hold
          · obtain rfl := List.mem_singleton.1 hnew
            obtain ⟨after, hafter, hbecomes⟩ := (grows_of_reaches hreaches).jobs _ _ hrecord
            obtain rfl := Option.some.inj (hafter.symm.trans known)
            exact Job.not_failed_of_running hrunning (hfailed.becomes hbecomes)
      | evict due => exact fun hmem => ih ((List.mem_filter.1 hmem).1)
      | answer asked waiting known finished => exact ih
      | aside cache counts => exact ih

theorem Orderly.evicts (h : traffic.Orderly) : traffic.Evicts where
  stands job record hrecord hfailed :=
    (h.coherent.standing job record hrecord).trans ⟨fun himp => himp hfailed, fun hdue _ => hdue⟩
  free job record hrecord hfailed hdue :=
    (h.coherent.evict job).find?_eq_none.2 (h.coherent.find?_evict_self hrecord hfailed hdue)
  others job other signature hne hother := Cache.find?_evict_of_ne hne hother
  kept job record hrecord hnot := Cache.evict_of_not_failed hrecord hnot
  retried job record hrecord hfailed hdue later hreaches number visit hlate hvisit hsignature := by
    apply later_visit (fun found _ => job < found) _ _ hreaches hlate hvisit hsignature
    · intro middle hmiddle found hfound
      obtain ⟨after, hafter, hbecomes⟩ := (grows_of_reaches hmiddle).jobs job record hrecord
      rw [← hbecomes.1] at hfound
      exact (h.reaches hmiddle).coherent.lt_of_stands hafter (hfailed.becomes hbecomes)
        (not_due_of_reaches hrecord hfailed hdue hmiddle) hfound
    · intro middle hmiddle _
      obtain ⟨after, hafter, _⟩ := (grows_of_reaches hmiddle).jobs job record hrecord
      exact (List.getElem?_eq_some_iff.1 hafter).1

/-! ### Counters -/

theorem accounts_opening (hempty : start.almanac.cache = Cache.empty) :
    (opening start).Accounts start := by
  intro before hbefore
  refine ⟨before, hbefore, ?_, rfl, fun label => ⟨rfl, rfl⟩⟩
  change _ = _ + start.almanac.cache.jobs.length
  rw [hempty]
  rfl

/-- One more request, which is counted, and the job that it has started, if it has. -/
theorem Accounts.visit (h : traffic.Accounts start) {visit : Visit}
    (hvisits : later.visits = traffic.visits ++ [visit])
    (htally : later.session.tally =
      traffic.session.tally.map fun tally => tally.count visit.counter visit.label)
    (hjobs : later.cache.jobs.length =
      traffic.cache.jobs.length + if visit.started then 1 else 0) : later.Accounts start := by
  intro before hbefore
  obtain ⟨now, hnow, hmisses, hboth, heach⟩ := h before hbefore
  refine ⟨now.count visit.counter visit.label, by rw [htally, hnow]; rfl, ?_, ?_, fun name => ?_⟩
  · rw [Tally.total_count, hmisses, hjobs, Nat.add_assoc]
    cases hstarted : visit.started <;> simp [Visit.counter, hstarted]
  · rw [Tally.total_count, Tally.total_count, hvisits, List.length_append, List.length_singleton]
    cases hstarted : visit.started <;> simp [Visit.counter, hstarted] <;> omega
  · obtain ⟨hmiss, hhit⟩ := heach name
    rw [Tally.amount_count, Tally.amount_count, hvisits, List.countP_append, List.countP_append,
      hmiss, hhit]
    cases hstarted : visit.started <;> by_cases hname : visit.label = name <;>
      simp [Visit.counter, hstarted, hname, Nat.add_assoc]

/-- Nothing that the cache counts has happened. -/
theorem Accounts.same (h : traffic.Accounts start) (hvisits : later.visits = traffic.visits)
    (htally : ∀ counter : Counter, counter.ofCache = true →
      later.session.tally.map (fun tally => tally.labels counter) =
        traffic.session.tally.map fun tally => tally.labels counter)
    (hjobs : later.cache.jobs.length = traffic.cache.jobs.length) : later.Accounts start := by
  intro before hbefore
  obtain ⟨now, hnow, hmisses, hboth, heach⟩ := h before hbefore
  obtain ⟨after, hafter, hlabels⟩ : ∃ after, later.session.tally = some after ∧
      ∀ counter : Counter, counter.ofCache = true → after.labels counter = now.labels counter := by
    have hsome := htally .cacheHits rfl
    rw [hnow] at hsome htally
    obtain ⟨after, hafter, _⟩ := Option.map_eq_some_iff.1 hsome
    refine ⟨after, hafter, fun counter hcounter => ?_⟩
    have hsame := htally counter hcounter
    rw [hafter] at hsame
    exact Option.some.inj hsame
  have htotal : ∀ counter : Counter, counter.ofCache = true →
      after.total counter = now.total counter := by
    intro counter hcounter
    rw [Tally.total, hlabels counter hcounter, Tally.total]
  have hamount : ∀ (counter : Counter) (label : String), counter.ofCache = true →
      after.amount counter label = now.amount counter label := by
    intro counter label hcounter
    rw [Tally.amount_eq_labels, hlabels counter hcounter, Tally.amount_eq_labels]
  refine ⟨after, hafter, ?_, ?_, fun label => ?_⟩
  · rw [htotal _ rfl, hjobs, hmisses]
  · rw [htotal _ rfl, htotal _ rfl, hvisits, hboth]
  · rw [hamount _ _ rfl, hamount _ _ rfl, hvisits]
    exact heach label

theorem Accounts.move (h : traffic.Accounts start) (hmove : Move traffic later) :
    later.Accounts start := by
  cases hmove with
  | hit label stands known => exact h.visit rfl rfl rfl
  | miss label strand free => exact h.visit rfl rfl List.length_append
  | complete outcome known running => exact h.same rfl (fun _ _ => rfl) (List.length_modify _ _ _)
  | evict due =>
      exact h.same rfl (fun _ _ => rfl) (congrArg List.length (Cache.jobs_evict _ _))
  | answer asked waiting known finished => exact h.same rfl (fun _ _ => rfl) rfl
  | aside cache counts =>
      exact h.same rfl counts (congrArg (fun cache => cache.jobs.length) cache)

theorem accounts_of_reaches (hempty : start.almanac.cache = Cache.empty)
    (h : (opening start).Reaches traffic) : traffic.Accounts start := by
  induction h with
  | refl => exact accounts_opening hempty
  | tail _ hmove ih => exact ih.move hmove

/-- In every state that may come of an empty cache, one job at most is being done for each
signature, requests share the outcomes of jobs, values stay, failures go, and everything is
counted. -/
theorem shared_of_reaches (hempty : start.almanac.cache = Cache.empty)
    (h : (opening start).Reaches traffic) :
    traffic.Single ∧ traffic.Shares ∧ traffic.Settles ∧ traffic.Evicts ∧
      traffic.Accounts start := by
  have horderly := (orderly_opening hempty).reaches h
  exact ⟨horderly.single, horderly.shares, horderly.settles, horderly.evicts,
    accounts_of_reaches hempty h⟩

/-- A session that counts, before anything was asked for. -/
def quiet : Session := ⟨Almanac.empty, Registry.empty, some Tally.empty, []⟩

/-- A request starts a job, which fails; another one joins it before the cache hears of the failure,
a third starts anew and its job succeeds, and a fourth joins that one.  The second request is told
of the failure at last. -/
def retried : Traffic :=
  ((((((((opening quiet).begun "age" "age of x" 1).completed 0 (.error .stalled)).joined
    "age" "age of x" 0).evicted 0).begun "age" "age of x" 2).completed 1 (.ok (.int 7))).joined
      "age" "age of x" 1).answered 1 (.error .stalled)

theorem reaches_retried : (opening quiet).Reaches retried := by
  refine .tail (.tail (.tail (.tail (.tail (.tail (.tail (.single (.miss _ _ rfl))
    (.complete _ rfl rfl)) (.hit _ rfl rfl)) (.evict ?_)) (.miss _ _ rfl))
    (.complete _ rfl rfl)) (.hit _ rfl rfl)) (.answer rfl nofun rfl rfl)
  exact List.mem_singleton_self 0

theorem shared_retried : quiet.almanac.cache = Cache.empty ∧ (opening quiet).Reaches retried ∧
    retried.Single ∧ retried.Shares ∧ retried.Settles ∧ retried.Evicts ∧ retried.Accounts quiet :=
  ⟨rfl, reaches_retried, shared_of_reaches rfl reaches_retried⟩

end Rulebook.Traffic
