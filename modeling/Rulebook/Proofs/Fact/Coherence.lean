import Rulebook.Fact.Cache
import Rulebook.Proofs.Table

/-!
The cache while jobs come and go.

`Coherent` ties the jobs that stand in the cache to all jobs so far.  Each thing that is done to a
cache preserves it, and jobs keep their signature and their outcome (`Grows`).
-/

namespace Rulebook

/-- The job came to a failure. -/
def Job.Failed (record : Job) : Prop := ∃ e, record.outcome = some (.error e)

/-- A job as it was and as it is later: its signature and its outcome stay. -/
def Job.Becomes (record later : Job) : Prop :=
  later.signature = record.signature ∧
    ∀ outcome, record.outcome = some outcome → later.outcome = some outcome

theorem Job.not_failed_of_running {record : Job} (h : record.outcome = none) :
    ¬ record.Failed := by
  rintro ⟨e, he⟩
  rw [h] at he
  cases he

theorem Job.not_failed_of_ok {record : Job} {value : Value}
    (h : record.outcome = some (.ok value)) : ¬ record.Failed := by
  rintro ⟨e, he⟩
  rw [h] at he
  cases he

theorem Job.Failed.becomes {record later : Job} (h : record.Failed)
    (hlater : record.Becomes later) : later.Failed := by
  obtain ⟨e, he⟩ := h
  exact ⟨e, hlater.2 _ he⟩

theorem Job.becomes_refl (record : Job) : record.Becomes record := ⟨rfl, fun _ h => h⟩

namespace Cache

variable {cache : Cache} {due : List Nat}

theorem jobs_evict (cache : Cache) (job : Nat) : (cache.evict job).jobs = cache.jobs := by
  unfold evict
  split
  · split <;> rfl
  · rfl

/-- A job is taken out of the cache if it has failed and stands there; otherwise nothing changes. -/
theorem evict_cases (cache : Cache) (job : Nat) :
    (∃ record, cache.jobs[job]? = some record ∧ record.Failed ∧
      cache.entries.find? record.signature = some job ∧
      cache.evict job = { cache with entries := cache.entries.erase record.signature }) ∨
    (∀ record, cache.jobs[job]? = some record → record.Failed →
      cache.entries.find? record.signature ≠ some job) ∧ cache.evict job = cache := by
  unfold evict
  split
  · next signature strand e hjob =>
      split
      · next hstands => exact .inl ⟨_, hjob, ⟨e, rfl⟩, eq_of_beq hstands, rfl⟩
      · next hstands =>
          refine .inr ⟨fun record hrecord _ hfind => hstands ?_, rfl⟩
          obtain rfl := Option.some.inj (hjob.symm.trans hrecord)
          exact beq_iff_eq.2 hfind
  · next hjob =>
      refine .inr ⟨?_, rfl⟩
      rintro ⟨signature, strand, outcome⟩ hrecord ⟨e, rfl⟩
      exact absurd hrecord (hjob signature strand e)

/-- Nothing comes to stand in the cache when a job is taken out of it. -/
theorem find?_entries_of_evict {job number : Nat} {signature : String}
    (h : (cache.evict number).entries.find? signature = some job) :
    cache.entries.find? signature = some job := by
  rcases evict_cases cache number with ⟨record, _, _, _, herase⟩ | ⟨_, hsame⟩
  · rw [herase, Table.find?_erase] at h
    split at h
    · cases h
    · exact h
  · rw [← hsame]
    exact h

theorem getElem?_complete (cache : Cache) (job other : Nat) (outcome : Except Error Value) :
    (cache.complete job outcome).jobs[other]? =
      if job = other then cache.jobs[other]?.map fun record =>
        { record with outcome := record.outcome.or (some outcome) }
      else cache.jobs[other]? := by
  rw [complete, List.getElem?_modify]
  split
  · rfl
  · exact Option.map_id'

/-- Finishing a job leaves every job under its signature and with its strand. -/
theorem getElem?_complete_of_some {job : Nat} {record : Job} (h : cache.jobs[job]? = some record)
    (finished : Nat) (outcome : Except Error Value) : ∃ later : Job,
      (cache.complete finished outcome).jobs[job]? = some later ∧
        later.signature = record.signature ∧ later.strand = record.strand := by
  rw [getElem?_complete, h]
  split
  · exact ⟨_, rfl, rfl, rfl⟩
  · exact ⟨record, rfl, rfl, rfl⟩

/-- A job that is finished, or that there is none of, is not finished again. -/
theorem complete_eq_self {job : Nat}
    (h : ∀ record, cache.jobs[job]? = some record → record.outcome ≠ none)
    (outcome : Except Error Value) : cache.complete job outcome = cache := by
  have hjobs : (cache.complete job outcome).jobs = cache.jobs := by
    apply List.ext_getElem?
    intro other
    rw [getElem?_complete]
    split
    · next hsame =>
        subst hsame
        cases hrecord : cache.jobs[job]? with
        | none => rfl
        | some record =>
            obtain ⟨first, hfirst⟩ := Option.ne_none_iff_exists'.1 (h record hrecord)
            rw [Option.map_some, hfirst, Option.some_or, ← hfirst]
    · rfl
  exact congrArg (Cache.mk cache.entries) hjobs

theorem getElem?_start_of_some {job : Nat} {record : Job} (h : cache.jobs[job]? = some record)
    (signature : String) (strand : Nat) :
    (cache.start signature strand).jobs[job]? = some record := by
  rw [start, List.getElem?_append_left (List.getElem?_eq_some_iff.1 h).1]
  exact h

/-- A job after another one was started was there before, or is that one. -/
theorem getElem?_start {signature : String} {strand job : Nat} {record : Job}
    (h : (cache.start signature strand).jobs[job]? = some record) :
    cache.jobs[job]? = some record ∨ job = cache.nextJob ∧ record = ⟨signature, strand, none⟩ := by
  rw [start, List.getElem?_append] at h
  split at h
  · exact .inl h
  · next hlt =>
      rw [List.getElem?_singleton] at h
      split at h
      · next hsub => exact .inr ⟨by rw [nextJob]; omega, (Option.some.inj h).symm⟩
      · cases h

/-- The job that was started stays where it is when more are started after it. -/
theorem jobs_of_start {later : Cache} {signature : String} {strand : Nat} {added : List Job}
    (h : later.jobs = (cache.start signature strand).jobs ++ added) :
    later.jobs = cache.jobs ++ ⟨signature, strand, none⟩ :: added ∧
      later.jobs[cache.nextJob]? = some ⟨signature, strand, none⟩ := by
  have hjobs : later.jobs = cache.jobs ++ ⟨signature, strand, none⟩ :: added :=
    h.trans (List.append_assoc _ _ _)
  refine ⟨hjobs, ?_⟩
  rw [hjobs]
  simp [nextJob]

theorem find?_entries_start (cache : Cache) (signature other : String) (strand : Nat) :
    (cache.start signature strand).entries.find? other =
      if signature == other then some cache.nextJob else cache.entries.find? other :=
  Table.find?_insert cache.entries signature other cache.nextJob

/-- Whatever stands for a signature is a job for it. -/
def Signed (cache : Cache) : Prop :=
  ∀ signature job, cache.entries.find? signature = some job →
    ∃ record, cache.jobs[job]? = some record ∧ record.signature = signature

theorem Signed.start (h : Signed cache) (signature : String) (strand : Nat) :
    Signed (cache.start signature strand) := by
  intro other job hjob
  rw [find?_entries_start] at hjob
  split at hjob
  · next hsame =>
      obtain rfl := Option.some.inj hjob
      exact ⟨⟨signature, strand, none⟩, List.getElem?_concat_length, eq_of_beq hsame⟩
  · obtain ⟨record, hrecord, hsignature⟩ := h other job hjob
    exact ⟨record, getElem?_start_of_some hrecord _ _, hsignature⟩

theorem Signed.complete (h : Signed cache) (job : Nat) (outcome : Except Error Value) :
    Signed (cache.complete job outcome) := by
  intro signature other hother
  obtain ⟨record, hrecord, hsignature⟩ := h signature other hother
  obtain ⟨later, hlater, hsame, _⟩ := getElem?_complete_of_some hrecord job outcome
  exact ⟨later, hlater, hsame.trans hsignature⟩

theorem Signed.evict (h : Signed cache) (job : Nat) : Signed (cache.evict job) := by
  intro signature other hother
  rw [jobs_evict]
  exact h signature other (find?_entries_of_evict hother)

/-- Whatever stands for a signature is the last job for it.  A job stands unless it has failed and
the cache has heard of it. -/
structure Coherent (cache : Cache) (due : List Nat) : Prop where
  stands : ∀ signature job, cache.entries.find? signature = some job →
    ∃ record, cache.jobs[job]? = some record ∧ record.signature = signature
  standing : ∀ job record, cache.jobs[job]? = some record →
    (cache.entries.find? record.signature = some job ↔ (record.Failed → job ∈ due))
  last : ∀ signature job, cache.entries.find? signature = some job →
    ∀ other record, cache.jobs[other]? = some record → record.signature = signature → other ≤ job

theorem coherent_empty : Coherent empty [] where
  stands _ _ h := nomatch h
  standing _ _ h := nomatch h
  last _ _ h := nomatch h

theorem Coherent.find?_eq_none (h : Coherent cache due) {signature : String} :
    cache.find? signature = none ↔ cache.entries.find? signature = none := by
  unfold find?
  cases hfind : cache.entries.find? signature with
  | none => exact iff_of_true rfl rfl
  | some job =>
      obtain ⟨record, hrecord, _⟩ := h.stands signature job hfind
      simp [hrecord]

/-- A job that has not failed stands. -/
theorem Coherent.stands_of_not_failed (h : Coherent cache due) {job : Nat} {record : Job}
    (hrecord : cache.jobs[job]? = some record) (hnot : ¬ record.Failed) :
    cache.entries.find? record.signature = some job := by
  apply (h.standing job record hrecord).2
  intro hfailed
  exact absurd hfailed hnot

/-- A job that does not stand has failed, and the cache has heard of it. -/
theorem Coherent.not_stands (h : Coherent cache due) {job : Nat} {record : Job}
    (hrecord : cache.jobs[job]? = some record) :
    cache.entries.find? record.signature ≠ some job ↔ record.Failed ∧ job ∉ due := by
  rw [Ne, h.standing job record hrecord, Classical.not_imp]

theorem Coherent.start (h : Coherent cache due) {signature : String}
    (hfree : cache.entries.find? signature = none) (strand : Nat) :
    Coherent (cache.start signature strand) due where
  stands := Signed.start h.stands signature strand
  standing job record hrecord := by
    rw [find?_entries_start]
    rcases getElem?_start hrecord with hold | ⟨rfl, rfl⟩
    · split
      · next hsame =>
          rw [eq_of_beq hsame] at hfree
          have hnot : cache.entries.find? record.signature ≠ some job := by
            rw [hfree]
            exact nofun
          have hlt := (List.getElem?_eq_some_iff.1 hold).1
          apply iff_of_false
          · intro hjob
            exact Nat.ne_of_gt hlt (Option.some.inj hjob)
          · intro himp
            exact hnot ((h.standing job record hold).2 himp)
      · exact h.standing job record hold
    · rw [if_pos (beq_self_eq_true signature)]
      exact iff_of_true rfl fun hfailed => absurd hfailed (Job.not_failed_of_running rfl)
  last other job hjob another record hrecord hsignature := by
    rw [find?_entries_start] at hjob
    rcases getElem?_start hrecord with hold | ⟨rfl, rfl⟩
    · split at hjob
      · obtain rfl := Option.some.inj hjob
        exact Nat.le_of_lt (List.getElem?_eq_some_iff.1 hold).1
      · exact h.last other job hjob another record hold hsignature
    · rw [← hsignature, if_pos (beq_self_eq_true signature)] at hjob
      exact Nat.le_of_eq (Option.some.inj hjob)

/-- What was a job before another one was finished. -/
theorem exists_of_getElem?_complete {job other : Nat} {outcome : Except Error Value} {record : Job}
    (h : (cache.complete job outcome).jobs[other]? = some record) :
    ∃ before, cache.jobs[other]? = some before ∧ before.signature = record.signature ∧
      (other ≠ job → before = record) := by
  rw [getElem?_complete] at h
  split at h
  · next hsame =>
      obtain ⟨before, hbefore, rfl⟩ := Option.map_eq_some_iff.1 h
      exact ⟨before, hbefore, rfl, fun hne => absurd hsame.symm hne⟩
  · exact ⟨record, h, rfl, fun _ => rfl⟩

theorem Coherent.complete (h : Coherent cache due) {job : Nat} {record : Job}
    (hrecord : cache.jobs[job]? = some record) (hrunning : record.outcome = none)
    (outcome : Except Error Value) : Coherent (cache.complete job outcome) (due ++ [job]) where
  stands := Signed.complete h.stands job outcome
  standing other found hfound := by
    change cache.entries.find? found.signature = some other ↔ _
    obtain ⟨before, hbefore, hsignature, hsame⟩ := exists_of_getElem?_complete hfound
    by_cases hother : other = job
    · subst hother
      obtain rfl := Option.some.inj (hrecord.symm.trans hbefore)
      rw [← hsignature]
      apply iff_of_true
      · exact h.stands_of_not_failed hrecord (Job.not_failed_of_running hrunning)
      · intro _
        exact List.mem_append_right _ (List.mem_singleton_self _)
    · obtain rfl := hsame hother
      rw [h.standing other before hbefore, List.mem_append, List.mem_singleton, or_iff_left hother]
  last signature standing hstanding other found hfound hsignature := by
    obtain ⟨before, hbefore, hsame, _⟩ := exists_of_getElem?_complete hfound
    exact h.last signature standing hstanding other before hbefore (hsame.trans hsignature)

/-- What stands for the signature of a failed job of which the cache has heard was started later. -/
theorem Coherent.lt_of_stands (h : Coherent cache due) {job found : Nat} {record : Job}
    (hrecord : cache.jobs[job]? = some record) (hfailed : record.Failed) (hdue : job ∉ due)
    (hfound : cache.entries.find? record.signature = some found) : job < found := by
  have hnot := (h.not_stands hrecord).2 ⟨hfailed, hdue⟩
  have hle := h.last record.signature found hfound job record hrecord rfl
  apply Nat.lt_of_le_of_ne hle
  rintro rfl
  exact hnot hfound

/-- A job of which the cache does not expect to hear is not taken out of it. -/
theorem Coherent.evict_eq_self (h : Coherent cache due) {job : Nat} (hdue : job ∉ due) :
    cache.evict job = cache := by
  rcases evict_cases cache job with ⟨record, hrecord, hfailed, hstands, _⟩ | ⟨_, hsame⟩
  · exact absurd hstands ((h.not_stands hrecord).2 ⟨hfailed, hdue⟩)
  · exact hsame

theorem evict_of_not_failed {job : Nat} {record : Job} (hrecord : cache.jobs[job]? = some record)
    (hnot : ¬ record.Failed) : cache.evict job = cache := by
  rcases evict_cases cache job with ⟨found, hfound, hfailed, _⟩ | ⟨_, hsame⟩
  · obtain rfl := Option.some.inj (hrecord.symm.trans hfound)
    exact absurd hfailed hnot
  · exact hsame

/-- Nothing but the job itself is taken out of the cache. -/
theorem find?_evict_of_ne {job other : Nat} {signature : String} (hne : other ≠ job)
    (h : cache.entries.find? signature = some other) :
    (cache.evict job).entries.find? signature = some other := by
  rcases evict_cases cache job with ⟨record, _, _, hstands, herase⟩ | ⟨_, hsame⟩
  · rw [herase, Table.find?_erase, if_neg, h]
    intro hsignature
    rw [← eq_of_beq hsignature, h] at hstands
    exact hne (Option.some.inj hstands)
  · rw [hsame, h]

/-- A failed job does not stand any more once the cache has heard of it, and neither does any
other. -/
theorem Coherent.find?_evict_self (h : Coherent cache due) {job : Nat} {record : Job}
    (hrecord : cache.jobs[job]? = some record) (hfailed : record.Failed) (hdue : job ∈ due) :
    (cache.evict job).entries.find? record.signature = none := by
  have hstands := (h.standing job record hrecord).2 fun _ => hdue
  rcases evict_cases cache job with ⟨found, hfound, _, _, herase⟩ | ⟨hnot, _⟩
  · obtain rfl := Option.some.inj (hrecord.symm.trans hfound)
    rw [herase, Table.find?_erase, if_pos (beq_self_eq_true _)]
  · exact absurd hstands (hnot record hrecord hfailed)

/-- A cache in which no job has failed holds one job for each signature. -/
theorem Coherent.nodup_signatures (h : Coherent cache [])
    (hdone : ∀ job ∈ cache.jobs, ¬ job.Failed) : (cache.jobs.map Job.signature).Nodup := by
  rw [List.Nodup, List.pairwise_map, List.pairwise_iff_getElem]
  intro first second hfirst hsecond hlt hsame
  have hstands : ∀ (number : Nat) (hnumber : number < cache.jobs.length),
      cache.entries.find? cache.jobs[number].signature = some number := by
    intro number hnumber
    refine (h.standing number _ (List.getElem?_eq_getElem hnumber)).2 fun hfailed => ?_
    exact absurd hfailed (hdone _ (List.getElem_mem hnumber))
  have hnumber := hstands first hfirst
  rw [hsame, hstands second hsecond, Option.some.injEq] at hnumber
  omega

theorem mem_filter_ne {job other : Nat} :
    other ∈ due.filter (· != job) ↔ other ∈ due ∧ other ≠ job := by
  simp

/-- A failed job that stands in the cache is taken out of it. -/
theorem Coherent.erase (h : Coherent cache due) {job : Nat} {record : Job}
    (hrecord : cache.jobs[job]? = some record) (hfailed : record.Failed)
    (hstands : cache.entries.find? record.signature = some job) :
    Coherent { cache with entries := cache.entries.erase record.signature }
      (due.filter (· != job)) := by
  constructor
  · intro signature other hother
    rw [Table.find?_erase] at hother
    split at hother
    · cases hother
    · exact h.stands signature other hother
  · intro other found hfound
    rw [Table.find?_erase, mem_filter_ne]
    split
    · next hsame =>
        apply iff_of_false nofun
        intro himp
        by_cases heq : other = job
        · subst heq
          obtain rfl := Option.some.inj (hrecord.symm.trans hfound)
          exact (himp hfailed).2 rfl
        · have hnot : cache.entries.find? found.signature ≠ some other := by
            rw [eq_of_beq hsame, hstands]
            intro hjob
            exact heq (Option.some.inj hjob).symm
          obtain ⟨hfound', hdue⟩ := (h.not_stands hfound).1 hnot
          exact hdue (himp hfound').1
    · next hsame =>
        have hne : other ≠ job := by
          rintro rfl
          obtain rfl := Option.some.inj (hrecord.symm.trans hfound)
          exact hsame (beq_self_eq_true _)
        rw [h.standing other found hfound, and_iff_left hne]
  · intro signature standing hstanding other found hfound hsignature
    rw [Table.find?_erase] at hstanding
    split at hstanding
    · cases hstanding
    · exact h.last signature standing hstanding other found hfound hsignature

/-- The cache hears of a job that does not stand there for a failure. -/
theorem Coherent.forget (h : Coherent cache due) {job : Nat}
    (hnot : ∀ record, cache.jobs[job]? = some record → record.Failed →
      cache.entries.find? record.signature ≠ some job) :
    Coherent cache (due.filter (· != job)) := by
  refine ⟨h.stands, ?_, h.last⟩
  intro other found hfound
  rw [h.standing other found hfound, mem_filter_ne]
  apply imp_congr_right
  intro hfailed
  by_cases heq : other = job
  · subst heq
    have hdue := ((h.not_stands hfound).1 (hnot found hfound hfailed)).2
    exact iff_of_false hdue fun hmem => hmem.2 rfl
  · rw [and_iff_left heq]

theorem Coherent.evict (h : Coherent cache due) (job : Nat) :
    Coherent (cache.evict job) (due.filter (· != job)) := by
  rcases evict_cases cache job with ⟨record, hrecord, hfailed, hstands, herase⟩ | ⟨hnot, hsame⟩
  · rw [herase]
    exact h.erase hrecord hfailed hstands
  · rw [hsame]
    exact h.forget hnot

/-! ### Jobs that stay -/

/-- Every job of a cache is there later. -/
def Grows (cache later : Cache) : Prop :=
  ∀ (job : Nat) (record : Job), cache.jobs[job]? = some record →
    ∃ after : Job, later.jobs[job]? = some after ∧ record.Becomes after

theorem grows_of_jobs_eq {later : Cache} (h : later.jobs = cache.jobs) : Grows cache later :=
  fun _ record hrecord => ⟨record, h ▸ hrecord, record.becomes_refl⟩

theorem Grows.trans {later latest : Cache} (h : Grows cache later) (hlater : Grows later latest) :
    Grows cache latest := by
  intro job record hrecord
  obtain ⟨middle, hmiddle, hsignature, houtcome⟩ := h job record hrecord
  obtain ⟨after, hafter, hsame, hkept⟩ := hlater job middle hmiddle
  exact ⟨after, hafter, hsame.trans hsignature,
    fun outcome hfinished => hkept outcome (houtcome outcome hfinished)⟩

theorem grows_start (cache : Cache) (signature : String) (strand : Nat) :
    Grows cache (cache.start signature strand) :=
  fun _ record hrecord => ⟨record, getElem?_start_of_some hrecord _ _, record.becomes_refl⟩

theorem grows_complete (cache : Cache) (job : Nat) (outcome : Except Error Value) :
    Grows cache (cache.complete job outcome) := by
  intro other record hrecord
  rw [getElem?_complete, hrecord]
  split
  · refine ⟨_, rfl, rfl, fun first hfirst => ?_⟩
    dsimp only
    rw [hfirst, Option.some_or]
  · exact ⟨record, rfl, record.becomes_refl⟩

theorem grows_evict (cache : Cache) (job : Nat) : Grows cache (cache.evict job) :=
  grows_of_jobs_eq (jobs_evict cache job)

end Cache

end Rulebook
