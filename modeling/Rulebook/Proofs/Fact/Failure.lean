import Rulebook.Condition.Evaluate
import Rulebook.Proofs.Fact.Coherence
import Rulebook.Proofs.Operator.Failure
import Rulebook.Proofs.Session

/-!
Where the failures of comparisons come from.

A condition can be checked for names of operators and for paths when it is built, so failures of
these kinds can be foreseen.  Nothing that looks facts up fails so by itself.  As long as nothing
in a session brings such a failure, it stays away from the cache, from the operators and from what
the strands hand over (`Session.Spared`), and a comparison fails so only on an operator that is not
known or on a path of its own (`ensures_compare_spared`).
-/

namespace Rulebook

open Session Eval Strand Registry

/-- Could the failure be foreseen when a condition is built?  It says that an operator is not known
or that a path cannot be read. -/
def Error.isForeseeable : Error → Bool
  | .unknownOperator _ | .unknownDecorator _ _ | .badPath => true
  | _ => false

/-- Applying the path to some value fails so. -/
def PathResolver.Raises (resolver : PathResolver) (path : Value) (e : Error) : Prop :=
  ∃ value, resolver value path = .error e

/-- The computation fails so of its own accord, and not because a request of it was answered so, or
it makes a request with a path that fails so. -/
inductive Program.Introduces (resolver : PathResolver) (e : Error) : Program → Prop where
  | fail : Introduces resolver e (.fail e)
  | path {request : FactRequest} {next : Except Error Value → Program}
      (raises : resolver.Raises request.path e) : Introduces resolver e (.ask request next)
  | ask {request : FactRequest} {next : Except Error Value → Program} {answer : Except Error Value}
      (other : answer ≠ .error e) (goesOn : Introduces resolver e (next answer)) :
      Introduces resolver e (.ask request next)
  | note {label : String} {params : Value} {next : Nat → Program} {n : Nat}
      (goesOn : Introduces resolver e (next n)) : Introduces resolver e (.note label params next)
  | pause {next : Program} (goesOn : Introduces resolver e next) :
      Introduces resolver e (.pause next)

/-- Something in the session fails so of its own accord: a computation, a job that has failed
before, an operator or a decorator. -/
inductive Session.Brings (session : Session) (e : Error) : Prop where
  | computation {id params : Value} {fact : Fact} {program : Value → Program}
      (found : session.almanac.lookup id = .ok (.computed fact program))
      (introduces : (program params).Introduces session.almanac.resolver e)
  | job {signature : String} {job : Job}
      (found : session.almanac.cache.find? signature = some job)
      (failed : job.outcome = some (.error e))
  | registry (brings : session.registry.Brings e)

/-- The comparison itself gives no occasion to fail so: its operator is known, and its paths can be
read. -/
structure Leaf.Spares (leaf : Leaf) (session : Session) (e : Error) : Prop where
  passes : Passes (some session.registry) leaf.operator
  fact : ¬ session.almanac.resolver.Raises leaf.request.path e
  value : ∀ request, FactRequest.ofValue? leaf.value = some request →
    ¬ session.almanac.resolver.Raises request.path e

theorem Almanac.lookup_error {almanac : Almanac} {id : Value} {e : Error}
    (h : almanac.lookup id = .error e) : id.hashable = false ∧ e = .type := by
  unfold Almanac.lookup at h
  split at h
  · next hnot => exact ⟨by simpa using hnot, (Except.error.inj h).symm⟩
  · split at h
    · cases h
    · split at h
      · cases h
      · split at h <;> cases h

theorem Almanac.applyPath_ne {almanac : Almanac} {value path : Value} {e : Error}
    (h : ¬ almanac.resolver.Raises path e) : almanac.applyPath value path ≠ .error e := by
  unfold Almanac.applyPath
  split
  · split
    · exact fun hfailed => h ⟨_, hfailed⟩
    · exact fun hfailed => h ⟨_, hfailed⟩
    · exact nofun
  · exact nofun

/-! ### The cache -/

namespace Cache

/-- No job in the cache is still running. -/
def Idle (cache : Cache) : Prop :=
  ∀ signature job, cache.find? signature = some job → job.outcome.isSome = true

variable {cache : Cache} {signature : String} {job : Job}

theorem find?_start {started : String} {strand : Nat}
    (h : (cache.start started strand).find? signature = some job) :
    cache.find? signature = some job ∨ job = ⟨started, strand, none⟩ := by
  obtain ⟨number, hstands, hjob⟩ := Option.bind_eq_some_iff.1 h
  rcases getElem?_start hjob with hold | ⟨_, rfl⟩
  · rw [find?_entries_start] at hstands
    split at hstands
    · obtain rfl := Option.some.inj hstands
      exact absurd (List.getElem?_eq_some_iff.1 hold).1 (lt_irrefl _)
    · exact .inl (Option.bind_eq_some_iff.2 ⟨number, hstands, hold⟩)
  · exact .inr rfl

theorem find?_complete {number : Nat} {outcome : Except Error Value}
    (h : (cache.complete number outcome).find? signature = some job) :
    ∃ before, cache.find? signature = some before ∧
      (job = before ∨ job = { before with outcome := before.outcome.or (some outcome) }) := by
  obtain ⟨stands, hstands, hjob⟩ := Option.bind_eq_some_iff.1 h
  rw [getElem?_complete] at hjob
  split at hjob
  · obtain ⟨before, hbefore, rfl⟩ := Option.map_eq_some_iff.1 hjob
    exact ⟨before, Option.bind_eq_some_iff.2 ⟨stands, hstands, hbefore⟩, .inr rfl⟩
  · exact ⟨job, Option.bind_eq_some_iff.2 ⟨stands, hstands, hjob⟩, .inl rfl⟩

theorem find?_evict {number : Nat} (h : (cache.evict number).find? signature = some job) :
    cache.find? signature = some job := by
  obtain ⟨stands, hstands, hjob⟩ := Option.bind_eq_some_iff.1 h
  rw [jobs_evict] at hjob
  exact Option.bind_eq_some_iff.2 ⟨stands, find?_entries_of_evict hstands, hjob⟩

end Cache

/-- The job has not failed so, and if it is still running, its strand has pledged not to. -/
structure Job.Spares (job : Job) (pledges : Pledges Ending) (e : Error) : Prop where
  finished : ∀ result, job.outcome = some result → result ≠ .error e
  running : job.outcome = none → ∃ pledge, pledges[job.strand]? = some pledge ∧
    ¬ pledge.holds (.error e)

theorem Job.Spares.mono {job : Job} {pledges later : Pledges Ending} {e : Error}
    (h : job.Spares pledges e) (hlater : pledges <+: later) : job.Spares later e where
  finished := h.finished
  running hrunning := by
    obtain ⟨pledge, hpledge, hnot⟩ := h.running hrunning
    exact ⟨pledge, getElem?_mono hlater hpledge, hnot⟩

/-- Nothing in the session fails so by now.  The facts are those of the beginning, and nothing but
looking names up was done to the operators. -/
structure Session.Spared (start : Session) (e : Error) (pledges : Pledges Ending) (now : Session) :
    Prop where
  almanac : now.almanac = { start.almanac with cache := now.almanac.cache }
  consulted : Consulted (some start.registry) (some now.registry)
  registry : ¬ now.registry.Brings e
  jobs : ∀ signature job, now.almanac.cache.find? signature = some job → job.Spares pledges e

namespace Session

variable {σ : Type} [HasSession σ] {start : Session} {e : Error}

/-- A session is spared a failure. -/
def spared (start : Session) (e : Error) : Invariant σ Ending where
  holds pledges world := start.Spared e pledges (HasSession.session world)
  mono hlater h := { h with jobs := fun signature job hjob => (h.jobs signature job hjob).mono hlater }

/-- A session in which no job is running is spared what nothing in it brings. -/
theorem spared_start (hspared : ¬ start.Brings e) (hidle : start.almanac.cache.Idle)
    (pledges : Pledges Ending) : start.Spared e pledges start where
  almanac := rfl
  consulted := .refl _
  registry hbrings := hspared (.registry hbrings)
  jobs signature job hjob := by
    refine ⟨fun result hresult heq => ?_, fun hrunning => ?_⟩
    · exact hspared (.job hjob (hresult.trans (congrArg some heq)))
    · have hfinished := hidle signature job hjob
      rw [hrunning] at hfinished
      cases hfinished

theorem spared_update {pledges : Pledges Ending} {world : σ} {changed : Session}
    (h : start.Spared e pledges changed) :
    (start.spared e : Invariant σ Ending) pledges (HasSession.withSession changed world) := by
  change start.Spared e pledges (HasSession.session (HasSession.withSession changed world))
  rwa [HasSession.session_withSession]

theorem spared_counting {pledges : Pledges Ending} {world : σ} (counter : Counter) (label : String)
    (h : (start.spared e : Invariant σ Ending) pledges world) :
    (start.spared e : Invariant σ Ending) pledges
      (HasSession.withSession ((HasSession.session world).counting counter label) world) :=
  spared_update ⟨h.almanac, h.consulted, h.registry, h.jobs⟩

theorem tallyFree_spared : TallyFree (start.spared e : Invariant σ Ending) :=
  fun _ _ counter label _ h => spared_counting counter label h

theorem spared_aside {pledges : Pledges Ending} {world : σ} (notes : List (String × Value))
    (h : (start.spared e : Invariant σ Ending) pledges world) :
    (start.spared e : Invariant σ Ending) pledges
      (HasSession.withSession { HasSession.session world with notes } world) :=
  spared_update ⟨h.almanac, h.consulted, h.registry, h.jobs⟩

/-- A session with another cache in which no job fails so. -/
theorem Spared.onCache {pledges : Pledges Ending} {now : Session} {change : Cache → Cache}
    (h : start.Spared e pledges now)
    (hjobs : ∀ signature job, (change now.almanac.cache).find? signature = some job →
      job.Spares pledges e) : start.Spared e pledges (now.onCache change) where
  almanac := by
    have halmanac := h.almanac
    simp only [Session.onCache] at halmanac ⊢
    rw [halmanac]
  consulted := h.consulted
  registry := h.registry
  jobs := hjobs

end Session

/-! ### Looking facts up -/

section Steps

variable {σ : Type} [HasSession σ] {start : Session} {e : Error} {rank : ℕ∞}

theorem ensures_note_spared (label : String) (params : Value) :
    Ensures (start.spared e : Invariant σ Ending) rank (note label params) fun result =>
      ∃ n, result = .ok n := by
  have hupdate : Ensures (start.spared e : Invariant σ Ending) rank
      (update fun session => { session with notes := session.notes ++ [(label, params)] })
      (· = .ok ()) :=
    ensures_update fun pledges world h => Session.spared_aside _ h
  refine hupdate.bind (fun _ _ => ?_) fun _ he => nomatch he
  exact ensures_current_bind (fun _ => True) (fun _ _ _ => trivial) fun session _ =>
    Ensures.pure ⟨_, rfl⟩

/-- An operator that is looked up does not fail so, and it is found if it passed when it was
checked. -/
theorem ensures_operator_spared (name : String) :
    Ensures (start.spared e : Invariant σ Ending) rank (Session.operator name) fun result =>
      (Passes (some start.registry) name → result ≠ .error e) ∧
        ∀ operator, result = .ok operator → ¬ operator.Raises e := by
  refine ensures_current_bind
    (fun now => Consulted (some start.registry) (some now.registry) ∧ ¬ now.registry.Brings e)
    (fun _ _ h => ⟨h.consulted, h.registry⟩) fun now hnow => ?_
  obtain ⟨hconsulted, hspared⟩ := hnow
  have hlater : Consulted (some start.registry) (some (now.registry.get name).2) :=
    hconsulted.consult name
  have hupdate : Ensures (start.spared e : Invariant σ Ending) rank
      (update fun other => { other with registry := (now.registry.get name).2 }) (· = .ok ()) := by
    refine ensures_update fun pledges world h => Session.spared_update ?_
    exact ⟨h.almanac, hlater, fun hbrings => hspared ((Brings.of_lookup name).2 hbrings), h.jobs⟩
  refine hupdate.bind (fun _ _ => Ensures.outcome ⟨fun hpasses => ?_, ?_⟩) fun _ he => nomatch he
  · obtain ⟨operator, hget⟩ := (hconsulted.passes hpasses _ rfl).get
    exact fun hfailed => nomatch hget.symm.trans hfailed
  · exact fun operator hget hraises => hspared (Brings.of_get hget hraises)

/-- Nothing but the strand itself makes it fail so. -/
theorem received_ne {α : Type} [Parceled α] (he : e.isForeseeable = true) {ending : Ending}
    (h : ending ≠ .error e) : (received (some ending) : Except Error α) ≠ .error e := by
  intro hreceived
  cases ending with
  | error cause => exact h (congrArg Except.error (Except.error.inj hreceived))
  | ok parcel =>
      unfold received at hreceived
      dsimp only at hreceived
      split at hreceived
      · cases hreceived
      · rw [← Except.error.inj hreceived] at he
        cases he

omit [HasSession σ] in
/-- Waiting for a strand that has pledged not to fail so. -/
theorem keeps_join_spared {α : Type} [Parceled α] (he : e.isForeseeable = true)
    {inv : Invariant σ Ending} {number : Nat} {own pledge : Pledge Ending}
    {next : Except Error α → Strand σ Ending} {pledges : Pledges Ending} {world : σ}
    (hrank : ⊤ ≤ own.rank) (hinv : inv pledges world) (hpledge : pledges[number]? = some pledge)
    (hspares : ¬ pledge.holds (.error e))
    (hnext : ∀ result, result ≠ .error e → Lasting inv pledges (Keeps inv (next result) own)) :
    Keeps inv (Eval.join number next) own pledges world := by
  refine ⟨hinv, .inl (top_le_iff.1 hrank), fun known hknown later world hlater hworld hadmits =>
    hnext _ ?_ later world hlater hworld⟩
  cases hadmits with
  | @cons _ ending _ _ hending hnil =>
      cases hnil
      cases ending with
      | none => simp at hknown
      | some ending =>
          obtain ⟨found, hfound, hholds⟩ := hending ending rfl
          obtain rfl := Option.some.inj (hfound.symm.trans (getElem?_mono hlater hpledge))
          refine received_ne he ?_
          rintro rfl
          exact hspares hholds

omit [HasSession σ] in
/-- Whoever asks for a job that does not fail so is not told so. -/
theorem keeps_job_spared (he : e.isForeseeable = true) {inv : Invariant σ Ending} {job : Job}
    {own : Pledge Ending} {next : Except Error Value → Strand σ Ending}
    {pledges : Pledges Ending} {world : σ} (hrank : ⊤ ≤ own.rank) (hinv : inv pledges world)
    (hjob : job.Spares pledges e)
    (hnext : ∀ result, result ≠ .error e → Lasting inv pledges (Keeps inv (next result) own)) :
    Keeps inv (job.join next) own pledges world := by
  unfold Job.join
  cases houtcome : job.outcome with
  | some result =>
      exact hnext result (hjob.finished result houtcome) pledges world List.prefix_rfl hinv
  | none =>
      obtain ⟨pledge, hpledge, hspares⟩ := hjob.running houtcome
      exact keeps_join_spared he hrank hinv hpledge hspares hnext

/-- A computation of whose outcome the cache is told. -/
theorem ensures_completing_spared {computation : Eval σ Value} (job : Nat)
    (h : Ensures (start.spared e) rank computation (· ≠ .error e)) :
    Ensures (start.spared e) rank (Fact.completing job computation) (· ≠ .error e) := by
  refine h.attempt.bind (fun result hresult => ?_) fun cause hcause => ?_
  · obtain ⟨outcome, heq, houtcome⟩ := hresult
    cases heq
    have hupdate : Ensures (start.spared e : Invariant σ Ending) rank
        (update (onCache fun cache => cache.complete job result)) (· = .ok ()) := by
      refine ensures_update fun pledges world h => Session.spared_update (h.onCache ?_)
      intro signature found hfound
      obtain ⟨before, hbefore, rfl | rfl⟩ := Cache.find?_complete hfound
      · exact h.jobs signature found hbefore
      · refine ⟨fun other hother => ?_, fun hnone => ?_⟩
        · cases hbefore' : before.outcome with
          | none =>
              rw [hbefore', Option.none_or, Option.some.injEq] at hother
              exact hother ▸ houtcome
          | some first =>
              rw [hbefore', Option.some_or, Option.some.injEq] at hother
              exact hother ▸ (h.jobs signature before hbefore).finished first hbefore'
        · simp at hnone
    exact hupdate.bind (fun _ _ => Ensures.outcome houtcome) fun _ he => nomatch he
  · obtain ⟨_, hnone, _⟩ := hcause
    cases hnone

/-- What a computed fact is remembered for, or is computed for now, does not fail so if the
computation does not. -/
theorem ensures_remember_spared (he : e.isForeseeable = true) (fact : Fact) (signature : String)
    {computation : Eval σ Value}
    (h : Ensures (start.spared e) ⊤ computation (· ≠ .error e)) :
    Ensures (start.spared e) ⊤ (fact.remember signature computation) (· ≠ .error e) := by
  intro own next pledges world hrank hinv hnext
  unfold Fact.remember
  rw [keeps_current_bind]
  cases hfind : (HasSession.session world).almanac.cache.find? signature with
  | some job =>
      dsimp only
      rw [Session.count, keeps_update_bind]
      exact keeps_job_spared he hrank (spared_counting .cacheHits fact.label hinv)
        (hinv.jobs signature job hfind) hnext
  | none =>
      dsimp only
      rw [Session.count, keeps_update_bind]
      have hcompleting :=
        ensures_completing_spared (HasSession.session world).almanac.cache.nextJob h
      let pledged := Eval.pledge ⊤ fun result : Except Error Value => result ≠ .error e
      have hmore : pledges <+: pledges ++ [pledged] := List.prefix_append _ _
      have hown : (pledges ++ [pledged])[pledges.length]? = some pledged := by simp
      have hspares : ¬ pledged.holds (.error e) := by
        rintro ⟨result | value, heq, hne⟩
        · cases heq
          exact hne rfl
        · cases heq
      have hcounted := (start.spared e).mono hmore (spared_counting .cacheMisses fact.label hinv)
      refine ⟨pledged, hcompleting.strand _, ?_, ?_⟩
      · intro ending _ later world _ hworld
        refine Session.spared_update (hworld.onCache fun signature job hjob => ?_)
        exact hworld.jobs signature job (Cache.find?_evict hjob)
      · refine keeps_update_bind.2 (keeps_join_spared he hrank (Session.spared_update ?_) hown
          hspares fun result hresult => (hnext result hresult).mono hmore)
        refine Spared.onCache hcounted fun other job hjob => ?_
        rcases Cache.find?_start hjob with hold | rfl
        · exact hcounted.jobs other job hold
        · exact ⟨nofun, fun _ => ⟨pledged, hown, hspares⟩⟩

/-- A computation whose requests are not answered so. -/
theorem ensures_run_spared {ask : FactRequest → Eval σ Value}
    (hask : ∀ request, Ensures (start.spared e) ⊤ (ask request) fun result =>
      ¬ start.almanac.resolver.Raises request.path e → result ≠ .error e)
    {program : Program} (hprogram : ¬ program.Introduces start.almanac.resolver e) :
    Ensures (start.spared e) ⊤ (program.run ask) (· ≠ .error e) := by
  induction program with
  | done value => exact Ensures.pure nofun
  | fail cause =>
      refine Ensures.throw fun heq => hprogram ?_
      cases heq
      exact .fail
  | ask request next ih =>
      refine (hask request).attempt.bind (fun answer hanswer => ?_) fun cause hcause => ?_
      · obtain ⟨result, heq, hresult⟩ := hanswer
        cases heq
        refine ih answer fun hnext => hprogram (.ask (hresult fun hpath => ?_) hnext)
        exact hprogram (.path hpath)
      · obtain ⟨_, hnone, _⟩ := hcause
        cases hnone
  | note label params next ih =>
      refine (ensures_note_spared label params).bind (fun n _ => ?_) fun cause hcause => ?_
      · exact ih n fun hnext => hprogram (.note hnext)
      · obtain ⟨_, hnone⟩ := hcause
        cases hnone
  | pause next ih =>
      refine Ensures.pause.bind (fun _ _ => ?_) fun cause hcause => nomatch hcause
      exact ih fun hnext => hprogram (.pause hnext)

/-- A request is not answered so unless its path fails so. -/
theorem ensures_factValue_spared (he : e.isForeseeable = true) (hspared : ¬ start.Brings e)
    (depth : Nat) (request : FactRequest) :
    Ensures (start.spared e : Invariant σ Ending) ⊤ (factValue depth request) fun result =>
      ¬ start.almanac.resolver.Raises request.path e → result ≠ .error e := by
  induction depth generalizing request with
  | zero =>
      refine Ensures.throw fun _ heq => ?_
      cases heq
      cases he
  | succ depth ih =>
      refine ensures_current_bind
        (fun now => now.almanac = { start.almanac with cache := now.almanac.cache })
        (fun _ _ h => h.almanac) fun now halmanac => ?_
      have hlookup : now.almanac.lookup request.fact = start.almanac.lookup request.fact := by
        rw [halmanac]
        rfl
      have hresolver : now.almanac.resolver = start.almanac.resolver := by rw [halmanac]
      have hpath : ∀ value, ¬ start.almanac.resolver.Raises request.path e →
          now.almanac.applyPath value request.path ≠ .error e := by
        rw [← hresolver]
        exact fun value => Almanac.applyPath_ne
      dsimp only
      rw [hlookup]
      split
      · next cause hcause =>
          refine Ensures.throw fun _ heq => ?_
          rw [← Except.error.inj heq, (Almanac.lookup_error hcause).2] at he
          cases he
      · split
        · exact Ensures.pure fun _ => nofun
        · refine Ensures.throw fun _ heq => ?_
          cases heq
          cases he
      · exact Ensures.outcome (hpath _)
      · next fact program hcomputed =>
          have hcompute : Ensures (start.spared e : Invariant σ Ending) ⊤
              (fact.compute (factValue depth) program (Fact.normalParams request.params))
              (· ≠ .error e) := by
            refine ensures_count_bind tallyFree_spared rfl (ensures_run_spared ih ?_)
            exact fun hintroduces => hspared (.computation hcomputed hintroduces)
          have hanswer : ∀ {step : Eval σ Value},
              Ensures (start.spared e : Invariant σ Ending) ⊤ step (· ≠ .error e) →
              Ensures (start.spared e : Invariant σ Ending) ⊤
                (do Eval.outcome (now.almanac.applyPath (← step) request.path)) fun result =>
                  ¬ start.almanac.resolver.Raises request.path e → result ≠ .error e :=
            fun hstep => hstep.bind (fun value _ => Ensures.outcome (hpath value))
              fun cause hcause _ => hcause
          split
          · exact hanswer hcompute
          · exact hanswer (ensures_remember_spared he fact _ hcompute)

theorem ensures_valueOf_spared (he : e.isForeseeable = true) (hspared : ¬ start.Brings e)
    (depth : Nat) (value : Value) :
    Ensures (start.spared e : Invariant σ Ending) ⊤ (valueOf depth value) fun result =>
      (∀ request, FactRequest.ofValue? value = some request →
        ¬ start.almanac.resolver.Raises request.path e) → result ≠ .error e := by
  unfold valueOf
  split
  · next request hrequest =>
      exact (ensures_factValue_spared he hspared depth request).imp
        fun result hresult hpath => hresult (hpath request hrequest)
  · exact Ensures.pure fun _ => nofun

/-- A comparison does not fail so unless it gives occasion to. -/
theorem ensures_compare_spared (he : e.isForeseeable = true) (hspared : ¬ start.Brings e)
    (depth : Nat) (leaf : Leaf) :
    Ensures (start.spared e : Invariant σ Ending) ⊤ (leaf.compare depth) fun result =>
      leaf.Spares start e → result ≠ .error e := by
  refine (ensures_operator_spared leaf.operator).bind (fun operator hoperator => ?_)
    fun cause hcause hleaf heq => hcause.1 hleaf.passes (congrArg _ (Except.error.inj heq))
  have hboth := (ensures_valueOf_spared (σ := σ) he hspared depth leaf.value).both
    (ensures_factValue_spared he hspared depth leaf.request)
  refine (hboth.raise le_top).bind (fun sides _ => ?_) fun cause hcause hleaf heq => ?_
  · have hverdict : Ensures (start.spared e : Invariant σ Ending) ⊤
        (Eval.outcome (operator.evaluate sides.2 sides.1)) (· ≠ .error e) :=
      Ensures.outcome fun hfailed => hoperator.2 operator rfl ⟨_, _, hfailed⟩
    refine hverdict.bind (fun verdict _ => Ensures.pure fun _ => nofun) fun cause hcause _ heq => ?_
    exact hcause (congrArg _ (Except.error.inj heq))
  · obtain rfl := Except.error.inj heq
    rcases hcause with hvalue | hfact
    · exact hvalue hleaf.value rfl
    · exact hfact hleaf.fact rfl

end Steps

end Rulebook
