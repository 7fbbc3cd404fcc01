import Rulebook.Proofs.Fact.Memory

/-!
Requests that are made alone.

A request is answered as it is reckoned, whatever is remembered (`alone_factValue`).  The depth
decides: the requests of a computation go less deep than the computation itself, so none of them is
for a job that is still running, and by induction on the depth each of them is answered.
-/

namespace Rulebook

open Eval Session

variable {α : Type} {world : Session} {post : Except Error α → Session → Prop}

namespace Session

theorem alone_current_bind {rest : Session → Eval Session α}
    (h : Alone world (rest world) post) : Alone world (current >>= rest) post := by
  have hget : Alone world (MonadState.get >>= fun seen => rest seen) post := Alone.get_bind h
  exact hget

theorem alone_update_bind (change : Session → Session) {rest : Eval Session α}
    (h : Alone (change world) rest post) : Alone world (do update change; rest) post := by
  refine (Alone.modify change).bind_ok ?_
  rintro _ after rfl
  exact h

theorem alone_note (label : String) (params : Value) :
    Alone world (note label params) fun result after =>
      ∃ n, result = .ok n ∧ after = { world with notes := world.notes ++ [(label, params)] } := by
  refine alone_update_bind _ ?_
  apply alone_current_bind
  exact Alone.outcome ⟨_, rfl, rfl⟩

end Session

/-- The value of a signature: what has come of the job that stands for it, or what comes of a new
one. -/
theorem alone_remember {fact : Fact} {signature : String} {computation : Eval Session Value}
    {post : Except Error Value → Session → Prop}
    (hhit : ∀ job, world.almanac.cache.find? signature = some job →
      ∃ result, job.outcome = some result ∧ post result (world.counting .cacheHits fact.label))
    (hmiss : world.almanac.cache.find? signature = none → ∀ strand,
      Alone ((world.counting .cacheMisses fact.label).onCache
          fun cache => cache.start signature strand) computation fun result after =>
        post result (Fact.evicting world.almanac.cache.nextJob
          (after.onCache fun cache => cache.complete world.almanac.cache.nextJob result))) :
    Alone world (fact.remember signature computation) post := by
  apply alone_current_bind
  dsimp only
  split
  · next job hfind =>
      obtain ⟨result, houtcome, hpost⟩ := hhit job hfind
      refine alone_update_bind (Session.counting .cacheHits fact.label) ?_
      rw [Job.join, houtcome]
      exact Alone.outcome hpost
  · next hfind =>
      refine alone_update_bind (Session.counting .cacheMisses fact.label) ?_
      refine Alone.task (fun strand => Session.onCache fun cache =>
        cache.start signature strand) fun strand => ?_
      refine (hmiss hfind strand).attempt.bind_ok ?_
      intro result after hpost
      exact alone_update_bind _ (Alone.outcome hpost)

namespace Reckoning

variable {reckoning : Reckoning} {almanac : Almanac} {request : FactRequest} {fact : Fact}
  {program : Value → Program} {bound : Nat} {ask : FactRequest → Eval Session Value}

/-- The request was answered as it is reckoned, and nothing was done but what that takes. -/
def Answered (reckoning : Reckoning) (almanac : Almanac) (world : Session) (request : FactRequest)
    (result : Except Error Value) (after : Session) : Prop :=
  result = reckoning.answer almanac request ∧
    ∃ made, Progress reckoning almanac world after [request] made

/-- A computation whose requests are answered as they are reckoned. -/
theorem alone_run {permitted : FactRequest → Prop} {program : Program} {value : Value}
    (hreturns : program.Returns (reckoning.answer almanac) permitted value)
    (hask : ∀ request world, permitted request → reckoning.Ready almanac bound world →
      Alone world (ask request) (reckoning.Answered almanac world request))
    (hready : reckoning.Ready almanac bound world) :
    Alone world (program.run ask) fun result after => result = .ok value ∧
      ∃ asked made, program.Asks (reckoning.answer almanac) asked ∧
        Progress reckoning almanac world after asked made := by
  induction hreturns generalizing world with
  | done value => exact Alone.outcome ⟨rfl, [], [], .done value, .aside rfl fun _ => rfl⟩
  | @ask request next value hasks _ ih =>
      refine (hask request world hasks hready).attempt.bind_ok ?_
      rintro _ after ⟨rfl, made, hprogress⟩
      refine (ih (hprogress.ready hready)).imp ?_
      rintro result last ⟨hresult, asked, others, hasked, hlast⟩
      exact ⟨hresult, _, _, .ask hasked, hprogress.trans hlast⟩
  | @note label params next value _ ih =>
      have hnoted : Progress reckoning almanac world
          { world with notes := world.notes ++ [(label, params)] } [] [] := progress_note ..
      refine (alone_note label params).bind_ok ?_
      rintro n after rfl
      refine (ih n (hnoted.ready hready)).imp ?_
      rintro result last ⟨hresult, asked, made, hasked, hlast⟩
      exact ⟨hresult, asked, made, .note n hasked, hnoted.trans hlast⟩
  | @pause next value _ ih =>
      refine Alone.pause.bind_ok ?_
      rintro _ after rfl
      refine (ih hready).imp ?_
      rintro result last ⟨hresult, asked, made, hasked, hlast⟩
      exact ⟨hresult, asked, made, .pause hasked, hlast⟩

/-- What comes of a computation: its value, and the computations that were made for it. -/
def Computed (reckoning : Reckoning) (almanac : Almanac) (fact : Fact) (program : Value → Program)
    (params : Value) (world : Session) (result : Except Error Value) (after : Session) : Prop :=
  result = .ok (reckoning.value fact.label params) ∧
    ∃ asked made, (program params).Asks (reckoning.answer almanac) asked ∧
      Progress reckoning almanac (world.counting .computations fact.label) after asked made

theorem alone_compute (hsound : reckoning.Sound almanac) {id params : Value}
    (hcomputes : Computes almanac id fact program) (haccepts : reckoning.accepts fact.label params)
    (hask : ∀ request world, reckoning.Permits almanac request →
      reckoning.Within almanac (reckoning.depth fact.label params) request →
        reckoning.Ready almanac (reckoning.depth fact.label params) world →
          Alone world (ask request) (reckoning.Answered almanac world request))
    (hready : reckoning.Ready almanac (reckoning.depth fact.label params) world) :
    Alone world (fact.compute ask program params)
      (reckoning.Computed almanac fact program params world) := by
  have hcounting : reckoning.Ready almanac (reckoning.depth fact.label params)
      (world.counting .computations fact.label) := ⟨hready.frame, hready.coherent, hready.jobs⟩
  refine alone_update_bind (Session.counting .computations fact.label) ?_
  exact alone_run (hsound.returns id fact program hcomputes params haccepts)
    (fun request world hpermitted => hask request world hpermitted.1 hpermitted.2) hcounting

/-- A job that stands for the signature of a request has the value that is reckoned for it. -/
theorem Ready.outcome (hready : reckoning.Ready almanac bound world)
    (hsound : reckoning.Sound almanac) (hcomputes : Computes almanac request.fact fact program)
    (haccepts : reckoning.accepts fact.label (Fact.normalParams request.params))
    (hdepth : reckoning.depth fact.label (Fact.normalParams request.params) < bound) {job : Job}
    (hfind : world.almanac.cache.find? (Fact.signatureText fact.id request.params) = some job) :
    job ∈ world.almanac.cache.jobs ∧ job.signature = Fact.signatureText fact.id request.params ∧
      job.outcome = some (.ok (reckoning.value fact.label (Fact.normalParams request.params))) := by
  obtain ⟨number, hstands, hjob⟩ := Option.bind_eq_some_iff.1 hfind
  have hmem := List.mem_of_getElem? hjob
  have hsignature : job.signature = Fact.signatureText fact.id request.params := by
    obtain ⟨found, hfound, hsame⟩ := hready.coherent.stands _ number hstands
    rw [hjob, Option.some.injEq] at hfound
    rw [hfound, hsame]
  obtain ⟨name, params, haccepts', hsignature', houtcome⟩ := hready.jobs job hmem
  obtain ⟨own, -, hid, rfl⟩ := hsound.named hcomputes
  rw [hsignature, hid, Fact.signatureText_eq_iff (hsound.json _ _ haccepts)
    (hsound.json _ _ haccepts')] at hsignature'
  obtain ⟨rfl, halike⟩ := hsignature'
  obtain ⟨hvalue, hsame⟩ := hsound.alike _ _ _ haccepts haccepts' halike
  rcases houtcome with hfinished | ⟨-, hdeep⟩
  · exact ⟨hmem, hsignature, hvalue ▸ hfinished⟩
  · omega

/-- What is asked for on the way to a new job is not that job. -/
theorem Ready.start (hready : reckoning.Ready almanac bound world)
    {name : String} {params : Value}
    (haccepts : reckoning.accepts name (Fact.normalParams params))
    (hdepth : reckoning.depth name (Fact.normalParams params) < bound)
    (hfree : world.almanac.cache.entries.find? (Fact.signatureText (.str name) params) = none)
    (strand : Nat) : reckoning.Ready almanac (reckoning.depth name (Fact.normalParams params))
      (world.onCache fun cache => cache.start (Fact.signatureText (.str name) params) strand) where
  frame := by
    have hframe := hready.frame
    simp only [Session.onCache] at hframe ⊢
    rw [hframe]
  coherent := hready.coherent.start hfree strand
  jobs job hjob := by
    rcases List.mem_append.1 hjob with hold | hnew
    · exact (hready.mono hdepth.le).jobs job hold
    · rw [List.mem_singleton.1 hnew]
      exact ⟨name, params, haccepts, rfl, .inr ⟨rfl, Nat.le_refl _⟩⟩

/-- The value of a computed fact was found as it is reckoned, and nothing was done but what that
takes. -/
def Valued (reckoning : Reckoning) (almanac : Almanac) (fact : Fact) (world : Session)
    (request : FactRequest) (result : Except Error Value) (after : Session) : Prop :=
  result = .ok (reckoning.value fact.label (Fact.normalParams request.params)) ∧
    ∃ made, Progress reckoning almanac world after [request] made

theorem alone_remember (hsound : reckoning.Sound almanac)
    (hcomputes : Computes almanac request.fact fact program) (hcacheable : fact.cacheable = true)
    (haccepts : reckoning.accepts fact.label (Fact.normalParams request.params))
    (hdepth : reckoning.depth fact.label (Fact.normalParams request.params) < bound)
    (hready : reckoning.Ready almanac bound world) {computation : Eval Session Value}
    (hcomputation : ∀ world, reckoning.Ready almanac
      (reckoning.depth fact.label (Fact.normalParams request.params)) world →
        Alone world computation
          (reckoning.Computed almanac fact program (Fact.normalParams request.params) world)) :
    Alone world (fact.remember (Fact.signatureText fact.id request.params) computation)
      (reckoning.Valued almanac fact world request) := by
  obtain ⟨name, hname, hid, rfl⟩ := hsound.named hcomputes
  apply Rulebook.alone_remember
  · intro job hfind
    obtain ⟨hmem, hsignature, houtcome⟩ := hready.outcome hsound hcomputes haccepts hdepth hfind
    have hhit : Progress reckoning almanac world (world.counting .cacheHits fact.label) [] [] :=
      progress_counting world (by decide) fact.label
    refine ⟨_, houtcome, rfl, [], hhit.direct ?_⟩
    intro found program' hfound _
    obtain ⟨rfl, -⟩ := hcomputes.unique hfound
    exact ⟨job, hmem, hsignature⟩
  · intro hfind strand
    let missed := world.counting .cacheMisses fact.label
    have hfree : missed.almanac.cache.entries.find? (Fact.signatureText fact.id request.params) =
        none := hready.coherent.find?_eq_none.1 hfind
    have hmissed : Progress reckoning almanac world missed [] [] :=
      progress_counting world (by decide) fact.label
    have hstarted : reckoning.Ready almanac
        (reckoning.depth fact.label (Fact.normalParams request.params))
        (missed.onCache fun cache =>
          cache.start (Fact.signatureText fact.id request.params) strand) := by
      rw [hid] at hfree ⊢
      exact Ready.start (hmissed.ready hready) haccepts hdepth hfree strand
    refine (hcomputation _ hstarted).imp ?_
    rintro _ after ⟨rfl, asked, made, hasked, hprogress⟩
    let calculation : Calculation := ⟨fact.label, Fact.normalParams request.params, asked⟩
    have hsignature : calculation.signature = Fact.signatureText fact.id request.params := by
      rw [hid]
      exact Fact.signatureText_normalParams _ _
    rw [hname] at hcomputes
    rw [← hsignature] at hfree hprogress
    have hremembered := Progress.remembered hsound hfree hprogress
      ⟨fact, program, hcomputes, haccepts, hasked⟩ ⟨hname, rfl⟩
      ((remembers_of_computes hcomputes).trans hcacheable)
    exact ⟨rfl, calculation :: made, hmissed.trans hremembered⟩

theorem alone_unremembered (hsound : reckoning.Sound almanac)
    (hcomputes : Computes almanac request.fact fact program) (hnot : fact.cacheable = false)
    (haccepts : reckoning.accepts fact.label (Fact.normalParams request.params))
    {computation : Eval Session Value}
    (hcomputation : Alone world computation
      (reckoning.Computed almanac fact program (Fact.normalParams request.params) world)) :
    Alone world computation (reckoning.Valued almanac fact world request) := by
  refine hcomputation.imp ?_
  rintro result after ⟨hresult, asked, made, hasked, hprogress⟩
  obtain ⟨name, hname, _, rfl⟩ := hsound.named hcomputes
  rw [hname] at hcomputes
  let calculation : Calculation := ⟨fact.label, Fact.normalParams request.params, asked⟩
  have hgenuine : calculation.Genuine reckoning almanac :=
    ⟨fact, program, hcomputes, haccepts, hasked⟩
  have hnot : almanac.remembers calculation.name = false :=
    (remembers_of_computes hcomputes).trans hnot
  exact ⟨hresult, _, hprogress.unremembered hgenuine ⟨hname, rfl⟩ hnot⟩

/-- The path is applied to the value of a computed fact in the end. -/
theorem alone_applyPath (hcomputes : Computes almanac request.fact fact program)
    {step : Eval Session Value} (h : Alone world step (reckoning.Valued almanac fact world request)) :
    Alone world (step >>= fun value => Eval.outcome (almanac.applyPath value request.path))
      (reckoning.Answered almanac world request) := by
  apply h.bind
  · rintro value after ⟨hvalue, made, hprogress⟩
    obtain rfl := Except.ok.inj hvalue
    exact Alone.outcome ⟨(answer_of_computes hcomputes).symm, made, hprogress⟩
  · rintro e after ⟨he, _⟩
    cases he

/-- Nothing has to be computed for the request. -/
theorem alone_outcome {result : Except Error Value}
    (hresult : result = reckoning.answer almanac request)
    (hnot : ∀ fact program, ¬ Computes almanac request.fact fact program) :
    Alone world (Eval.outcome result) (reckoning.Answered almanac world request) := by
  refine Alone.outcome ⟨hresult, [], (Progress.aside rfl fun _ => rfl).direct ?_⟩
  exact fun fact program hcomputes => absurd hcomputes (hnot fact program)

theorem alone_answer (hsound : reckoning.Sound almanac)
    (hpermits : reckoning.Permits almanac request) (hwithin : reckoning.Within almanac bound request)
    (hask : ∀ asked world lower, lower < bound → reckoning.Permits almanac asked →
      reckoning.Within almanac lower asked → reckoning.Ready almanac lower world →
        Alone world (ask asked) (reckoning.Answered almanac world asked))
    (hready : reckoning.Ready almanac bound world) :
    Alone world (request.answer ask) (reckoning.Answered almanac world request) := by
  have hlookup : world.almanac.lookup request.fact = almanac.lookup request.fact := by
    rw [hready.frame]
    rfl
  have hpath : world.almanac.applyPath = almanac.applyPath := by
    rw [hready.frame]
    rfl
  have hallow : world.almanac.allowUndefinedFacts = almanac.allowUndefinedFacts := by
    rw [hready.frame]
  apply alone_current_bind
  dsimp only
  rw [hlookup, hpath, hallow]
  cases hfound : almanac.lookup request.fact with
  | error e =>
      apply alone_outcome
      · rw [answer_eq, hfound]
      · simp [Computes, hfound]
  | ok entry =>
      cases entry with
      | undefined =>
          have hnot : ∀ fact program, ¬ Computes almanac request.fact fact program := by
            simp [Computes, hfound]
          dsimp only
          split
          · next hallowed => exact alone_outcome (by rw [answer_eq, hfound, if_pos hallowed]) hnot
          · next hrefused => exact alone_outcome (by rw [answer_eq, hfound, if_neg hrefused]) hnot
      | value value =>
          apply alone_outcome
          · rw [answer_eq, hfound]
          · simp [Computes, hfound]
      | computed fact program =>
          have hdepth := hwithin.2 fact program hfound
          have haccepts := hpermits fact program hfound
          have hasks := fun asked world => hask asked world _ hdepth
          dsimp only
          rw [Fact.signatureText?, Fact.signatureText_normalParams]
          by_cases hcacheable : fact.cacheable = true
          · rw [if_pos hcacheable]
            apply alone_applyPath hfound
            exact alone_remember hsound hfound hcacheable haccepts hdepth hready
              fun _ => alone_compute hsound hfound haccepts hasks
          · rw [if_neg hcacheable]
            apply alone_applyPath hfound
            exact alone_unremembered hsound hfound (Bool.eq_false_of_not_eq_true hcacheable) haccepts
              (alone_compute hsound hfound haccepts hasks (hready.mono hdepth.le))

/-- A request that is made alone is answered as it is reckoned, as long as no job is waited for that
is not finished. -/
theorem alone_factValue (hsound : reckoning.Sound almanac) {depth : Nat} (hle : bound ≤ depth)
    (hpermits : reckoning.Permits almanac request) (hwithin : reckoning.Within almanac bound request)
    (hready : reckoning.Ready almanac bound world) :
    Alone world (factValue depth request) (reckoning.Answered almanac world request) := by
  induction depth generalizing bound request world with
  | zero => exact absurd hwithin.1 (Nat.not_lt.2 hle)
  | succ depth ih =>
      refine alone_answer hsound hpermits hwithin ?_ hready
      intro asked world lower hlower hpermits hwithin hready
      exact ih (Nat.le_of_lt_succ (Nat.lt_of_lt_of_le hlower hle)) hpermits hwithin hready

end Reckoning

end Rulebook
