import Rulebook.Proofs.Fact.Reckoning
import Rulebook.Proofs.Fact.Traffic
import Rulebook.Proofs.Triple

/-!
Where answers come from.

Requests for one fact share what is remembered if their signatures are the same.  Whatever else is
asked for at the same time or before, the answer to a request is what some computation may come to
that is made for its own signature (`mayAnswer_of_yields`), and signatures tell parameters apart, up
to similarity (`signatureText_eq_iff_similar`).
-/

namespace Rulebook

open Eval Session Strand

namespace Almanac

mutual

/-- What a request may be answered.  The value of a fact whose values are remembered comes from a
computation for the same signature, whichever request it was made for. -/
inductive MayAnswer (almanac : Almanac) : FactRequest → Except Error Value → Prop where
  | refused {request : FactRequest} {e : Error} (found : almanac.lookup request.fact = .error e) :
      MayAnswer almanac request (.error e)
  | undefined {request : FactRequest} (found : almanac.lookup request.fact = .ok .undefined) :
      MayAnswer almanac request (if almanac.allowUndefinedFacts then .ok .null
        else .error (.undefinedFact request.fact))
  | given {request : FactRequest} {value : Value}
      (found : almanac.lookup request.fact = .ok (.value value)) :
      MayAnswer almanac request (almanac.applyPath value request.path)
  | computed {request : FactRequest} {fact : Fact} {program : Value → Program}
      {outcome : Except Error Value}
      (found : almanac.lookup request.fact = .ok (.computed fact program))
      (forgets : fact.cacheable = false)
      (comes : MayCome almanac (program (Fact.normalParams request.params)) outcome) :
      MayAnswer almanac request (outcome >>= fun value => almanac.applyPath value request.path)
  | remembered {request : FactRequest} {fact other : Fact} {program another : Value → Program}
      {id params : Value} {outcome : Except Error Value}
      (found : almanac.lookup request.fact = .ok (.computed fact program))
      (remembers : fact.cacheable = true)
      (made : almanac.lookup id = .ok (.computed other another))
      (remembers' : other.cacheable = true)
      (signature : Fact.signatureText other.id params = Fact.signatureText fact.id request.params)
      (comes : MayCome almanac (another (Fact.normalParams params)) outcome) :
      MayAnswer almanac request (outcome >>= fun value => almanac.applyPath value request.path)
  | tooDeep (request : FactRequest) : MayAnswer almanac request (.error .exhausted)

/-- What a computation may come to, with such answers to its requests. -/
inductive MayCome (almanac : Almanac) : Program → Except Error Value → Prop where
  | done (value : Value) : MayCome almanac (.done value) (.ok value)
  | fail (e : Error) : MayCome almanac (.fail e) (.error e)
  | ask {request : FactRequest} {next : Except Error Value → Program}
      {answer outcome : Except Error Value} (answered : MayAnswer almanac request answer)
      (goesOn : MayCome almanac (next answer) outcome) : MayCome almanac (.ask request next) outcome
  | note {label : String} {params : Value} {next : Nat → Program} {n : Nat}
      {outcome : Except Error Value} (goesOn : MayCome almanac (next n) outcome) :
      MayCome almanac (.note label params next) outcome
  | pause {next : Program} {outcome : Except Error Value} (goesOn : MayCome almanac next outcome) :
      MayCome almanac (.pause next) outcome

end

/-- What a computation may come to that is made for a signature. -/
def MayMake (almanac : Almanac) (signature : String) (outcome : Except Error Value) : Prop :=
  ∃ id fact program params, almanac.lookup id = .ok (.computed fact program) ∧
    fact.cacheable = true ∧ Fact.signatureText fact.id params = signature ∧
      almanac.MayCome (program (Fact.normalParams params)) outcome

end Almanac

/-! ### Errands -/

/-- What a strand is there for: how it ends, and the job that it makes, with the signature. -/
structure Errand where
  promise : Ending → Prop
  job : Option (Nat × String)

instance : Preorder Errand where
  le errand other := errand = other
  le_refl _ := rfl
  le_trans _ _ _ h h' := h.trans h'

/-- The errand of making a step that comes to such a result. -/
def Errand.to {α : Type} [Parceled α] (post : Except Error α → Prop) (job : Option (Nat × String)) :
    Errand where
  promise ending := ∃ result, ending = result.map Parceled.pack ∧ post result
  job := job

/-- The errand of making a job. -/
def Errand.making (almanac : Almanac) (signature : String) (job : Nat) : Errand :=
  .to (almanac.MayMake signature) (some (job, signature))

/-- The almanac is as it was, but for what is remembered; and that was made for its signature, or a
strand has the errand to make it. -/
structure Sourced (almanac : Almanac) (errands : List Errand) (now : Session) : Prop where
  frame : now.almanac = { almanac with cache := now.almanac.cache }
  stands : ∀ signature job, now.almanac.cache.entries.find? signature = some job →
    ∃ record, now.almanac.cache.jobs[job]? = some record ∧ record.signature = signature
  finished : ∀ (job : Nat) (record : Job) (outcome : Except Error Value),
    now.almanac.cache.jobs[job]? = some record → record.outcome = some outcome →
      almanac.MayMake record.signature outcome
  running : ∀ (job : Nat) (record : Job), now.almanac.cache.jobs[job]? = some record →
    record.outcome = none → ∃ job, errands[record.strand]? =
      some (.making almanac record.signature job)
  made : ∀ (strand : Nat) (errand : Errand) (job : Nat) (signature : String),
    errands[strand]? = some errand → errand.job = some (job, signature) →
      ∃ record, now.almanac.cache.jobs[job]? = some record ∧ record.signature = signature

/-- Strands keep what is remembered sourced, and end as their errands say. -/
def sourcing (almanac : Almanac) : Charter Session Ending Errand where
  holds ledger world := Sourced almanac ledger.accounts world
  settles errand ending := errand.promise ending
  settles_mono h hle := hle ▸ h

instance (almanac : Almanac) : (sourcing almanac).Unranked := ⟨fun _ => rfl⟩

namespace Sourced

variable {almanac : Almanac} {errands : List Errand} {now later : Session} {signature : String}

/-- What has nothing to do with the almanac. -/
theorem aside (h : Sourced almanac errands now) (halmanac : later.almanac = now.almanac) :
    Sourced almanac errands later := by
  constructor
  · rw [halmanac]; exact h.frame
  · rw [halmanac]; exact h.stands
  · rw [halmanac]; exact h.finished
  · rw [halmanac]; exact h.running
  · rw [halmanac]; exact h.made

/-- Strands that make no job were started. -/
theorem append (h : Sourced almanac errands now) {more : List Errand}
    (hmore : ∀ errand ∈ more, errand.job = none) : Sourced almanac (errands ++ more) now :=
  { h with
    running := fun job record hrecord hrunning => by
      obtain ⟨found, hfound⟩ := h.running job record hrecord hrunning
      exact ⟨found,
        (List.getElem?_append_left (List.getElem?_eq_some_iff.1 hfound).1).trans hfound⟩
    made := fun strand errand job signature herrand hjob => by
      rw [List.getElem?_append] at herrand
      split at herrand
      · exact h.made strand errand job signature herrand hjob
      · cases (hmore errand (List.mem_of_getElem? herrand)).symm.trans hjob }

/-- A session with another cache. -/
theorem frame_onCache (h : Sourced almanac errands now) (change : Cache → Cache) :
    (now.onCache change).almanac =
      { almanac with cache := (now.onCache change).almanac.cache } := by
  have hframe := h.frame
  simp only [onCache] at hframe ⊢
  rw [hframe]

/-- A job was started, and the strand that makes it. -/
theorem start_job (h : Sourced almanac errands now) (signature : String) :
    Sourced almanac (errands ++ [.making almanac signature now.almanac.cache.nextJob])
      (now.onCache fun cache => cache.start signature errands.length) where
  frame := h.frame_onCache _
  stands := Cache.Signed.start h.stands signature errands.length
  finished := by
    intro job record outcome hrecord houtcome
    rcases Cache.getElem?_start hrecord with hold | ⟨rfl, rfl⟩
    · exact h.finished job record outcome hold houtcome
    · cases houtcome
  running := by
    intro job record hrecord hrunning
    rcases Cache.getElem?_start hrecord with hold | ⟨rfl, rfl⟩
    · obtain ⟨found, hfound⟩ := h.running job record hold hrunning
      exact ⟨found,
        (List.getElem?_append_left (List.getElem?_eq_some_iff.1 hfound).1).trans hfound⟩
    · exact ⟨_, List.getElem?_concat_length ..⟩
  made := by
    intro strand errand job found herrand hjob
    rw [List.getElem?_append] at herrand
    split at herrand
    · obtain ⟨record, hrecord, hsignature⟩ := h.made strand errand job found herrand hjob
      exact ⟨record, Cache.getElem?_start_of_some hrecord _ _, hsignature⟩
    · rw [List.mem_singleton.1 (List.mem_of_getElem? herrand)] at hjob
      cases hjob
      exact ⟨_, List.getElem?_concat_length .., rfl⟩

/-- Whoever makes a job has come to an outcome of it. -/
theorem complete (h : Sourced almanac errands now) {strand job : Nat}
    (herrand : errands[strand]? = some (.making almanac signature job))
    {outcome : Except Error Value} (hmade : almanac.MayMake signature outcome) :
    Sourced almanac errands (now.onCache fun cache => cache.complete job outcome) where
  frame := h.frame_onCache _
  stands := Cache.Signed.complete h.stands job outcome
  finished := by
    intro other record result hrecord hresult
    have hcomplete := (Cache.getElem?_complete ..).symm.trans hrecord
    split at hcomplete
    · next hsame =>
        subst hsame
        obtain ⟨found, hfound, hsignature⟩ := h.made strand _ job signature herrand rfl
        rw [hfound, Option.map_some, Option.some.injEq] at hcomplete
        subst hcomplete
        dsimp only at hresult
        cases hbefore : found.outcome with
        | some before =>
            rw [hbefore, Option.some_or] at hresult
            exact h.finished job found result hfound (hbefore.trans hresult)
        | none =>
            rw [hbefore, Option.none_or, Option.some.injEq] at hresult
            dsimp only
            rw [hsignature, ← hresult]
            exact hmade
    · exact h.finished other record result hcomplete hresult
  running := by
    intro other record hrecord hrunning
    have hcomplete := (Cache.getElem?_complete ..).symm.trans hrecord
    split at hcomplete
    · obtain ⟨found, hfound, rfl⟩ := Option.map_eq_some_iff.1 hcomplete
      dsimp only at hrunning
      rw [Option.or_eq_none_iff] at hrunning
      cases hrunning.2
    · exact h.running other record hcomplete hrunning
  made := by
    intro other errand number found hother hjob
    obtain ⟨record, hrecord, hsignature⟩ := h.made other errand number found hother hjob
    obtain ⟨later, hlater, hsame, _⟩ := Cache.getElem?_complete_of_some hrecord job outcome
    exact ⟨later, hlater, hsame.trans hsignature⟩

/-- What is taken out of the cache is not sought there any more, and all jobs are kept on record. -/
theorem evict (h : Sourced almanac errands now) (job : Nat) :
    Sourced almanac errands (Fact.evicting job now) where
  frame := h.frame_onCache _
  stands := Cache.Signed.evict h.stands job
  finished := by
    intro other record outcome hrecord
    change (now.almanac.cache.evict job).jobs[other]? = some record at hrecord
    rw [Cache.jobs_evict] at hrecord
    exact h.finished other record outcome hrecord
  running := by
    intro other record hrecord
    change (now.almanac.cache.evict job).jobs[other]? = some record at hrecord
    rw [Cache.jobs_evict] at hrecord
    exact h.running other record hrecord
  made := by
    intro strand errand other signature herrand hjob
    change ∃ record, (now.almanac.cache.evict job).jobs[other]? = some record ∧ _
    rw [Cache.jobs_evict]
    exact h.made strand errand other signature herrand hjob

/-- What stands for a signature in the cache. -/
theorem of_find? (h : Sourced almanac errands now) {record : Job}
    (hfind : now.almanac.cache.find? signature = some record) :
    ∃ job : Nat, now.almanac.cache.jobs[job]? = some record ∧ record.signature = signature := by
  obtain ⟨job, hstands, hrecord⟩ := Option.bind_eq_some_iff.1 hfind
  obtain ⟨found, hfound, hsignature⟩ := h.stands signature job hstands
  obtain rfl := Option.some.inj (hrecord.symm.trans hfound)
  exact ⟨job, hrecord, hsignature⟩

end Sourced

/-! ### Steps -/

section Steps

variable {almanac : Almanac} {own : Nat} {errand : Errand} {α β : Type}

/-- Whatever goes on besides, and whatever errand it is made for, what a step comes to is such a
result, if it comes to one. -/
def Conveys (almanac : Almanac) (step : Eval Session α) (post : Except Error α → Prop) : Prop :=
  ∀ own errand, Triple (sourcing almanac) own (At (sourcing almanac) own errand) step
    fun result ledger world => post result ∧ At (sourcing almanac) own errand ledger world

namespace Conveys

variable {step : Eval Session α} {post : Except Error α → Prop}

theorem imp (h : Conveys almanac step post) {weaker : Except Error α → Prop}
    (hpost : ∀ result, post result → weaker result) : Conveys almanac step weaker :=
  fun own errand => (h own errand).imp (fun _ _ hat => hat) fun _ _ _ hlast =>
    ⟨hpost _ hlast.1, hlast.2⟩

theorem outcome {result : Except Error α} (h : post result) :
    Conveys almanac (Eval.outcome result) post :=
  fun _ _ => .outcome fun _ _ hat => ⟨h, hat⟩

/-- A step and, unless it fails, another one. -/
theorem bind {rest : α → Eval Session β} {last : Except Error β → Prop}
    (h : Conveys almanac step post) (hok : ∀ a, post (.ok a) → Conveys almanac (rest a) last)
    (herror : ∀ e, post (.error e) → last (.error e)) : Conveys almanac (step >>= rest) last := by
  intro own errand
  refine (h own errand).bind (fun a => ?_) fun e _ _ hlast => ⟨herror e hlast.1, hlast.2⟩
  intro next hnext ledger world hresult
  exact hok a hresult.1 own errand next hnext ledger world hresult.2

/-- A step that comes to one result, and another step. -/
theorem bind_ok {rest : α → Eval Session β} {last : Except Error β → Prop} {a : α}
    (h : Conveys almanac step (· = .ok a)) (hrest : Conveys almanac (rest a) last) :
    Conveys almanac (step >>= rest) last :=
  h.bind (fun _ hok => Except.ok.inj hok ▸ hrest) fun _ hwrong => nomatch hwrong

theorem attempt (h : Conveys almanac step post) :
    Conveys almanac step.attempt fun outcome => ∃ result, outcome = .ok result ∧ post result :=
  fun own errand => (h own errand).attempt.imp (fun _ _ hat => hat)
    fun _ _ _ ⟨result, heq, hlast⟩ => ⟨⟨result, heq, hlast.1⟩, hlast.2⟩

/-- A step that looks at the session first. -/
theorem current_bind {rest : Session → Eval Session α}
    (h : ∀ errands now, Sourced almanac errands now → Conveys almanac (rest now) post) :
    Conveys almanac (current >>= rest) post :=
  fun own errand next hnext ledger world hat =>
    h ledger.accounts world hat.holds own errand next hnext ledger world hat

/-- A change that has nothing to do with the almanac. -/
theorem update {change : Session → Session} (h : ∀ now, (change now).almanac = now.almanac) :
    Conveys almanac (Session.update change) (· = .ok ()) :=
  fun _ _ _ hnext ledger world hat =>
    hnext (.ok ()) ledger (change world) ⟨rfl, hat.account, hat.holds.aside (h world)⟩

theorem pause : Conveys almanac Eval.pause (· = .ok ()) := by
  intro own errand next hnext ledger world hat
  refine Triple.pause (fun _ => next (.ok ())) ?_ ledger world hat
  exact fun _ later scene hlater => hnext _ later scene ⟨rfl, hlater⟩

variable [Parceled α]

theorem starts (h : Conveys almanac step post) (job : Option (Nat × String)) (number : Nat) :
    (sourcing almanac).Starts ((sourcing almanac).Honours step.strand number) number
      (.to post job) := by
  apply Triple.starts
  refine (h number (.to post job)).imp ?_ ?_
  · rintro ledger world ⟨before, rfl, _, hat⟩
    exact ⟨hat.account, hat.holds⟩
  · rintro result ledger world ⟨hresult, hat⟩
    exact ⟨_, Ledger.mayEnter_self hat.account, ⟨result, rfl, hresult⟩,
      (Ledger.enter_self hat.account).symm ▸ hat.holds⟩

/-- Steps side by side. -/
theorem each {ι : Type} {items : List ι} {make : ι → Eval Session α}
    {post : ι → Except Error α → Prop} (h : ∀ item ∈ items, Conveys almanac (make item) (post item)) :
    Conveys almanac (Eval.each (items.map make)) fun result =>
      ∃ outcomes, result = .ok outcomes ∧ List.Forall₂ post items outcomes := by
  intro own errand
  refine (Triple.each (a := errand) (fun item => Errand.to (post item) none)
    (fun item hitem => (h item hitem).starts none) fun ledger world hat => ?_).imp
      (fun _ _ hat => hat) ?_
  · have hnone : ∀ other ∈ items.map fun item => Errand.to (post item) none, other.job = none := by
      intro other hother
      obtain ⟨item, _, rfl⟩ := List.mem_map.1 hother
      rfl
    have haccount : (Triple.openEach ledger (items.map fun item =>
        Errand.to (post item) none)).accounts[own]? = some errand :=
      (List.getElem?_append_left (List.getElem?_eq_some_iff.1 hat.account).1).trans hat.account
    refine ⟨Ledger.mayEnter_self haccount, ?_⟩
    rw [Ledger.enter_self haccount]
    exact hat.holds.append hnone
  · rintro result ledger world ⟨hat, outcomes, rfl, hsettled⟩
    refine ⟨⟨outcomes, rfl, (List.forall₂_map_left_iff.1 hsettled).imp ?_⟩, hat⟩
    rintro item outcome ⟨_, _, ending, _, rfl, ⟨found, rfl, hfound⟩, rfl⟩
    rwa [received_pack]

/-- Whatever a step yields is such a result. -/
theorem post_of_yields (h : Conveys almanac step post) {session : Session}
    (hsourced : Sourced almanac [.to post none] session) {result : Except Error α}
    (hyields : Yields session step result) : post result := by
  obtain ⟨turns, hturns⟩ := hyields
  have hstart : (sourcing almanac).holds ⟨[.to post none], 0⟩ session := hsourced
  obtain ⟨ledger, hgrows, hbalanced, _⟩ :=
    (Loop.balanced_start (h.starts none 0)).run hstart turns
  obtain ⟨errand, herrand, hpromise⟩ := hbalanced.outcome 0 _ hturns
  obtain ⟨same, hsame, rfl⟩ := hgrows.account
    (show (⟨[.to post none], 0⟩ : Ledger Errand).accounts[0]? = some (.to post none) from rfl)
  obtain rfl := Option.some.inj (herrand.symm.trans hsame)
  obtain ⟨found, hfound, hpost⟩ := hpromise
  rwa [pack_injective hfound]

end Conveys

/-! ### Jobs -/

variable {signature : String} {computation : Eval Session Value} {fact : Fact}

/-- Waiting for a strand that makes a job. -/
theorem triple_joinMaking (number : Nat) :
    Triple (sourcing almanac) own (fun ledger world =>
        At (sourcing almanac) own errand ledger world ∧
          ∃ job, ledger.accounts[number]? = some (.making almanac signature job))
      (Eval.join number : Eval Session Value) fun result ledger world =>
        almanac.MayMake signature result ∧ At (sourcing almanac) own errand ledger world := by
  rintro next hnext ledger world ⟨hat, job, hmaking⟩
  have hself := Ledger.enter_self hat.account
  refine Triple.await (Ledger.mayEnter_self hat.account) (hself.symm ▸ hat.holds) (.inl rfl) ?_
  intro known later scene henough hlater hlast hadmits
  cases hadmits with
  | @cons _ ending _ _ hending hrest =>
      cases hrest
      obtain ⟨found, rfl⟩ : ∃ found, ending = some found :=
        Option.isSome_iff_exists.1 (by simpa using henough)
      obtain ⟨account, haccount, hpromise⟩ := hending found rfl
      obtain ⟨same, hsame, rfl⟩ := hlater.account (hself.symm ▸ hmaking)
      obtain rfl := Option.some.inj (hsame.symm.trans haccount)
      obtain ⟨result, rfl, hresult⟩ := hpromise
      refine hnext _ later scene ⟨?_, hlast⟩
      change almanac.MayMake signature (received (some (result.map Parceled.pack)))
      rwa [received_pack]

/-- A strand that makes a job. -/
theorem triple_completing (h : Conveys almanac computation (almanac.MayMake signature)) (job : Nat) :
    Triple (sourcing almanac) own (At (sourcing almanac) own (.making almanac signature job))
      (Fact.completing job computation) fun result ledger world =>
        almanac.MayMake signature result ∧
          At (sourcing almanac) own (.making almanac signature job) ledger world := by
  refine (h.attempt own (.making almanac signature job)).bind (fun result => ?_)
    fun _ _ _ ⟨⟨_, hwrong, _⟩, _⟩ => nomatch hwrong
  rintro next hnext ledger world ⟨⟨_, heq, hmade⟩, hat⟩
  cases heq
  exact hnext result ledger _ ⟨hmade, hat.account, hat.holds.complete hat.account hmade⟩

/-- A strand is started that makes the next job, and waited for. -/
theorem triple_start (h : Conveys almanac computation (almanac.MayMake signature)) (job : Nat) :
    Triple (sourcing almanac) own (fun ledger world =>
        At (sourcing almanac) own errand ledger world ∧ world.almanac.cache.nextJob = job)
      (do
        let strand ← Eval.spawn (Fact.completing job computation) fun _ => Fact.evicting job
        update (onCache fun cache => cache.start signature strand)
        Eval.join strand : Eval Session Value)
      fun result ledger world =>
        almanac.MayMake signature result ∧ At (sourcing almanac) own errand ledger world := by
  have hspawn : Triple (sourcing almanac) own (fun ledger world =>
        At (sourcing almanac) own errand ledger world ∧ world.almanac.cache.nextJob = job)
      (Eval.spawn (Fact.completing job computation) fun _ => Fact.evicting job)
      fun result ledger world => ∃ before : Ledger Errand, result = .ok before.accounts.length ∧
        ledger = before.openFor (.making almanac signature job) ∧
          At (sourcing almanac) own errand before world ∧
            world.almanac.cache.nextJob = job := by
    refine .spawn (b := .making almanac signature job) (fun number => ?_)
      (fun _ ledger world hworld => hworld.evict job) fun ledger world hat => ⟨ledger, rfl, rfl, hat⟩
    apply Triple.starts
    refine (triple_completing h job).imp ?_ ?_
    · rintro ledger world ⟨before, rfl, _, hat⟩
      exact ⟨hat.account, hat.holds⟩
    · rintro result ledger world ⟨hresult, hat⟩
      exact ⟨_, Ledger.mayEnter_self hat.account, ⟨result, rfl, hresult⟩,
        (Ledger.enter_self hat.account).symm ▸ hat.holds⟩
  refine hspawn.bind (fun strand => ?_) fun _ _ _ ⟨_, hwrong, _⟩ => nomatch hwrong
  rintro next hnext _ world ⟨before, hstrand, rfl, hat, rfl⟩
  obtain rfl := Except.ok.inj hstrand
  refine triple_joinMaking before.accounts.length next hnext _ _
    ⟨⟨?_, hat.holds.start_job signature⟩, _, List.getElem?_concat_length ..⟩
  exact (List.getElem?_append_left (List.getElem?_eq_some_iff.1 hat.account).1).trans hat.account

theorem triple_current_bind {pre : Ledger Errand → Session → Prop}
    {post : Except Error α → Ledger Errand → Session → Prop} {rest : Session → Eval Session α}
    (h : ∀ now, Triple (sourcing almanac) own (fun ledger world => world = now ∧ pre ledger world)
      (rest now) post) : Triple (sourcing almanac) own pre (current >>= rest) post := by
  have hget : Triple (sourcing almanac) own pre (MonadState.get >>= fun now => rest now) post :=
    Triple.get_bind h
  exact hget

/-- The value of a signature, whether it is remembered, in the making, or still to be made. -/
theorem conveys_remember (h : Conveys almanac computation (almanac.MayMake signature)) :
    Conveys almanac (fact.remember signature computation) (almanac.MayMake signature) := by
  intro own errand
  have hcounted : ∀ {ledger : Ledger Errand} {world : Session} (counter : Counter),
      At (sourcing almanac) own errand ledger world →
        At (sourcing almanac) own errand ledger (world.counting counter fact.label) :=
    fun _ hat => ⟨hat.account, hat.holds.aside rfl⟩
  refine triple_current_bind fun now => ?_
  dsimp only
  split
  · next record hfind =>
      rintro next hnext ledger world ⟨rfl, hat⟩
      obtain ⟨job, hrecord, rfl⟩ := hat.holds.of_find? hfind
      change (sourcing almanac).Honours (record.join next) own ledger
        (world.counting .cacheHits fact.label)
      unfold Job.join
      cases houtcome : record.outcome with
      | some outcome =>
          exact hnext outcome ledger _ ⟨hat.holds.finished job record outcome hrecord houtcome,
            hcounted _ hat⟩
      | none =>
          exact triple_joinMaking record.strand next hnext ledger _
            ⟨hcounted _ hat, hat.holds.running job record hrecord houtcome⟩
  · rintro next hnext ledger world ⟨rfl, hat⟩
    exact triple_start h _ next hnext ledger _ ⟨hcounted .cacheMisses hat, rfl⟩

/-! ### Requests -/

variable {ask : FactRequest → Eval Session Value} {request : FactRequest}

theorem conveys_note (label : String) (params : Value) :
    Conveys almanac (note label params : Eval Session Nat) fun result => ∃ n, result = .ok n := by
  have hnoted : Conveys almanac (update fun session =>
      { session with notes := session.notes ++ [(label, params)] } : Eval Session Unit)
      (· = .ok ()) := .update fun _ => rfl
  exact hnoted.bind_ok (.current_bind fun _ _ _ => .outcome ⟨_, rfl⟩)

/-- A computation comes to what it may come to, if its requests are answered so. -/
theorem conveys_run (hask : ∀ request, Conveys almanac (ask request) (almanac.MayAnswer request))
    (program : Program) : Conveys almanac (program.run ask) (almanac.MayCome program) := by
  induction program with
  | done value => exact .outcome (.done value)
  | fail e => exact .outcome (.fail e)
  | ask request next ih =>
      refine (hask request).attempt.bind (fun answer hanswer => ?_) fun _ ⟨_, hwrong, _⟩ => nomatch hwrong
      obtain ⟨_, heq, hanswer⟩ := hanswer
      obtain rfl := Except.ok.inj heq
      exact (ih answer).imp fun _ => .ask hanswer
  | note label params next ih =>
      exact (conveys_note label params).bind (fun n _ => (ih n).imp fun _ => .note)
        fun _ ⟨_, hwrong⟩ => nomatch hwrong
  | pause next ih => exact Conveys.pause.bind_ok (ih.imp fun _ => .pause)

theorem conveys_compute (hask : ∀ request, Conveys almanac (ask request) (almanac.MayAnswer request))
    (fact : Fact) (program : Value → Program) (params : Value) :
    Conveys almanac (fact.compute ask program params) (almanac.MayCome (program params)) := by
  have hcounted : Conveys almanac (count .computations fact.label : Eval Session Unit)
      (· = .ok ()) := .update fun _ => rfl
  exact hcounted.bind_ok (conveys_run hask (program params))

/-- What comes of a value to which a path is applied. -/
theorem Conveys.path {step : Eval Session Value} {post last : Except Error Value → Prop}
    (h : Conveys almanac step post) (path : Value)
    (hlast : ∀ outcome, post outcome → last (outcome >>= fun value => almanac.applyPath value path)) :
    Conveys almanac (do
      let value ← step
      Eval.outcome (almanac.applyPath value path)) last :=
  h.bind (fun value hvalue => .outcome (hlast (.ok value) hvalue)) fun e he => hlast (.error e) he

/-- A request is answered as it may be, if those of computations are. -/
theorem conveys_answer (hask : ∀ request, Conveys almanac (ask request) (almanac.MayAnswer request))
    (request : FactRequest) : Conveys almanac (request.answer ask) (almanac.MayAnswer request) := by
  refine Conveys.current_bind fun _ now hnow => ?_
  have hlookup : now.almanac.lookup request.fact = almanac.lookup request.fact := by
    rw [hnow.frame]
    rfl
  have hpath : now.almanac.applyPath = almanac.applyPath := by
    rw [hnow.frame]
    rfl
  have hallow : now.almanac.allowUndefinedFacts = almanac.allowUndefinedFacts := by
    rw [hnow.frame]
  dsimp only
  rw [hlookup, hpath, hallow]
  cases hfound : almanac.lookup request.fact with
  | error e => exact .outcome (.refused hfound)
  | ok entry =>
      cases entry with
      | undefined =>
          have hundefined := Almanac.MayAnswer.undefined hfound
          dsimp only
          split
          · next hallowed => exact .outcome (by rwa [if_pos hallowed] at hundefined)
          · next hrefused => exact .outcome (by rwa [if_neg hrefused] at hundefined)
      | value value => exact .outcome (.given hfound)
      | computed fact program =>
          have hcompute := conveys_compute hask fact program (Fact.normalParams request.params)
          dsimp only
          rw [Fact.signatureText?, Fact.signatureText_normalParams]
          by_cases hcacheable : fact.cacheable = true
          · rw [if_pos hcacheable]
            have hmade := hcompute.imp fun outcome hcomes => (show almanac.MayMake _ outcome from
              ⟨request.fact, fact, program, request.params, hfound, hcacheable, rfl, hcomes⟩)
            refine (conveys_remember hmade).path request.path ?_
            rintro outcome ⟨id, other, another, params, hother, hremembers, hsignature, hcomes⟩
            exact .remembered hfound hcacheable hother hremembers hsignature hcomes
          · rw [if_neg hcacheable]
            exact hcompute.path request.path fun outcome hcomes =>
              .computed hfound (by simpa using hcacheable) hcomes

theorem conveys_factValue (depth : Nat) (request : FactRequest) :
    Conveys almanac (factValue depth request) (almanac.MayAnswer request) := by
  induction depth generalizing request with
  | zero => exact .outcome (.tooDeep request)
  | succ depth ih => exact conveys_answer ih request

/-! ### Rounds of requests -/

/-- Requests are made in rounds: those of a round side by side, and one round after the other. -/
def askRounds (depth : Nat) : List (List FactRequest) → Eval Session Unit
  | [] => pure ()
  | requests :: rounds => do
      let _ ← Eval.each (requests.map (factValue depth))
      askRounds depth rounds

/-- After some rounds there is a last one, and one of its requests is looked at. -/
def askAfter (depth : Nat) (rounds : List (List FactRequest)) (requests : List FactRequest)
    (place : Nat) : Eval Session Value := do
  askRounds depth rounds
  let answers ← Eval.each (requests.map (factValue depth))
  Eval.outcome (answers[place]?.getD (.error .stalled))

theorem conveys_each (depth : Nat) (requests : List FactRequest) :
    Conveys almanac (Eval.each (requests.map (factValue depth))) fun result =>
      ∃ answers, result = .ok answers ∧ List.Forall₂ almanac.MayAnswer requests answers :=
  .each fun request _ => conveys_factValue depth request

theorem conveys_askRounds (depth : Nat) (rounds : List (List FactRequest)) :
    Conveys almanac (askRounds depth rounds) (· = .ok ()) := by
  induction rounds with
  | nil => exact .outcome rfl
  | cons requests rounds ih =>
      exact (conveys_each depth requests).bind (fun _ _ => ih) fun _ ⟨_, hwrong, _⟩ => nomatch hwrong

theorem conveys_askAfter (depth : Nat) (rounds : List (List FactRequest))
    {requests : List FactRequest} {place : Nat} (hplace : requests[place]? = some request) :
    Conveys almanac (askAfter depth rounds requests place) (almanac.MayAnswer request) := by
  refine (conveys_askRounds depth rounds).bind_ok ?_
  refine (conveys_each depth requests).bind (fun answers hanswers => ?_)
    fun _ ⟨_, hwrong, _⟩ => nomatch hwrong
  obtain ⟨_, heq, hall⟩ := hanswers
  obtain rfl := Except.ok.inj heq
  obtain ⟨hlt, rfl⟩ := List.getElem?_eq_some_iff.1 hplace
  obtain ⟨hlength, heach⟩ := List.forall₂_iff_get.1 hall
  have hanswer : answers[place]? = some (answers.get ⟨place, hlength ▸ hlt⟩) :=
    List.getElem?_eq_getElem _
  refine .outcome ?_
  rw [hanswer]
  exact heach place hlt (hlength ▸ hlt)

/-- Nothing is remembered at the start. -/
theorem sourced_of_empty {session : Session} (hempty : session.almanac.cache = Cache.empty)
    {errands : List Errand} (herrands : ∀ errand ∈ errands, errand.job = none) :
    Sourced session.almanac errands session where
  frame := rfl
  stands signature job hfind := by
    rw [hempty] at hfind
    cases hfind
  finished job record outcome hrecord := by
    rw [hempty] at hrecord
    cases hrecord
  running job record hrecord := by
    rw [hempty] at hrecord
    cases hrecord
  made strand errand job signature herrand hjob := by
    cases (herrands errand (List.mem_of_getElem? herrand)).symm.trans hjob

/-- Whatever was asked for before and is asked for at the same time, a request is answered as it may
be. -/
theorem mayAnswer_of_yields {session : Session} (hempty : session.almanac.cache = Cache.empty)
    {depth : Nat} {rounds : List (List FactRequest)} {requests : List FactRequest} {place : Nat}
    (hplace : requests[place]? = some request) {result : Except Error Value}
    (hyields : Yields session (askAfter depth rounds requests place) result) :
    session.almanac.MayAnswer request result :=
  (conveys_askAfter depth rounds hplace).post_of_yields
    (sourced_of_empty hempty (List.forall_mem_singleton.2 rfl)) hyields

end Steps

/-! ### Nothing else is shared -/

/-- Requests that have one job are for one signature. -/
theorem Traffic.Orderly.signature_eq {traffic : Traffic} (h : traffic.Orderly) {first second : Visit}
    (hfirst : first ∈ traffic.visits) (hsecond : second ∈ traffic.visits)
    (hjob : first.job = second.job) : first.signature = second.signature := by
  obtain ⟨record, hrecord, hsignature⟩ := h.attends first hfirst
  obtain ⟨record', hrecord', hsignature'⟩ := h.attends second hsecond
  rw [hjob, hrecord', Option.some.injEq] at hrecord
  rw [← hsignature, ← hsignature', hrecord]

/-- Signatures are the same only if ids and parameters are similar; requests that have one job are for
one signature; and whatever was asked for before and is asked for at the same time, what is
remembered of a fact is answered to a request only if it came of a computation for its own
signature. -/
theorem Almanac.shares_only_similar :
    (∀ id params id' params' : Value, id.Proper → params.Proper → id'.Proper → params'.Proper →
      (Fact.signatureText id params = Fact.signatureText id' params' ↔
        id.Similar id' ∧ (Fact.normalParams params).Similar (Fact.normalParams params'))) ∧
    (∀ (start : Session) (traffic : Traffic) (first second : Visit),
      start.almanac.cache = Cache.empty → (Traffic.opening start).Reaches traffic →
        first ∈ traffic.visits → second ∈ traffic.visits → first.job = second.job →
          first.signature = second.signature) ∧
    ∀ (session : Session) (depth : Nat) (rounds : List (List FactRequest))
      (requests : List FactRequest) (place : Nat) (request : FactRequest)
      (result : Except Error Value), session.almanac.cache = Cache.empty →
        requests[place]? = some request → Yields session (askAfter depth rounds requests place) result →
          session.almanac.MayAnswer request result := by
  refine ⟨fun _ _ _ _ hid hparams hid' hparams' =>
    Fact.signatureText_eq_iff_similar hid hparams hid' hparams', ?_, ?_⟩
  · intro start traffic first second hempty hreaches hfirst hsecond hjob
    exact ((Traffic.orderly_opening hempty).reaches hreaches).signature_eq hfirst hsecond hjob
  · intro session depth rounds requests place request result hempty hplace hyields
    exact mayAnswer_of_yields hempty hplace hyields

/-- A fact that is computed, and is one of the parameters. -/
def chosen : Fact :=
  ⟨.str "chosen", FactOptions.default,
    .computed fun params => .done ((params.member? "value").getD .null)⟩

/-- A session with that fact, before anything was asked for. -/
def choosing : Session :=
  ⟨{ Almanac.empty with facts := [(.str "chosen", chosen)] }, Registry.empty, some Tally.empty, []⟩

/-- A request for this value. -/
def choice (value : Value) : FactRequest := ⟨.str "chosen", .object [("value", value)], .null⟩

/-- The whole number with which a strand has ended. -/
def wholeEnding? : Option Ending → Option Int
  | some (.ok (.value (.int n))) => some n
  | _ => none

theorem eq_of_wholeEnding? {ending : Option Ending} {n : Int} (h : wholeEnding? ending = some n) :
    ending = some (.ok (.value (.int n))) := by
  unfold wholeEnding? at h
  split at h
  · rw [Option.some.inj h]
  · cases h

theorem proper_choice (n : Int) : (choice (.int n)).params.Proper := by
  refine .object (List.nodup_singleton _) fun member hmember => ?_
  rw [List.mem_singleton.1 hmember]
  exact .int n

theorem yields_choice :
    Yields choosing (askAfter 1 [[choice (.int 6)]] [choice (.int 8), choice (.int 7)] 1)
      (.ok (.int 7)) :=
  ⟨60, eq_of_wholeEnding? (by decide +kernel)⟩

/-- A request has started a job, and another one has joined it. -/
def sharing : Traffic :=
  ((Traffic.opening choosing).begun "chosen" "chosen 7" 1).joined "chosen" "chosen 7" 0

theorem reaches_sharing : (Traffic.opening choosing).Reaches sharing :=
  .tail (.single (.miss _ _ rfl)) (.hit _ rfl rfl)

theorem shares_only_similar_choice :
    (choice (.int 6)).params.Proper ∧ (choice (.int 7)).params.Proper ∧
      (Fact.signatureText (.str "chosen") (choice (.int 6)).params =
          Fact.signatureText (.str "chosen") (choice (.int 7)).params ↔
        (Value.str "chosen").Similar (.str "chosen") ∧
          (Fact.normalParams (choice (.int 6)).params).Similar
            (Fact.normalParams (choice (.int 7)).params)) ∧
      choosing.almanac.cache = Cache.empty ∧ (Traffic.opening choosing).Reaches sharing ∧
      (∀ first ∈ sharing.visits, ∀ second ∈ sharing.visits, first.job = second.job →
        first.signature = second.signature) ∧
      Yields choosing (askAfter 1 [[choice (.int 6)]] [choice (.int 8), choice (.int 7)] 1)
        (.ok (.int 7)) ∧
      choosing.almanac.MayAnswer (choice (.int 7)) (.ok (.int 7)) :=
  ⟨proper_choice 6, proper_choice 7,
    Almanac.shares_only_similar.1 _ _ _ _ (.str _) (proper_choice 6) (.str _) (proper_choice 7),
    rfl, reaches_sharing, fun first hfirst second hsecond =>
      Almanac.shares_only_similar.2.1 choosing sharing first second rfl reaches_sharing hfirst hsecond,
    yields_choice,
    Almanac.shares_only_similar.2.2 choosing 1 _ _ 1 _ _ rfl rfl yields_choice⟩

/-- A tuple that was asked for alone, as it is shown, and one that was asked for after a list. -/
theorem list_for_tuple :
    (choice (.tuple [.int 1])).params.equal (choice (.list [.int 1])).params = false ∧
      Fact.signatureText (.str "chosen") (choice (.tuple [.int 1])).params =
        Fact.signatureText (.str "chosen") (choice (.list [.int 1])).params ∧
      (Eval.run choosing (askAfter 1 [] [choice (.tuple [.int 1])] 0)).1.toOption.map
        Value.literal = some "(1,)" ∧
      (Eval.run choosing (askAfter 1 [[choice (.list [.int 1])]]
        [choice (.tuple [.int 1])] 0)).1.toOption.map Value.literal = some "[1]" := by
  decide +kernel

end Rulebook
