import Rulebook.Condition.Evaluate
import Rulebook.Proofs.Concord
import Rulebook.Proofs.Fact.Coherence
import Rulebook.Proofs.Fact.Reckoning
import Rulebook.Proofs.Operator.Known

/-!
Facts that are looked up by many at once.

However many requests are made at a time, and whichever of them finds what for another one was
computed or is being computed, each is answered as it is reckoned (`comes_factValue`).  What makes
this so is that a job in the cache has the value that its signature is worth, or that a strand whose
task it is to come to that value is still at work on it (`Agrees`).
-/

namespace Rulebook

open Eval Session Strand
open Registry (Remembers Outdated)

/-! ### Two sides -/

/-- How the two sides of a comparison compare, unless something fails. -/
def compareOf (operator : Except Error Operator) (value fact : Except Error Value) :
    Option (Bool × Sides) := do
  let operator ← operator.toOption
  let value ← value.toOption
  let fact ← fact.toOption
  (operator.evaluate fact value).toOption.map fun verdict => (verdict, ⟨fact, value⟩)

/-- A comparison comes out as its sides do. -/
theorem comes_compareOf {σ : Type} [HasSession σ] {inv : List Task → σ → Prop} (hopen : Open inv)
    {limit rank : Nat} {leaf : Leaf} {operator : Except Error Operator}
    {value fact : Except Error Value}
    (hoperator : Comes inv (rank + 1) (Session.operator leaf.operator) (· = operator))
    (hvalue : Comes inv rank (valueOf limit leaf.value) (· = value))
    (hfact : Comes inv rank (factValue limit leaf.request) (· = fact)) :
    Comes inv (rank + 1) (leaf.compare limit) (·.toOption = compareOf operator value fact) := by
  refine hoperator.bind (fun found hfound => ?_) fun e he => ?_
  · refine (hvalue.both hopen hfact).bind (fun sides hsides => ?_) fun e he => ?_
    · have hcompare : compareOf operator value fact =
          (found.evaluate sides.2 sides.1).toOption.map
            fun verdict => (verdict, ⟨sides.2, sides.1⟩) := by
        rw [compareOf, ← hfound, ← hsides.1, ← hsides.2]
        rfl
      rw [hcompare]
      dsimp only
      cases found.evaluate sides.2 sides.1 with
      | ok verdict => exact .outcome rfl
      | error e => exact .outcome rfl
    · rw [compareOf, ← hfound]
      rcases he with he | he
      · rw [← he]
        rfl
      · rw [← he]
        cases value <;> rfl
  · rw [compareOf, ← he]
    rfl

namespace Almanac

variable {almanac later : Almanac}

theorem cache_addEntry {entry : RuntimeEntry} (h : almanac.addEntry entry = .ok later) :
    later.cache = almanac.cache := by
  cases entry <;> grind [addEntry, addRuntimeFact, addFact]

/-- Adding entries has nothing to do with what is remembered. -/
theorem cache_addEntries (almanac : Almanac) (entries : List RuntimeEntry) :
    (almanac.addEntries entries).1.cache = almanac.cache := by
  induction entries generalizing almanac with
  | nil => rfl
  | cons entry rest ih =>
      rw [addEntries]
      split
      · next later hadded => exact (ih later).trans (cache_addEntry hadded)
      · rfl

end Almanac

namespace Reckoning

variable {reckoning : Reckoning} {start : Session}

/-- The value of a signature and how deep it is computed: what is reckoned for parameters that are
accepted. -/
def Worth (reckoning : Reckoning) (signature : String) (value : Value) (depth : Nat) : Prop :=
  ∃ name params, reckoning.accepts name (Fact.normalParams params) ∧
    signature = Fact.signatureText (.str name) params ∧
      value = reckoning.value name (Fact.normalParams params) ∧
        depth = reckoning.depth name (Fact.normalParams params)

/-- A signature has one value, and it is computed equally deep. -/
theorem Worth.unique {almanac : Almanac} (hsound : reckoning.Sound almanac) {signature : String}
    {value value' : Value} {depth depth' : Nat} (h : reckoning.Worth signature value depth)
    (h' : reckoning.Worth signature value' depth') : value = value' ∧ depth = depth' := by
  obtain ⟨name, params, haccepts, rfl, rfl, rfl⟩ := h
  obtain ⟨name', params', haccepts', hsignature, rfl, rfl⟩ := h'
  rw [Fact.signatureText_eq_iff (hsound.json _ _ haccepts) (hsound.json _ _ haccepts')]
    at hsignature
  obtain ⟨rfl, halike⟩ := hsignature
  exact hsound.alike _ _ _ haccepts haccepts' halike

/-- The task of making a job that comes to a value, which is computed that deep. -/
def making (value : Value) (depth job : Nat) : Task :=
  .to (fun result : Except Error Value => result = .ok value) (some job) depth

theorem making_injective {value other : Value} {depth depth' job job' : Nat}
    (h : making value depth job = making other depth' job') : value = other := by
  have hpromise : (making other depth' job').promise (.ok (.value value)) :=
    h ▸ ⟨.ok value, rfl, rfl⟩
  obtain ⟨result, hresult, rfl⟩ := hpromise
  cases hresult
  rfl

/-- The job has the value that its signature is worth, or the strand that makes it is to come to
that. -/
def Reliable (reckoning : Reckoning) (tasks : List Task) (job : Nat) (record : Job) : Prop :=
  ∃ value depth, reckoning.Worth record.signature value depth ∧
    (record.outcome = some (.ok value) ∨
      record.outcome = none ∧ tasks[record.strand]? = some (making value depth job))

/-- The session is as it was at the start, but for what was remembered, counted and noted since; and
what is remembered is as it is reckoned. -/
structure Agrees (reckoning : Reckoning) (start : Session) (tasks : List Task) (now : Session) :
    Prop where
  almanac : now.almanac = { start.almanac with cache := now.almanac.cache }
  remembers : Remembers Outdated now.registry
  operators : ∀ name, (now.registry.get name).1 = (start.registry.get name).1
  stands : ∀ signature job, now.almanac.cache.entries.find? signature = some job →
    ∃ record, now.almanac.cache.jobs[job]? = some record ∧ record.signature = signature
  reliable : ∀ (job : Nat) (record : Job), now.almanac.cache.jobs[job]? = some record →
    reckoning.Reliable tasks job record
  made : ∀ (strand : Nat) (task : Task) (job : Nat), tasks[strand]? = some task →
    task.job = some job → ∃ record, now.almanac.cache.jobs[job]? = some record ∧ record.strand = strand

theorem Reliable.append {tasks : List Task} {job : Nat} {record : Job}
    (h : reckoning.Reliable tasks job record) (more : List Task) :
    reckoning.Reliable (tasks ++ more) job record := by
  obtain ⟨value, depth, hworth, hdone⟩ := h
  refine ⟨value, depth, hworth, hdone.imp_right fun hrunning => ⟨hrunning.1, ?_⟩⟩
  exact (List.getElem?_append_left (List.getElem?_eq_some_iff.1 hrunning.2).1).trans hrunning.2

theorem Reliable.not_failed {tasks : List Task} {job : Nat} {record : Job}
    (h : reckoning.Reliable tasks job record) : ¬ record.Failed := by
  obtain ⟨_, _, _, hdone | ⟨hrunning, _⟩⟩ := h
  · exact Job.not_failed_of_ok hdone
  · exact Job.not_failed_of_running hrunning

namespace Agrees

variable {tasks : List Task} {now later : Session} {signature : String} {value : Value}
  {depth : Nat}

/-- What has nothing to do with the almanac or the operators. -/
theorem aside (h : Agrees reckoning start tasks now) (halmanac : later.almanac = now.almanac)
    (hregistry : later.registry = now.registry) : Agrees reckoning start tasks later := by
  constructor
  · rw [halmanac]; exact h.almanac
  · rw [hregistry]; exact h.remembers
  · rw [hregistry]; exact h.operators
  · rw [halmanac]; exact h.stands
  · rw [halmanac]; exact h.reliable
  · rw [halmanac]; exact h.made

/-- An operator was looked up. -/
theorem consult (h : Agrees reckoning start tasks now) (name : String) :
    Agrees reckoning start tasks { now with registry := (now.registry.get name).2 } :=
  { h with
    remembers := (h.remembers.lookup name).2.2
    operators := fun other => (h.remembers.get_lookup name other).trans (h.operators other) }

/-- Strands that make no job were started. -/
theorem append (h : Agrees reckoning start tasks now) {more : List Task}
    (hmore : ∀ task ∈ more, task.job = none) : Agrees reckoning start (tasks ++ more) now :=
  { h with
    reliable := fun job record hrecord => (h.reliable job record hrecord).append more
    made := fun strand task job htask hjob => by
      rw [List.getElem?_append] at htask
      split at htask
      · exact h.made strand task job htask hjob
      · cases (hmore task (List.mem_of_getElem? htask)).symm.trans hjob }

/-- A job was started, and the strand that makes it. -/
theorem start_job (h : Agrees reckoning start tasks now)
    (hworth : reckoning.Worth signature value depth) :
    Agrees reckoning start (tasks ++ [making value depth now.almanac.cache.nextJob])
      (now.onCache fun cache => cache.start signature tasks.length) where
  almanac := by
    have halmanac := h.almanac
    simp only [onCache] at halmanac ⊢
    rw [halmanac]
  remembers := h.remembers
  operators := h.operators
  stands := Cache.Signed.start h.stands signature tasks.length
  reliable := by
    intro job record hrecord
    rcases Cache.getElem?_start hrecord with hold | ⟨rfl, rfl⟩
    · exact (h.reliable job record hold).append _
    · exact ⟨value, depth, hworth, .inr ⟨rfl, List.getElem?_concat_length ..⟩⟩
  made := by
    intro strand task job htask hjob
    rw [List.getElem?_append] at htask
    split at htask
    · obtain ⟨record, hrecord, hstrand⟩ := h.made strand task job htask hjob
      exact ⟨record, Cache.getElem?_start_of_some hrecord _ _, hstrand⟩
    · next hlt =>
        rw [List.getElem?_singleton] at htask
        split at htask
        · next hsub =>
            obtain rfl := Option.some.inj htask
            obtain rfl := Option.some.inj hjob
            exact ⟨_, List.getElem?_concat_length .., by dsimp only; omega⟩
        · cases htask

/-- A strand whose task is a job has come to its value. -/
theorem complete (h : Agrees reckoning start tasks now) {strand job : Nat}
    (htask : tasks[strand]? = some (making value depth job)) :
    Agrees reckoning start tasks (now.onCache fun cache => cache.complete job (.ok value)) where
  almanac := by
    have halmanac := h.almanac
    simp only [onCache] at halmanac ⊢
    rw [halmanac]
  remembers := h.remembers
  operators := h.operators
  stands := Cache.Signed.complete h.stands job (.ok value)
  reliable := by
    intro other record hrecord
    obtain ⟨found, hfound, rfl⟩ := h.made strand _ job htask rfl
    have hcomplete := (Cache.getElem?_complete ..).symm.trans hrecord
    split at hcomplete
    · next hsame =>
        subst hsame
        rw [hfound, Option.map_some, Option.some.injEq] at hcomplete
        obtain ⟨worth, deep, hworth, houtcome⟩ := h.reliable job found hfound
        rw [← hcomplete]
        refine ⟨worth, deep, hworth, .inl ?_⟩
        dsimp only
        rcases houtcome with hdone | ⟨hrunning, hown⟩
        · rw [hdone, Option.some_or]
        · -- Whoever is at work on the job has the one task that there is for it.
          obtain rfl := making_injective (Option.some.inj (hown.symm.trans htask))
          rw [hrunning, Option.none_or]
    · exact h.reliable other record hcomplete
  made := by
    intro other task number hother hjob
    obtain ⟨record, hrecord, hstrand⟩ := h.made other task number hother hjob
    obtain ⟨later, hlater, _, hsame⟩ :=
      Cache.getElem?_complete_of_some hrecord job (.ok value)
    exact ⟨later, hlater, hsame.trans hstrand⟩

/-- No job fails, so none is taken out of the cache. -/
theorem evict (h : Agrees reckoning start tasks now) (job : Nat) :
    (now.onCache fun cache => cache.evict job) = now := by
  have hsame : now.almanac.cache.evict job = now.almanac.cache := by
    cases hrecord : now.almanac.cache.jobs[job]? with
    | none => rw [Cache.evict, hrecord]
    | some record =>
        exact Cache.evict_of_not_failed hrecord (h.reliable job record hrecord).not_failed
  rw [onCache, hsame]

/-- What stands for a signature in the cache. -/
theorem of_find? (h : Agrees reckoning start tasks now) {record : Job}
    (hfind : now.almanac.cache.find? signature = some record) :
    ∃ job, record.signature = signature ∧ reckoning.Reliable tasks job record := by
  obtain ⟨job, hstands, hrecord⟩ := Option.bind_eq_some_iff.1 hfind
  obtain ⟨found, hfound, hsignature⟩ := h.stands signature job hstands
  obtain rfl := Option.some.inj (hrecord.symm.trans hfound)
  exact ⟨job, hsignature, h.reliable job record hrecord⟩

end Agrees

/-- Nothing is remembered at the start. -/
theorem agrees_start (hcache : start.almanac.cache = Cache.empty)
    (hregistry : Remembers Outdated start.registry) {tasks : List Task}
    (htasks : ∀ task ∈ tasks, task.job = none) : Agrees reckoning start tasks start where
  almanac := rfl
  remembers := hregistry
  operators _ := rfl
  stands signature job hfind := by
    rw [hcache] at hfind
    cases hfind
  reliable job record hrecord := by
    rw [hcache] at hrecord
    cases hrecord
  made strand task job htask hjob := by
    cases (htasks task (List.mem_of_getElem? htask)).symm.trans hjob

/-! ### Small steps -/

variable {σ : Type} [HasSession σ] {rest : σ → Prop} {own rank depth : Nat} {task : Task}

/-- What has nothing to do with the session. -/
def SessionFree (rest : σ → Prop) : Prop :=
  ∀ session world, rest world → rest (HasSession.withSession session world)

/-- The session agrees with the reckoning, and the rest is as it should be. -/
def shared (reckoning : Reckoning) (start : Session) (rest : σ → Prop) (tasks : List Task)
    (world : σ) : Prop :=
  Agrees reckoning start tasks (HasSession.session world) ∧ rest world

theorem open_shared : Open (shared reckoning start rest) :=
  fun _ _ _ hmore h => ⟨h.1.append hmore, h.2⟩

theorem shared_withSession (hrest : SessionFree rest) {tasks : List Task} {world : σ}
    {now : Session} (hnow : Agrees reckoning start tasks now) (hworld : rest world) :
    shared reckoning start rest tasks (HasSession.withSession now world) :=
  ⟨(HasSession.session_withSession now world).symm ▸ hnow, hrest now world hworld⟩

/-- A step that looks at the session first. -/
theorem triple_current_bind {α : Type} {charter : Charter σ Ending Task}
    {pre : Ledger Task → σ → Prop} {post : Except Error α → Ledger Task → σ → Prop}
    {next : Session → Eval σ α} (h : ∀ now, Triple charter own
      (fun ledger world => HasSession.session world = now ∧ pre ledger world) (next now) post) :
    Triple charter own pre (current >>= next) post :=
  fun last hlast ledger world hworld => h _ last hlast ledger world ⟨rfl, hworld⟩

/-- A step after the session was changed. -/
theorem triple_update_bind {α : Type} {charter : Charter σ Ending Task}
    {pre middle : Ledger Task → σ → Prop} {post : Except Error α → Ledger Task → σ → Prop}
    {change : Session → Session} {next : Eval σ α} (h : Triple charter own middle next post)
    (hpre : ∀ ledger world, pre ledger world →
      middle ledger (HasSession.withSession (change (HasSession.session world)) world)) :
    Triple charter own pre (do update change; next) post :=
  fun last hlast ledger world hworld => h last hlast ledger _ (hpre ledger world hworld)

theorem comes_update (hrest : SessionFree rest) {change : Session → Session}
    (h : ∀ tasks now, Agrees reckoning start tasks now → Agrees reckoning start tasks (change now)) :
    Comes (shared reckoning start rest) rank (update change : Eval σ Unit) (· = .ok ()) :=
  .modify fun tasks _ hworld => shared_withSession hrest (h tasks _ hworld.1) hworld.2

theorem comes_count (hrest : SessionFree rest) (counter : Counter) (label : String) :
    Comes (shared reckoning start rest) rank (count counter label : Eval σ Unit) (· = .ok ()) :=
  comes_update hrest fun _ _ hnow => hnow.aside rfl rfl

theorem comes_current_bind {α : Type} {next : Session → Eval σ α} {post : Except Error α → Prop}
    (h : ∀ tasks now, Agrees reckoning start tasks now →
      Comes (shared reckoning start rest) rank (next now) post) :
    Comes (shared reckoning start rest) rank (current >>= next) post :=
  Comes.get_bind fun tasks _ hworld => h tasks _ hworld.1

theorem comes_note (hrest : SessionFree rest) (label : String) (params : Value) :
    Comes (shared reckoning start rest) rank (note label params : Eval σ Nat) fun result =>
      ∃ n, result = .ok n := by
  have hnoted : Comes (shared reckoning start rest) rank (update fun session =>
      { session with notes := session.notes ++ [(label, params)] } : Eval σ Unit) (· = .ok ()) :=
    comes_update hrest fun _ _ hnow => hnow.aside rfl rfl
  exact hnoted.bind_ok (comes_current_bind fun _ _ _ => .outcome ⟨_, rfl⟩)

/-- The operator of a name is the one that it stood for at the start. -/
theorem comes_operator (hrest : SessionFree rest) (name : String) :
    Comes (shared reckoning start rest) rank (Session.operator name : Eval σ Operator)
      (· = (start.registry.get name).1) :=
  fun _ _ _ _ hnext ledger _ hat => hnext _ ledger _
    ⟨hat.holds.1.operators name, hat.account,
      shared_withSession hrest (hat.holds.1.consult name) hat.holds.2⟩

/-! ### Jobs -/

variable {fact : Fact} {program : Value → Program} {request : FactRequest} {value : Value}

/-- A strand that makes a job. -/
theorem triple_completing (hrest : SessionFree rest) {computation : Eval σ Value}
    (hcomputation : Comes (shared reckoning start rest) depth computation (· = .ok value))
    (job : Nat) :
    Triple (concord (shared reckoning start rest)) own
      (At (concord (shared reckoning start rest)) own (making value depth job))
      (Fact.completing job computation) fun result ledger world => result = .ok value ∧
        At (concord (shared reckoning start rest)) own (making value depth job) ledger world := by
  refine (hcomputation.attempt own (making value depth job) (Nat.le_refl depth)).bind
    (fun result => ?_) fun _ _ _ ⟨⟨_, hwrong, _⟩, _⟩ => nomatch hwrong
  rintro next hnext ledger world ⟨⟨_, heq, rfl⟩, hat⟩
  cases heq
  exact hnext _ ledger _ ⟨rfl, hat.account,
    shared_withSession hrest (hat.holds.1.complete hat.account) hat.holds.2⟩

/-- A strand is to start the job of this number. -/
def ToStart (reckoning : Reckoning) (start : Session) (rest : σ → Prop) (own : Nat) (task : Task)
    (job : Nat) (ledger : Ledger Task) (world : σ) : Prop :=
  At (concord (shared reckoning start rest)) own task ledger world ∧
    (HasSession.session world).almanac.cache.nextJob = job

/-- A strand was started that makes the job of this number, of which the cache knows nothing yet. -/
def Started (reckoning : Reckoning) (start : Session) (rest : σ → Prop) (own : Nat) (task : Task)
    (value : Value) (depth job : Nat) (result : Except Error Nat) (ledger : Ledger Task)
    (world : σ) : Prop :=
  ∃ before : Ledger Task, result = .ok before.accounts.length ∧
    ledger = before.openFor (making value depth job) ∧
      ToStart reckoning start rest own task job before world

theorem triple_spawn (hrest : SessionFree rest) {computation : Eval σ Value}
    (hcomputation : Comes (shared reckoning start rest) depth computation (· = .ok value))
    (job : Nat) :
    Triple (concord (shared reckoning start rest)) own (ToStart reckoning start rest own task job)
      (Eval.spawn (Fact.completing job computation) fun _ => Fact.evicting job)
      (Started reckoning start rest own task value depth job) := by
  refine .spawn (b := making value depth job) (fun number => ?_) (fun _ ledger world hworld => ?_)
    fun ledger world hat => ⟨ledger, rfl, rfl, hat⟩
  · exact Triple.starts_task ((triple_completing hrest hcomputation job).imp (fun _ _ hat => hat)
      fun result _ _ hlast => ⟨⟨result, rfl, hlast.1⟩, hlast.2⟩)
  · refine shared_withSession hrest ?_ hworld.2
    rw [hworld.1.evict job]
    exact hworld.1

/-- Waiting for a strand that makes a job. -/
theorem triple_joinMaking (number : Nat) (hlower : depth < task.rank) :
    Triple (concord (shared reckoning start rest)) own (fun ledger world =>
        At (concord (shared reckoning start rest)) own task ledger world ∧
          ∃ job, ledger.accounts[number]? = some (making value depth job))
      (Eval.join number : Eval σ Value) fun result ledger world => result = .ok value ∧
        At (concord (shared reckoning start rest)) own task ledger world := by
  rintro next hnext ledger world ⟨hat, job, hmaking⟩
  refine triple_join number hlower next ?_ ledger world ⟨hat, hmaking⟩
  rintro result later scene ⟨⟨ending, ⟨_, rfl, rfl⟩, rfl⟩, hlast⟩
  exact hnext _ later scene ⟨received_pack _, hlast⟩

/-- A job is started, and waited for. -/
theorem triple_start (hrest : SessionFree rest) {computation : Eval σ Value} {signature : String}
    (hcomputation : Comes (shared reckoning start rest) depth computation (· = .ok value))
    (hworth : reckoning.Worth signature value depth) (hlower : depth < task.rank) (job : Nat) :
    Triple (concord (shared reckoning start rest)) own (ToStart reckoning start rest own task job)
      (do
        let strand ← Eval.spawn (Fact.completing job computation) fun _ => Fact.evicting job
        update (onCache fun cache => cache.start signature strand)
        Eval.join strand : Eval σ Value)
      fun result ledger world => result = .ok value ∧
        At (concord (shared reckoning start rest)) own task ledger world := by
  refine (triple_spawn hrest hcomputation job).bind (fun strand => ?_)
    fun _ _ _ ⟨_, hwrong, _⟩ => nomatch hwrong
  apply triple_update_bind (triple_joinMaking strand hlower)
  rintro _ world ⟨before, hstrand, rfl, hat, hjob⟩
  obtain rfl := Except.ok.inj hstrand
  refine ⟨⟨?_, ?_⟩, job, List.getElem?_concat_length ..⟩
  · exact (List.getElem?_append_left (List.getElem?_eq_some_iff.1 hat.account).1).trans hat.account
  · refine shared_withSession hrest ?_ hat.holds.2
    rw [← hjob]
    exact hat.holds.1.start_job hworth

/-- What stands for the signature has come to its value, or is waited for. -/
theorem triple_joinJob {record : Job} (hlower : depth < task.rank) :
    Triple (concord (shared reckoning start rest)) own (fun ledger world =>
        At (concord (shared reckoning start rest)) own task ledger world ∧
          (record.outcome = some (.ok value) ∨ record.outcome = none ∧
            ∃ job, ledger.accounts[record.strand]? = some (making value depth job)))
      record.join fun result ledger world => result = .ok value ∧
        At (concord (shared reckoning start rest)) own task ledger world := by
  rintro next hnext ledger world ⟨hat, hdone | ⟨hrunning, hmaking⟩⟩
  · rw [Job.join, hdone]
    exact hnext _ ledger world ⟨rfl, hat⟩
  · rw [Job.join, hrunning]
    exact triple_joinMaking record.strand hlower next hnext ledger world ⟨hat, hmaking⟩

/-- The value of a signature, whether it is remembered, in the making, or still to be made. -/
theorem comes_remember {almanac : Almanac} (hsound : reckoning.Sound almanac)
    (hrest : SessionFree rest) {computation : Eval σ Value} {signature : String}
    (hcomputation : Comes (shared reckoning start rest) depth computation (· = .ok value))
    (hworth : reckoning.Worth signature value depth) (hlower : depth < rank) :
    Comes (shared reckoning start rest) rank (fact.remember signature computation)
      (· = .ok value) := by
  intro own task hrank
  have hbelow : depth < task.rank := Nat.lt_of_lt_of_le hlower hrank
  refine triple_current_bind fun now => ?_
  dsimp only
  split
  · next record hfind =>
      apply triple_update_bind (triple_joinJob hbelow)
      rintro ledger world ⟨rfl, hat⟩
      obtain ⟨job, rfl, _, _, hworth', houtcome⟩ := hat.holds.1.of_find? hfind
      obtain ⟨rfl, rfl⟩ := hworth.unique hsound hworth'
      refine ⟨⟨hat.account, shared_withSession hrest (hat.holds.1.aside rfl rfl) hat.holds.2⟩, ?_⟩
      exact houtcome.imp_right fun hrunning => ⟨hrunning.1, job, hrunning.2⟩
  · apply triple_update_bind (triple_start hrest hcomputation hworth hbelow _)
    rintro ledger world ⟨rfl, hat⟩
    refine ⟨⟨hat.account, shared_withSession hrest (hat.holds.1.aside rfl rfl) hat.holds.2⟩, ?_⟩
    rw [HasSession.session_withSession]

/-! ### Requests -/

variable {ask : FactRequest → Eval σ Value}

/-- A computation whose requests are answered as they are reckoned. -/
theorem comes_run (hrest : SessionFree rest) {permitted : FactRequest → Prop} {program : Program}
    (hreturns : program.Returns (reckoning.answer start.almanac) permitted value)
    (hask : ∀ request, permitted request →
      Comes (shared reckoning start rest) rank (ask request)
        (· = reckoning.answer start.almanac request)) :
    Comes (shared reckoning start rest) rank (program.run ask) (· = .ok value) := by
  induction hreturns with
  | done value => exact .outcome rfl
  | @ask request next value hasks _ ih =>
      refine (hask request hasks).attempt.bind (fun answer hanswer => ?_)
        fun _ ⟨_, hwrong, _⟩ => nomatch hwrong
      obtain ⟨_, heq, rfl⟩ := hanswer
      obtain rfl := Except.ok.inj heq
      exact ih
  | note _ ih =>
      exact (comes_note hrest _ _).bind (fun n _ => ih n) fun _ ⟨_, hwrong⟩ => nomatch hwrong
  | pause _ ih => exact Comes.pause.bind_ok ih

theorem comes_compute (hsound : reckoning.Sound start.almanac) (hrest : SessionFree rest)
    {id params : Value} (hcomputes : Computes start.almanac id fact program)
    (haccepts : reckoning.accepts fact.label params)
    (hask : ∀ asked, reckoning.Permits start.almanac asked →
      reckoning.Within start.almanac (reckoning.depth fact.label params) asked →
        Comes (shared reckoning start rest) rank (ask asked)
          (· = reckoning.answer start.almanac asked)) :
    Comes (shared reckoning start rest) rank (fact.compute ask program params)
      (· = .ok (reckoning.value fact.label params)) :=
  (comes_count hrest .computations fact.label).bind_ok
    (comes_run hrest (hsound.returns id fact program hcomputes params haccepts)
      fun asked hasked => hask asked hasked.1 hasked.2)

/-- A request is answered as it is reckoned, given that this holds of what is less deep. -/
theorem comes_answer (hsound : reckoning.Sound start.almanac) (hrest : SessionFree rest)
    (hpermits : reckoning.Permits start.almanac request)
    (hwithin : reckoning.Within start.almanac rank request)
    (hask : ∀ lower < rank, ∀ asked, reckoning.Permits start.almanac asked →
      reckoning.Within start.almanac lower asked →
        Comes (shared reckoning start rest) lower (ask asked)
          (· = reckoning.answer start.almanac asked)) :
    Comes (shared reckoning start rest) rank (request.answer ask)
      (· = reckoning.answer start.almanac request) := by
  refine comes_current_bind fun tasks now hnow => ?_
  have hlookup : now.almanac.lookup request.fact = start.almanac.lookup request.fact := by
    rw [hnow.almanac]
    rfl
  have hpath : now.almanac.applyPath = start.almanac.applyPath := by
    rw [hnow.almanac]
    rfl
  have hallow : now.almanac.allowUndefinedFacts = start.almanac.allowUndefinedFacts := by
    rw [hnow.almanac]
  dsimp only
  rw [hlookup, hpath, hallow]
  cases hfound : start.almanac.lookup request.fact with
  | error e => exact .outcome (by rw [answer_eq, hfound])
  | ok entry =>
      cases entry with
      | undefined =>
          dsimp only
          split
          · next hallowed => exact .outcome (by rw [answer_eq, hfound]; exact (if_pos hallowed).symm)
          · next hrefused => exact .outcome (by rw [answer_eq, hfound]; exact (if_neg hrefused).symm)
      | value value => exact .outcome (by rw [answer_eq, hfound])
      | computed fact program =>
          have hdepth := hwithin.2 fact program hfound
          have haccepts := hpermits fact program hfound
          have hcomputed : Comes (shared reckoning start rest)
              (reckoning.depth fact.label (Fact.normalParams request.params))
              (fact.compute ask program (Fact.normalParams request.params))
              (· = .ok (reckoning.value fact.label (Fact.normalParams request.params))) :=
            comes_compute hsound hrest hfound haccepts (hask _ hdepth)
          have hpathed : reckoning.answer start.almanac request = _ := answer_of_computes hfound
          dsimp only
          rw [Fact.signatureText?, Fact.signatureText_normalParams]
          by_cases hcacheable : fact.cacheable = true
          · obtain ⟨name, hname, hid, rfl⟩ := hsound.named hfound
            rw [if_pos hcacheable]
            refine (comes_remember hsound hrest hcomputed ?_ hdepth).bind_ok
              (.outcome hpathed.symm)
            exact ⟨fact.label, request.params, haccepts, by rw [hid], rfl, rfl⟩
          · rw [if_neg hcacheable]
            exact (hcomputed.raise (Nat.le_of_lt hdepth)).bind_ok (.outcome hpathed.symm)

/-- However many requests are made at a time, each is answered as it is reckoned. -/
theorem comes_factValue (hsound : reckoning.Sound start.almanac) (hrest : SessionFree rest)
    {limit : Nat} (hpermits : reckoning.Permits start.almanac request)
    (hwithin : reckoning.Within start.almanac rank request) (hle : rank ≤ limit) :
    Comes (shared reckoning start rest) rank (factValue limit request : Eval σ Value)
      (· = reckoning.answer start.almanac request) := by
  induction limit generalizing rank request with
  | zero => exact absurd hwithin.1 (Nat.not_lt.2 hle)
  | succ limit ih =>
      exact comes_answer hsound hrest hpermits hwithin fun lower hlower asked hpermitted hless =>
        ih hpermitted hless (Nat.le_of_lt_succ (Nat.lt_of_lt_of_le hlower hle))

/-! ### Comparisons -/

/-- What a value stands for: that of the fact that it requests, or itself. -/
def sideOf (reckoning : Reckoning) (almanac : Almanac) (value : Value) : Except Error Value :=
  match FactRequest.ofValue? value with
  | some request => reckoning.answer almanac request
  | none => .ok value

/-- The requests of a comparison can be answered where requests are followed this deep. -/
structure Answers (reckoning : Reckoning) (almanac : Almanac) (limit : Nat) (leaf : Leaf) :
    Prop where
  fact : reckoning.Permits almanac leaf.request ∧ reckoning.Within almanac limit leaf.request
  value : ∀ request, FactRequest.ofValue? leaf.value = some request →
    reckoning.Permits almanac request ∧ reckoning.Within almanac limit request

/-- How a comparison comes out, unless it fails. -/
def compare (reckoning : Reckoning) (start : Session) (leaf : Leaf) : Option (Bool × Sides) := do
  let operator ← (start.registry.get leaf.operator).1.toOption
  let value ← (reckoning.sideOf start.almanac leaf.value).toOption
  let fact ← (reckoning.answer start.almanac leaf.request).toOption
  (operator.evaluate fact value).toOption.map fun verdict => (verdict, ⟨fact, value⟩)

theorem comes_sideOf (hsound : reckoning.Sound start.almanac) (hrest : SessionFree rest)
    {limit : Nat} {value : Value} (hvalue : ∀ request, FactRequest.ofValue? value = some request →
      reckoning.Permits start.almanac request ∧ reckoning.Within start.almanac limit request) :
    Comes (shared reckoning start rest) limit (valueOf limit value : Eval σ Value)
      (· = reckoning.sideOf start.almanac value) := by
  unfold valueOf sideOf
  cases hrequest : FactRequest.ofValue? value with
  | some request =>
      exact comes_factValue hsound hrest (hvalue request hrequest).1 (hvalue request hrequest).2
        (Nat.le_refl limit)
  | none => exact .outcome rfl

/-- Whatever goes on besides, a comparison comes out as it is reckoned. -/
theorem comes_compare (hsound : reckoning.Sound start.almanac) (hrest : SessionFree rest)
    {limit : Nat} {leaf : Leaf} (hanswers : reckoning.Answers start.almanac limit leaf) :
    Comes (shared reckoning start rest) (limit + 1) (leaf.compare limit : Eval σ (Bool × Sides))
      (·.toOption = reckoning.compare start leaf) :=
  comes_compareOf open_shared (comes_operator hrest leaf.operator)
    (comes_sideOf hsound hrest hanswers.value)
    (comes_factValue hsound hrest hanswers.fact.1 hanswers.fact.2 (Nat.le_refl limit))

end Reckoning

end Rulebook
