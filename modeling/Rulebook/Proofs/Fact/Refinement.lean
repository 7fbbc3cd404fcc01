import Rulebook.Proofs.Condition.Audit
import Rulebook.Proofs.Fact.Traffic

/-!
Evaluating conditions makes no other traffic.

At every moment while a condition is evaluated, the session is one that requests, finished jobs and
evictions may lead to (`exists_traffic_of_run`).  So what holds of all traffic holds of it, whatever
the computations of facts ask for and however their turns are mixed.
-/

namespace Rulebook.Traffic

open Session Eval Strand

variable {σ : Type} [HasSession σ] {start : Session}

/-- The session is one that traffic may lead to, and what it allows to be undefined is as it was. -/
def leads (start : Session) : Invariant σ Ending :=
  .ofWorld fun world => ∃ traffic, (opening start).Reaches traffic ∧
    traffic.session = HasSession.session world ∧
      traffic.session.almanac.allowUndefinedConditions = start.almanac.allowUndefinedConditions

section Moves

variable {pledges : Pledges Ending} {world : σ}

theorem leads_withSession {traffic : Traffic} (h : (opening start).Reaches traffic)
    (hallow : traffic.session.almanac.allowUndefinedConditions =
      start.almanac.allowUndefinedConditions) (world : σ) :
    leads start pledges (HasSession.withSession traffic.session world) :=
  ⟨traffic, h, (HasSession.session_withSession _ _).symm, hallow⟩

theorem leads_opening (world : σ) : leads (HasSession.session world) pledges world :=
  ⟨opening _, .refl, rfl, rfl⟩

theorem leads_aside (h : leads start pledges world) {session : Session}
    (halmanac : session.almanac = (HasSession.session world).almanac)
    (hcounts : ∀ counter : Counter, counter.ofCache = true →
      session.tally.map (fun tally => tally.labels counter) =
        (HasSession.session world).tally.map fun tally => tally.labels counter) :
    leads start pledges (HasSession.withSession session world) := by
  obtain ⟨traffic, hreaches, hsession, hallow⟩ := h
  rw [← hsession] at halmanac hcounts
  have hmove : Move traffic { traffic with session } :=
    .aside (congrArg Almanac.cache halmanac) hcounts
  refine leads_withSession (hreaches.tail hmove) ?_ world
  change session.almanac.allowUndefinedConditions = _
  rw [halmanac, hallow]

/-- Another cache, which is the same. -/
theorem leads_onCache_eq_self {traffic : Traffic} (h : (opening start).Reaches traffic)
    (hallow : traffic.session.almanac.allowUndefinedConditions =
      start.almanac.allowUndefinedConditions) {change : Cache → Cache}
    (hsame : change traffic.cache = traffic.cache) (world : σ) :
    leads start pledges (HasSession.withSession (traffic.session.onCache change) world) := by
  have honCache : traffic.session.onCache change = traffic.session :=
    congrArg (fun cache => traffic.session.onCache fun _ => cache) hsame
  rw [honCache]
  exact leads_withSession h hallow world

theorem leads_complete (h : leads start pledges world) (job : Nat)
    (outcome : Except Error Value) : leads start pledges (HasSession.withSession
      ((HasSession.session world).onCache fun cache => cache.complete job outcome) world) := by
  obtain ⟨traffic, hreaches, hsession, hallow⟩ := h
  rw [← hsession]
  by_cases hrunning : ∃ record, traffic.cache.jobs[job]? = some record ∧ record.outcome = none
  · obtain ⟨record, hrecord, hnone⟩ := hrunning
    exact leads_withSession (hreaches.tail (.complete outcome hrecord hnone)) hallow world
  · have hsame : traffic.cache.complete job outcome = traffic.cache := by
      apply Cache.complete_eq_self
      intro record hrecord hnone
      exact hrunning ⟨record, hrecord, hnone⟩
    exact leads_onCache_eq_self hreaches hallow hsame world

theorem leads_evict (hempty : start.almanac.cache = Cache.empty) (h : leads start pledges world)
    (job : Nat) : leads start pledges (Fact.evicting job world) := by
  obtain ⟨traffic, hreaches, hsession, hallow⟩ := h
  unfold Fact.evicting
  rw [← hsession]
  by_cases hdue : job ∈ traffic.due
  · exact leads_withSession (hreaches.tail (.evict hdue)) hallow world
  · exact leads_onCache_eq_self hreaches hallow
      (((orderly_opening hempty).reaches hreaches).coherent.evict_eq_self hdue) world

end Moves

theorem preserves_completing (job : Nat) {computation : Eval σ Value}
    (hcomputation : Preserves (leads start) computation) :
    Preserves (leads start) (Fact.completing job computation) :=
  hcomputation.attempt.bind fun result =>
    (Preserves.of_ensures (ensures_update fun _ _ hinv => leads_complete hinv job result)).bind
      fun _ => .outcome result

/-- A request joins the job that stands in the cache or starts one, in one turn. -/
theorem preserves_remember (hempty : start.almanac.cache = Cache.empty) (fact : Fact)
    (signature : String) {computation : Eval σ Value}
    (hcomputation : Preserves (leads start) computation) :
    Preserves (leads start) (fact.remember signature computation) := by
  intro own next pledges world hrank hinv hnext
  obtain ⟨traffic, hreaches, hsession, hallow⟩ := hinv
  unfold Fact.remember
  apply keeps_current_bind.2
  rw [← hsession]
  cases hfind : traffic.session.almanac.cache.find? signature with
  | some record =>
      apply keeps_update_bind.2
      rw [← hsession]
      obtain ⟨job, hstands, hknown⟩ := Option.bind_eq_some_iff.1 hfind
      exact preserves_join record own next pledges _ hrank
        (leads_withSession (hreaches.tail (.hit fact.label hstands hknown)) hallow world) hnext
  | none =>
      apply keeps_update_bind.2
      rw [← hsession]
      let child : Pledge Ending := Eval.pledge ⊤ fun _ : Except Error Value => True
      have hcompleting : Lasting (leads start) (pledges ++ [child])
          (Keeps (leads start) (Fact.completing traffic.cache.nextJob computation).strand child) :=
        (preserves_completing _ hcomputation).strand _
      refine ⟨child, hcompleting, fun _ _ _ _ _ hnow => leads_evict hempty hnow _, ?_⟩
      refine Ensures.join pledges.length own next _ _ hrank ?_ fun result _ =>
        (hnext result trivial).mono (List.prefix_append _ _)
      dsimp only
      rw [HasSession.session_withSession]
      exact leads_withSession (hreaches.tail (.miss fact.label pledges.length hfind)) hallow _

theorem labels_counting {counter other : Counter} (hcounter : counter.ofCache = false)
    (hother : other.ofCache = true) (session : Session) (label : String) :
    (session.counting counter label).tally.map (fun tally => tally.labels other) =
      session.tally.map fun tally => tally.labels other := by
  have hne : counter ≠ other := by
    rintro rfl
    rw [hcounter] at hother
    cases hother
  rw [counting, Option.map_map]
  refine congrArg (fun change => Option.map change session.tally) (funext fun tally => ?_)
  rw [Function.comp_apply, Tally.labels_count, if_neg hne]

theorem tolerant_leads (hempty : start.almanac.cache = Cache.empty) :
    Tolerant (leads start : Invariant σ Ending) where
  aside _ _ _ _ h := leads_aside h rfl fun _ _ => rfl
  tallyFree _ _ _ label hcounter h :=
    leads_aside h rfl fun _ hother => labels_counting hcounter hother _ label
  remember fact signature _ := preserves_remember hempty fact signature

/-- At every moment while a condition is evaluated with an empty cache, the session is one that
traffic may lead to. -/
theorem exists_traffic_of_run {world : σ}
    (hempty : (HasSession.session world).almanac.cache = Cache.empty)
    (named : Table Value Condition) (condition : Condition) (turns : Nat) :
    ∃ traffic, (opening (HasSession.session world)).Reaches traffic ∧ traffic.session =
      HasSession.session
        ((Loop.start world (condition.evaluate fun _ => named).strand).run turns).world := by
  have hreads : Condition.Reads (leads (HasSession.session world)) ⊤
      (⟨Leaf.compare depthLimit, fun _ => named⟩ : Meaning σ)
      (Condition.openReading named
        (HasSession.session world).almanac.allowUndefinedConditions) := by
    refine ⟨(tolerant_leads hempty).tallyFree, fun _ _ _ => rfl, fun _ _ h => ?_,
      (tolerant_leads hempty).preserves_compare depthLimit⟩
    obtain ⟨traffic, _, hsession, hallow⟩ := h
    rw [← hsession, hallow]
    rfl
  obtain ⟨waits, hensures⟩ := Condition.ensures_evaluateIn hreads depthLimit condition
  obtain ⟨later, _, hsound⟩ := (Loop.sound_start
    (leads_opening world) (hensures.strand _)).run turns
  obtain ⟨traffic, hreaches, hsession, _⟩ := hsound.world
  exact ⟨traffic, hreaches, hsession⟩

end Rulebook.Traffic
