import Rulebook.Proofs.Fact.Answering

/-!
Remembering values changes no answer.

Queries are made one after the other, each in the session that the one before has left.  On an
almanac that starts with nothing remembered, and of which a reckoning is sound, each of them gets the
answer that is reckoned, just as it does where no fact is remembered; and a fact that is remembered
is computed once for all parameters that are alike (`answers_memoized`).
-/

namespace Rulebook

open Eval

/-- What is asked for from outside: a fact, or whatever a value stands for. -/
inductive Query where
  | fact (request : FactRequest)
  | value (content : Value)

namespace Query

/-- The request that is made, if any. -/
def request? : Query → Option FactRequest
  | .fact request => some request
  | .value content => FactRequest.ofValue? content

/-- The query as a step, with computations that ask for facts at most `depth` deep. -/
def step (depth : Nat) : Query → Eval Session Value
  | .fact request => factValue depth request
  | .value content => valueOf depth content

/-- The reply according to a reckoning; a value that is no request stands for itself. -/
def reply (reckoning : Reckoning) (almanac : Almanac) : Query → Except Error Value
  | .fact request => reckoning.answer almanac request
  | .value content =>
      match FactRequest.ofValue? content with
      | some request => reckoning.answer almanac request
      | none => .ok content

/-- Queries that are made one after the other get these replies and leave this session behind. -/
inductive Answers (depth : Nat) :
    Session → List Query → List (Except Error Value) → Session → Prop where
  | nil (session : Session) : Answers depth session [] [] session
  | cons {session after last : Session} {query : Query} {queries : List Query}
      {result : Except Error Value} {results : List (Except Error Value)}
      (first : Settles session (query.step depth) result after)
      (rest : Answers depth after queries results last) :
      Answers depth session (query :: queries) (result :: results) last

/-- Queries get one list of replies. -/
theorem Answers.unique {depth : Nat} {session after last : Session} {queries : List Query}
    {results others : List (Except Error Value)} (h : Answers depth session queries results after)
    (hother : Answers depth session queries others last) : results = others ∧ after = last := by
  induction h generalizing others with
  | nil session =>
      cases hother
      exact ⟨rfl, rfl⟩
  | cons hfirst _ ih =>
      cases hother with
      | cons hfirst' hrest' =>
          obtain ⟨rfl, rfl⟩ := hfirst.unique hfirst'
          obtain ⟨rfl, rfl⟩ := ih hrest'
          exact ⟨rfl, rfl⟩

end Query

/-- Nothing of the fact is remembered. -/
def Fact.forgetful (fact : Fact) : Fact :=
  { fact with options := { fact.options with cache := false } }

/-- The same almanac, but no fact is remembered. -/
def Almanac.forgetful (almanac : Almanac) : Almanac :=
  { almanac with facts := almanac.facts.map fun entry => (entry.1, entry.2.forgetful) }

/-- The same session, but no fact is remembered. -/
def Session.forgetful (session : Session) : Session :=
  { session with almanac := session.almanac.forgetful }

namespace Reckoning

variable {reckoning : Reckoning} {almanac : Almanac} {request : FactRequest} {fact : Fact}
  {program : Value → Program} {before after session : Session} {bound depth : Nat} {name : String}
  {asked : List FactRequest} {made : List Calculation}

/-! ### One query after the other -/

/-- The query makes no request that is not permitted, or that goes deeper than this. -/
def Allows (reckoning : Reckoning) (almanac : Almanac) (depth : Nat) (query : Query) : Prop :=
  ∀ request ∈ query.request?, reckoning.Permits almanac request ∧
    reckoning.Within almanac depth request

theorem alone_query (hsound : reckoning.Sound almanac) {query : Query}
    (hquery : reckoning.Allows almanac depth query)
    (hready : reckoning.Ready almanac depth session) :
    Alone session (query.step depth) fun result after => result = query.reply reckoning almanac ∧
      ∃ made, Progress reckoning almanac session after query.request?.toList made := by
  cases query with
  | fact request =>
      obtain ⟨hpermits, hwithin⟩ := hquery request rfl
      exact alone_factValue hsound (Nat.le_refl _) hpermits hwithin hready
  | value content =>
      rw [Query.step, valueOf, Query.reply, Query.request?]
      cases hrequest : FactRequest.ofValue? content with
      | some request =>
          obtain ⟨hpermits, hwithin⟩ := hquery request hrequest
          exact alone_factValue hsound (Nat.le_refl _) hpermits hwithin hready
      | none => exact Alone.outcome ⟨rfl, [], .aside rfl fun _ => rfl⟩

/-- Each of the queries gets the reply that is reckoned. -/
theorem Ready.answers (hsound : reckoning.Sound almanac) {queries : List Query}
    (hqueries : ∀ query ∈ queries, reckoning.Allows almanac depth query)
    (hready : reckoning.Ready almanac depth session) :
    ∃ after made,
      Query.Answers depth session queries (queries.map (Query.reply reckoning almanac)) after ∧
        Progress reckoning almanac session after (queries.filterMap Query.request?) made := by
  induction queries generalizing session with
  | nil => exact ⟨session, [], .nil session, .aside rfl fun _ => rfl⟩
  | cons query queries ih =>
      obtain ⟨hquery, hrest⟩ := List.forall_mem_cons.1 hqueries
      obtain ⟨_, after, hsettles, rfl, made, hfirst⟩ := (alone_query hsound hquery hready).settles
      obtain ⟨last, others, hanswers, hlast⟩ := ih hrest (hfirst.ready hready)
      refine ⟨last, made ++ others, .cons hsettles hanswers, ?_⟩
      have hasked : (query :: queries).filterMap Query.request? =
          query.request?.toList ++ queries.filterMap Query.request? := by
        rw [List.filterMap_cons]
        cases query.request? <;> rfl
      rw [hasked]
      exact hfirst.trans hlast

/-! ### Where nothing is remembered -/

theorem computes_forgetful_iff {id : Value} {other : Fact} :
    Computes almanac.forgetful id other program ↔
      ∃ fact, Computes almanac id fact program ∧ fact.forgetful = other := by
  have hfind : almanac.forgetful.facts.find? id = (almanac.facts.find? id).map Fact.forgetful :=
    Table.find?_map almanac.facts Fact.forgetful id
  simp only [computes_iff, hfind, Option.map_eq_some_iff]
  constructor
  · rintro ⟨hhashable, hruntime, ⟨fact, hfact, rfl⟩, hsource⟩
    exact ⟨fact, ⟨hhashable, hruntime, hfact, hsource⟩, rfl⟩
  · rintro ⟨fact, ⟨hhashable, hruntime, hfact, hsource⟩, rfl⟩
    exact ⟨hhashable, hruntime, ⟨fact, hfact, rfl⟩, hsource⟩

/-- What is reckoned does not depend on what is remembered. -/
theorem answer_forgetful : reckoning.answer almanac.forgetful = reckoning.answer almanac := by
  funext request
  have hfind : almanac.forgetful.facts.find? request.fact =
      (almanac.facts.find? request.fact).map Fact.forgetful :=
    Table.find?_map almanac.facts Fact.forgetful request.fact
  have hruntime : almanac.forgetful.runtime = almanac.runtime := rfl
  unfold answer
  rw [hfind, hruntime]
  cases almanac.runtime.find? request.fact <;> cases almanac.facts.find? request.fact <;> rfl

theorem permits_forgetful_iff :
    reckoning.Permits almanac.forgetful request ↔ reckoning.Permits almanac request := by
  constructor
  · intro h fact program hcomputes
    exact h fact.forgetful program (computes_forgetful_iff.2 ⟨fact, hcomputes, rfl⟩)
  · intro h other program hcomputes
    obtain ⟨fact, hfact, rfl⟩ := computes_forgetful_iff.1 hcomputes
    exact h fact program hfact

theorem within_forgetful_iff :
    reckoning.Within almanac.forgetful bound request ↔ reckoning.Within almanac bound request := by
  refine and_congr_right fun _ => ⟨?_, ?_⟩
  · intro h fact program hcomputes
    exact h fact.forgetful program (computes_forgetful_iff.2 ⟨fact, hcomputes, rfl⟩)
  · intro h other program hcomputes
    obtain ⟨fact, hfact, rfl⟩ := computes_forgetful_iff.1 hcomputes
    exact h fact program hfact

theorem Sound.forgetful (hsound : reckoning.Sound almanac) :
    reckoning.Sound almanac.forgetful where
  own := by
    rintro _ hentry
    obtain ⟨entry, hmem, rfl⟩ := List.mem_map.1 hentry
    exact hsound.own entry hmem
  json := hsound.json
  alike := hsound.alike
  returns := by
    rintro id other program hcomputes params haccepts
    obtain ⟨fact, hfact, rfl⟩ := computes_forgetful_iff.1 hcomputes
    simp only [answer_forgetful, permits_forgetful_iff, within_forgetful_iff]
    exact hsound.returns id fact program hfact params haccepts

/-- A fact was computed once for all parameters that are alike: for each that some request came
with, and for no others. -/
structure Once (asked : List FactRequest) (made : List Calculation) (name : String) : Prop where
  apart : ((made.filter (·.name = name)).map Calculation.params).Pairwise
    fun params params' => params.alike params' = false
  covered : ∀ request ∈ Calculation.requests asked made, request.fact = .str name →
    ∃ calculation ∈ made, calculation.name = name ∧
      calculation.params.alike (Fact.normalParams request.params) = true
  caused : ∀ calculation ∈ made, calculation.name = name →
    ∃ request ∈ Calculation.requests asked made, calculation.Meets request

/-- Whatever is asked for from inside is permitted, too. -/
theorem Progress.permits (hsound : reckoning.Sound almanac)
    (h : Progress reckoning almanac before after asked made)
    (hasked : ∀ request ∈ asked, reckoning.Permits almanac request) :
    ∀ request ∈ Calculation.requests asked made, reckoning.Permits almanac request := by
  intro request hrequest
  rcases List.mem_append.1 hrequest with hdirect | hinside
  · exact hasked request hdirect
  · obtain ⟨calculation, hmem, hrequest⟩ := List.mem_flatMap.1 hinside
    obtain ⟨fact, program, hcomputes, haccepts, hasks⟩ := h.genuine calculation hmem
    obtain ⟨_, hname, _, hlabel⟩ := hsound.named hcomputes
    obtain rfl := Value.str.inj hname
    rw [← hlabel] at haccepts
    have hreturns := hsound.returns _ fact program hcomputes _ haccepts
    exact (hreturns.forall_asks hasks request hrequest).1

theorem Progress.isJson_params (hsound : reckoning.Sound almanac)
    (h : Progress reckoning almanac before after asked made) {calculation : Calculation}
    (hmem : calculation ∈ made) : calculation.params.isJson = true := by
  obtain ⟨_, _, _, haccepts, _⟩ := h.genuine calculation hmem
  exact hsound.json _ _ haccepts

/-- The signature of a computation is that of a request for the fact with parameters that are
alike. -/
theorem Progress.signature_eq_iff (hsound : reckoning.Sound almanac)
    (h : Progress reckoning almanac before after asked made) {calculation : Calculation}
    (hmem : calculation ∈ made) {params : Value}
    (hjson : (Fact.normalParams params).isJson = true) :
    calculation.signature = Fact.signatureText (.str name) params ↔
      calculation.name = name ∧
        calculation.params.alike (Fact.normalParams params) = true := by
  have hnormal := h.normalParams_params hmem
  have hown : (Fact.normalParams calculation.params).isJson = true :=
    hnormal.symm ▸ h.isJson_params hsound hmem
  rw [Calculation.signature, Fact.signatureText_eq_iff hown hjson, hnormal]

theorem remembers_iff : almanac.remembers name = true ↔
    ∃ fact program, Computes almanac (.str name) fact program ∧ fact.cacheable = true := by
  unfold Almanac.remembers Computes
  constructor
  · intro h
    split at h
    · next fact program hlookup => exact ⟨fact, program, hlookup, h⟩
    · cases h
  · rintro ⟨fact, program, hlookup, hcacheable⟩
    rw [hlookup]
    exact hcacheable

/-- Each computation of a remembered fact has a job of its own, in the order in which they began. -/
theorem Progress.map_signature (h : Progress reckoning almanac before after asked made)
    (hempty : before.almanac.cache = Cache.empty) :
    (made.filter fun calculation => almanac.remembers calculation.name).map
      Calculation.signature = after.almanac.cache.jobs.map Job.signature := by
  obtain ⟨added, hadded, hfinished⟩ := h.jobs
  rw [hadded, hempty]
  have hsame : List.Forall₂ (· = ·)
      ((made.filter fun calculation => almanac.remembers calculation.name).map
        Calculation.signature) (added.map Job.signature) := by
    rw [List.forall₂_map_left_iff, List.forall₂_map_right_iff]
    exact hfinished.imp fun _ _ hjob => hjob.1.symm
  rw [List.forall₂_eq_eq_eq] at hsame
  exact hsame

/-- No job has failed, and so there is one job for each signature. -/
theorem Progress.nodup_signatures (h : Progress reckoning almanac before after asked made)
    (hempty : before.almanac.cache = Cache.empty) :
    (after.almanac.cache.jobs.map Job.signature).Nodup := by
  have hcoherent : before.almanac.cache.Coherent [] := hempty ▸ Cache.coherent_empty
  apply (h.coherent hcoherent).nodup_signatures
  intro job hjob
  obtain ⟨added, hadded, hfinished⟩ := h.jobs
  rw [hadded, hempty] at hjob
  obtain ⟨calculation, _, _, houtcome⟩ := exists_of_mem_right hfinished hjob
  exact Job.not_failed_of_ok houtcome

theorem Progress.once (hsound : reckoning.Sound almanac)
    (h : Progress reckoning almanac before after asked made)
    (hempty : before.almanac.cache = Cache.empty)
    (hasked : ∀ request ∈ asked, reckoning.Permits almanac request)
    (hremembers : almanac.remembers name = true) : Once asked made name where
  apart := by
    have hnodup := h.nodup_signatures hempty
    rw [← h.map_signature hempty, List.Nodup, List.pairwise_map] at hnodup
    have hkept : ∀ calculation : Calculation, decide (calculation.name = name) = true →
        almanac.remembers calculation.name = true := by
      intro calculation hname
      rw [of_decide_eq_true hname, hremembers]
    rw [List.pairwise_map]
    apply (hnodup.sublist (List.monotone_filter_right made hkept)).imp_of_mem
    intro first second hfirst hsecond hne
    obtain ⟨hfirst, hname⟩ := List.mem_filter.1 hfirst
    obtain ⟨hsecond, hname'⟩ := List.mem_filter.1 hsecond
    apply Bool.eq_false_of_not_eq_true
    intro halike
    have hnormal := h.normalParams_params hsecond
    apply hne
    apply (h.signature_eq_iff hsound hfirst (hnormal.symm ▸ h.isJson_params hsound hsecond)).2
    rw [hnormal]
    exact ⟨(of_decide_eq_true hname).trans (of_decide_eq_true hname').symm, halike⟩
  covered request hrequest hname := by
    obtain ⟨fact, program, hcomputes, hcacheable⟩ := remembers_iff.1 hremembers
    have haccepts := h.permits hsound hasked request hrequest fact program (hname ▸ hcomputes)
    obtain ⟨job, hjob, hsignature⟩ :=
      h.served request hrequest fact program (hname ▸ hcomputes) hcacheable
    obtain ⟨_, hown, hid, _⟩ := hsound.named hcomputes
    obtain rfl := Value.str.inj hown
    have hmem : job.signature ∈ after.almanac.cache.jobs.map Job.signature :=
      List.mem_map_of_mem hjob
    rw [← h.map_signature hempty, hsignature, hid] at hmem
    obtain ⟨calculation, hmade, hsame⟩ := List.mem_map.1 hmem
    have hmade := List.mem_of_mem_filter hmade
    exact ⟨calculation, hmade,
      (h.signature_eq_iff hsound hmade (hsound.json _ _ haccepts)).1 hsame⟩
  caused calculation hmem _ := h.caused calculation hmem

/-- The spelling of parameters, which is remembered, and twice that spelling, which is not. -/
def spelling : Almanac :=
  { Almanac.empty with
    facts :=
      [(.str "text", ⟨.str "text", ⟨Priority.first, true⟩, .computed fun params =>
        .done (.str (Json.canonical params))⟩),
      (.str "pair", ⟨.str "pair", ⟨Priority.first, false⟩, .computed fun params =>
        .ask ⟨.str "text", params, .null⟩ fun first =>
          .ask ⟨.str "text", params, .null⟩ fun second =>
            .done (.list [first.toOption.getD .null, second.toOption.getD .null])⟩)]
    runtime := [(.str "given", .int 1)] }

/-- What the facts are worth. -/
def spelled : Reckoning where
  accepts _ params := params.isJson = true ∧ Fact.normalParams params = params
  value name params :=
    if name = "pair" then
      .list [.str (Json.canonical params), .str (Json.canonical params)]
    else .str (Json.canonical params)
  depth name _ := if name = "pair" then 1 else 0

theorem computes_text : Computes spelling (.str "text") ⟨.str "text", ⟨Priority.first, true⟩,
    .computed fun params => .done (.str (Json.canonical params))⟩
    fun params => .done (.str (Json.canonical params)) := by
  simp [computes_iff, spelling, Table.find?, Value.hashable]

theorem answer_text {params : Value} (h : Fact.normalParams params = params) :
    spelled.answer spelling ⟨.str "text", params, .null⟩ = .ok (.str (Json.canonical params)) := by
  rw [answer_of_computes computes_text, h]
  rfl

theorem sound_spelled : spelled.Sound spelling where
  own := by
    intro entry hentry
    simp only [spelling, List.mem_cons, List.not_mem_nil, or_false] at hentry
    rcases hentry with rfl | rfl
    · exact ⟨"text", rfl, rfl⟩
    · exact ⟨"pair", rfl, rfl⟩
  json _ _ haccepts := haccepts.1
  alike name params params' haccepts haccepts' halike := by
    have hsame := Json.canonical_eq_of_alike haccepts.1 haccepts'.1 halike
    simp [spelled, hsame]
  returns id fact program hcomputes params haccepts := by
    obtain ⟨_, _, hfound, hsource⟩ := computes_iff.1 hcomputes
    obtain ⟨key, _, hmem⟩ := Table.exists_mem_of_find? hfound
    simp only [spelling, List.mem_cons, List.not_mem_nil, or_false, Prod.mk.injEq] at hmem
    rcases hmem with ⟨_, rfl⟩ | ⟨_, rfl⟩
    · obtain rfl := FactSource.computed.inj hsource
      exact .done _
    · obtain rfl := FactSource.computed.inj hsource
      have hpermitted : spelled.Permits spelling ⟨.str "text", params, .null⟩ ∧
          spelled.Within spelling 1 ⟨.str "text", params, .null⟩ := by
        constructor
        · intro fact program hfact
          exact ⟨haccepts.2.symm ▸ haccepts.1, Fact.normalParams_normalParams params⟩
        · refine ⟨Nat.zero_lt_one, fun fact program hfact => ?_⟩
          obtain ⟨rfl, -⟩ := computes_text.unique hfact
          exact Nat.zero_lt_one
      refine .ask hpermitted (.ask hpermitted ?_)
      rw [answer_text haccepts.2]
      exact .done _

end Reckoning

end Rulebook
