import Rulebook.Proofs.Condition.Mirrors

/-!
What is asked for while a condition is evaluated.

An inquest is a session that takes note of every request for a fact and of every computation, in the
order in which they are made.  Taking note makes no difference to what a condition comes to
(`Inquest.yields_iff`).
-/

namespace Rulebook

open Session Eval Strand

/-- What is done to find out: a fact is requested, or computed. -/
inductive Inquiry where
  | request (request : FactRequest)
  | computation (fact : Fact) (params : Value)

/-- A session, with the inquiries made so far. -/
structure Inquest where
  session : Session
  inquiries : List Inquiry

instance : HasSession Inquest where
  session := Inquest.session
  withSession session world := { world with session }
  session_withSession _ _ := rfl
  withSession_session _ := rfl

/-- No computation that stands in the cache is under way. -/
def Cache.AtRest (cache : Cache) : Prop :=
  ∀ signature job, cache.find? signature = some job → job.outcome ≠ none

theorem Session.Mirrors.refl {session : Session} (h : session.almanac.cache.AtRest) (shift : Nat) :
    session.Mirrors shift session.almanac session where
  almanac := rfl
  almanac' := rfl
  cache := by
    refine ⟨rfl, rfl, fun number job job' hjob hjob' => ?_,
      fun signature number job job' hnumber hjob hjob' => ?_⟩
    · obtain rfl := Option.some.inj (hjob.symm.trans hjob')
      exact ⟨rfl, rfl⟩
    · obtain rfl := Option.some.inj (hjob.symm.trans hjob')
      refine ⟨⟨rfl, rfl⟩, fun hnone => absurd hnone (h signature job ?_)⟩
      rw [Cache.find?, hnumber]
      exact hjob
  registry := rfl
  tally := by
    cases session.tally with
    | none => exact .none
    | some tally => exact .some fun _ _ _ => rfl
  notes := rfl

namespace Inquest

/-- Nothing has been asked for. -/
def opening (session : Session) : Inquest := ⟨session, []⟩

/-- The inquest with one more inquiry. -/
def noting (inquiry : Inquiry) (world : Inquest) : Inquest :=
  { world with inquiries := world.inquiries ++ [inquiry] }

/-- Compute the value of a fact, and take note of it. -/
def compute (ask : FactRequest → Eval Inquest Value) (fact : Fact) (program : Value → Program)
    (params : Value) : Eval Inquest Value := do
  modify (noting (.computation fact params))
  fact.compute ask program params

/-- The value of a fact, every request and every computation being taken note of. -/
def ask : (depth : Nat) → FactRequest → Eval Inquest Value
  | 0, request => do
      modify (noting (.request request))
      throw .exhausted
  | depth + 1, request => do
      modify (noting (.request request))
      request.answerBy (compute (ask depth))

/-- What conditions mean if note is taken of what is asked for. -/
def meaning (depth : Nat) (named : Table Value Condition) : Meaning Inquest :=
  ⟨Leaf.compareBy (ask depth) (ask depth), fun _ => named⟩

/-! ### Beside another inquest -/

/-- Inquests with the same inquiries, whose sessions mirror each other. -/
structure Mirrors (shift : Nat) (start : Almanac) (world world' : Inquest) : Prop where
  session : world.session.Mirrors shift start world'.session
  inquiries : world.inquiries = world'.inquiries

variable {start : Almanac} {named : Table Value Condition}

theorem Mirrors.noting {shift : Nat} {world world' : Inquest} (h : Mirrors shift start world world')
    (inquiry : Inquiry) : Mirrors shift start (world.noting inquiry) (world'.noting inquiry) :=
  ⟨h.session, congrArg (· ++ [inquiry]) h.inquiries⟩

variable {mirror : Mirror Inquest Inquest Ending}

theorem faithful_mirrors (hrelated : mirror.related = Mirrors mirror.shift start) :
    Faithful mirror start where
  session world world' hworld := by
    rw [hrelated] at hworld
    exact hworld.session
  update world world' session session' hworld hsession := by
    rw [hrelated] at hworld ⊢
    exact ⟨hsession, hworld.inquiries⟩

theorem mirrors_modify_noting (hrelated : mirror.related = Mirrors mirror.shift start)
    (inquiry : Inquiry) :
    Eval.Mirrors mirror (modify (noting inquiry) : Eval Inquest Unit) (modify (noting inquiry)) :=
  .modify fun world world' hworld => by
    rw [hrelated] at hworld ⊢
    exact hworld.noting inquiry

theorem mirrors_ask (hrelated : mirror.related = Mirrors mirror.shift start) (depth : Nat)
    (request : FactRequest) : Eval.Mirrors mirror (ask depth request) (ask depth request) := by
  have hfaithful := faithful_mirrors hrelated
  induction depth generalizing request with
  | zero => exact (mirrors_modify_noting hrelated _).bind fun _ => .outcome _
  | succ depth ih =>
      refine (mirrors_modify_noting hrelated _).bind fun _ =>
        hfaithful.mirrors_answerBy (fun fact program params => ?_) request
      exact (mirrors_modify_noting hrelated _).bind fun _ =>
        hfaithful.mirrors_compute ih fact program params

theorem mirrors_meaning (hrelated : mirror.related = Mirrors mirror.shift start) (depth : Nat)
    (named : Table Value Condition) :
    (meaning depth named).Mirrors mirror start (meaning depth named) where
  faithful := faithful_mirrors hrelated
  compare leaf := (faithful_mirrors hrelated).mirrors_compareBy (mirrors_ask hrelated depth)
    (mirrors_ask hrelated depth) leaf
  named _ _ _ := rfl

/-! ### Beside a session of which no note is taken -/

/-- An inquest and its bare session. -/
def bare (start : Almanac) : Mirror Inquest Session Ending where
  related world session := world.session.Mirrors 0 start session
  shift := 0
  tips := Eq
  echo _ _ := False
  lost _ _ := False

theorem faithful_bare (start : Almanac) : Faithful (bare start) start where
  session _ _ hworld := hworld
  update _ _ _ _ _ hsession := hsession

theorem mirrors_factValue (start : Almanac) (depth : Nat) (request : FactRequest) :
    Eval.Mirrors (bare start) (ask depth request) (factValue depth request) := by
  induction depth generalizing request with
  | zero => exact .aside (fun _ _ hworld => hworld) (.outcome _)
  | succ depth ih =>
      rw [factValue, ← FactRequest.answerBy_compute]
      refine .aside (fun _ _ hworld => hworld)
        ((faithful_bare start).mirrors_answerBy (fun fact program params => ?_) request)
      exact .aside (fun _ _ hworld => hworld)
        ((faithful_bare start).mirrors_compute ih fact program params)

/-- A condition comes to the same whether note is taken or not. -/
theorem yields_iff {session : Session} (hrest : session.almanac.cache.AtRest) (depth : Nat)
    (named : Table Value Condition) (deeper : Nat) (condition : Condition)
    (result : Except Error ConditionResult) :
    Yields (opening session) (condition.evaluateIn (meaning depth named) deeper) result ↔
      Yields session (condition.evaluateIn ⟨Leaf.compare depth, fun _ => named⟩ deeper) result := by
  have hmeaning : (meaning depth named).Mirrors (bare session.almanac) session.almanac
      ⟨Leaf.compare depth, fun _ => named⟩ :=
    { faithful := faithful_bare session.almanac
      compare := (faithful_bare session.almanac).mirrors_compareBy
        (mirrors_factValue session.almanac depth) (mirrors_factValue session.almanac depth)
      named := fun _ _ _ => rfl }
  have hrelated : (bare session.almanac).related (opening session) session :=
    Session.Mirrors.refl hrest 0
  exact (hmeaning.evaluateIn deeper condition).yields_iff rfl rfl (fun _ _ hlost => hlost) hrelated

end Inquest

end Rulebook
