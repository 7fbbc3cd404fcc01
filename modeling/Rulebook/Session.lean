import Rulebook.Almanac
import Rulebook.Eval
import Rulebook.Operator.Registry
import Rulebook.Tally

/-!
Sessions: looking up facts step by step.  A session holds the almanac, the operators, the counters
and the notes that computations made.  The steps here are made in any world that holds a session.
-/

namespace Rulebook

/-- What changes while facts are looked up and conditions are evaluated. -/
structure Session where
  almanac : Almanac
  registry : Registry
  tally : Option Tally
  notes : List (String × Value)

/-- A world that holds a session. -/
class HasSession (σ : Type) where
  session : σ → Session
  withSession : Session → σ → σ
  session_withSession : ∀ s world, session (withSession s world) = s
  withSession_session : ∀ world, withSession (session world) world = world

instance : HasSession Session where
  session := id
  withSession session _ := session
  session_withSession _ _ := rfl
  withSession_session _ := rfl

namespace Session

variable {σ : Type} [HasSession σ]

/-- The session as it is now. -/
def current : Eval σ Session := do return HasSession.session (← get)

/-- Change the session. -/
def update (change : Session → Session) : Eval σ Unit :=
  modify fun world => HasSession.withSession (change (HasSession.session world)) world

/-- Count one under a label, if anything is counted. -/
def count (counter : Counter) (label : String) : Eval σ Unit :=
  update fun session =>
    { session with tally := session.tally.map fun tally => tally.count counter label }

/-- Note a call under a label, and tell how many there were. -/
def note (label : String) (params : Value) : Eval σ Nat := do
  update fun session => { session with notes := session.notes ++ [(label, params)] }
  return ((← current).notes.filter fun entry => entry.1 == label).length

/-- A session with another cache. -/
def onCache (change : Cache → Cache) (session : Session) : Session :=
  { session with almanac := { session.almanac with cache := change session.almanac.cache } }

/-- The operator of a name. -/
def operator (name : String) : Eval σ Operator := do
  let (found, registry) := (← current).registry.get name
  update fun session => { session with registry }
  Eval.outcome found

end Session

open Session

variable {σ : Type} [HasSession σ]

/-- Run a computation; `ask` answers its requests. -/
def Program.run (ask : FactRequest → Eval σ Value) : Program → Eval σ Value
  | .done value => pure value
  | .fail e => throw e
  | .ask request next => do
      let answer ← Eval.attempt (ask request)
      (next answer).run ask
  | .note label params next => do
      let n ← Session.note label params
      (next n).run ask
  | .pause next => do
      Eval.pause
      next.run ask

/-- The outcome of a job; whoever asks before it is finished waits for it. -/
def Job.join (job : Job) : Eval σ Value :=
  match job.outcome with
  | some result => Eval.outcome result
  | none => Eval.join job.strand

namespace Fact

/-- Compute the value of a fact. -/
def compute (ask : FactRequest → Eval σ Value) (fact : Fact) (program : Value → Program)
    (params : Value) : Eval σ Value := do
  count .computations fact.label
  (program params).run ask

/-- Make a computation, and tell the cache of its outcome. -/
def completing (job : Nat) (computation : Eval σ Value) : Eval σ Value := do
  let result ← Eval.attempt computation
  update (onCache fun cache => cache.complete job result)
  Eval.outcome result

/-- Take a finished job out of the cache if it failed. -/
def evicting (job : Nat) (world : σ) : σ :=
  HasSession.withSession (onCache (fun cache => cache.evict job) (HasSession.session world)) world

/-- The value of a signature: the outcome of the job that stands for it, or of a new one, which has
a strand of its own. -/
def remember (fact : Fact) (signature : String) (computation : Eval σ Value) : Eval σ Value := do
  let cache := (← current).almanac.cache
  match cache.find? signature with
  | some job =>
      count .cacheHits fact.label
      job.join
  | none =>
      count .cacheMisses fact.label
      let job := cache.nextJob
      let strand ← Eval.spawn (completing job computation) fun _ => evicting job
      update (onCache fun cache => cache.start signature strand)
      Eval.join strand

end Fact

/-- Answer a request; `ask` answers the requests of computations. -/
def FactRequest.answer (ask : FactRequest → Eval σ Value) (request : FactRequest) :
    Eval σ Value := do
  let params := Fact.normalParams request.params
  let almanac := (← current).almanac
  match almanac.lookup request.fact with
  | .error e => throw e
  | .ok .undefined =>
      if almanac.allowUndefinedFacts then return .null else throw (.undefinedFact request.fact)
  | .ok (.value value) => Eval.outcome (almanac.applyPath value request.path)
  | .ok (.computed fact program) =>
      let computation := fact.compute ask program params
      let value ← match fact.signatureText? params with
        | none => computation
        | some signature => fact.remember signature computation
      Eval.outcome (almanac.applyPath value request.path)

/-- How deep requests inside computations, and references inside named conditions, are followed. -/
def depthLimit : Nat := 1000

/-- The value of a fact, with computations that ask for facts at most `depth` deep. -/
def factValue : (depth : Nat) → FactRequest → Eval σ Value
  | 0, _ => throw .exhausted
  | depth + 1, request => request.answer (factValue depth)

/-- A value that is a request for a fact stands for what it requests; any other stands for
itself. -/
def valueOf (depth : Nat) (value : Value) : Eval σ Value :=
  match FactRequest.ofValue? value with
  | some request => factValue depth request
  | none => pure value

end Rulebook
