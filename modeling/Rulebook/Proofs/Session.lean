import Rulebook.Proofs.Ensures
import Rulebook.Proofs.Tally
import Rulebook.Session

/-!
What the small steps of a session ensure.
-/

namespace Rulebook.Session

open Eval Strand

variable {σ : Type} [HasSession σ] {inv : Invariant σ Ending} {rank : ℕ∞}

/-- A session in which one more was counted under a label. -/
def counting (counter : Counter) (label : String) (session : Session) : Session :=
  { session with tally := session.tally.map fun tally => tally.count counter label }

/-- What is counted, but not by the cache, is of no concern to the invariant. -/
def TallyFree (inv : Invariant σ Ending) : Prop :=
  ∀ pledges world (counter : Counter) label, counter.ofCache = false → inv pledges world →
    inv pledges (HasSession.withSession ((HasSession.session world).counting counter label) world)

/-- A step that looks at the session first. -/
theorem ensures_current_bind {α : Type} {rest : Session → Eval σ α} {post : Except Error α → Prop}
    (holds : Session → Prop)
    (hget : ∀ pledges world, inv pledges world → holds (HasSession.session world))
    (hrest : ∀ session, holds session → Ensures inv rank (rest session) post) :
    Ensures inv rank (current >>= rest) post := by
  have hcurrent : current >>= rest =
      MonadState.get >>= fun world : σ => rest (HasSession.session world) := by
    rw [current, bind_assoc]
    rfl
  rw [hcurrent]
  exact Ensures.get_bind _ hget fun world hworld => hrest _ hworld

section Turn

/-! ### Steps in one turn -/

variable {α : Type} {own : Pledge Ending} {next : Except Error α → Strand σ Ending}
  {pledges : Pledges Ending} {world : σ}

theorem keeps_current_bind {rest : Session → Eval σ α} :
    Keeps inv ((current >>= rest) next) own pledges world ↔
      Keeps inv (rest (HasSession.session world) next) own pledges world :=
  Iff.rfl

theorem keeps_update_bind {change : Session → Session} {rest : Unit → Eval σ α} :
    Keeps inv ((update change >>= rest) next) own pledges world ↔
      Keeps inv (rest () next) own pledges
        (HasSession.withSession (change (HasSession.session world)) world) :=
  Iff.rfl

end Turn

theorem ensures_update {change : Session → Session}
    (h : ∀ pledges world, inv pledges world →
      inv pledges (HasSession.withSession (change (HasSession.session world)) world)) :
    Ensures inv rank (update change : Eval σ Unit) (· = .ok ()) :=
  Ensures.modify h

theorem ensures_count (h : TallyFree inv) {counter : Counter} (hcounter : counter.ofCache = false)
    (label : String) : Ensures inv rank (count counter label : Eval σ Unit) (· = .ok ()) :=
  ensures_update fun pledges world hinv => h pledges world counter label hcounter hinv

/-- A step after something was counted. -/
theorem ensures_count_bind {α : Type} (h : TallyFree inv) {counter : Counter}
    (hcounter : counter.ofCache = false) {label : String} {rest : Eval σ α}
    {post : Except Error α → Prop} (hrest : Ensures inv rank rest post) :
    Ensures inv rank (do count counter label; rest) post :=
  (ensures_count h hcounter label).bind (fun _ _ => hrest) fun _ he => nomatch he

end Rulebook.Session
