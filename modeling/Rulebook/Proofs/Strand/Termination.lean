import Mathlib.Logic.Hydra
import Mathlib.Tactic.Abel
import Rulebook.Strand.Loop

/-!
Every run comes to rest.

A strand is a well-founded tree, and whatever a loop does to a strand leaves parts of that tree
behind: a turn ends in a later part of the strand, besides which there may be the strands that it
started and some news to be heard of.  So the errands of a loop are the heads of a hydra, and each
event cuts one of them off.  `exists_run_queue_nil` says that this comes to an end, whatever the
strands do.
-/

namespace Rulebook.Strand

open Relation

variable {σ ρ : Type}

/-- What a loop has still to do: let someone hear of an outcome, give a strand its turn, or let a
strand go on that waits. -/
inductive Errand (σ ρ : Type) where
  | notice
  | turn (strand : Strand σ ρ)
  | wait (next : List (Option ρ) → Strand σ ρ)

/-- The first errand is among those that the second one leaves behind. -/
inductive Errand.Remains : Errand σ ρ → Errand σ ρ → Prop where
  | read (next : σ → Strand σ ρ) (world : σ) : Remains (.turn (next world)) (.turn (.read next))
  | write (world : σ) (next : Strand σ ρ) : Remains (.turn next) (.turn (.write world next))
  | pause (next : Strand σ ρ) : Remains (.turn next) (.turn (.pause next))
  | child (child : Strand σ ρ) (next : Nat → Strand σ ρ) :
      Remains (.turn child) (.turn (.spawn child next))
  | spawn (child : Strand σ ρ) (next : Nat → Strand σ ρ) (number : Nat) :
      Remains (.turn (next number)) (.turn (.spawn child next))
  | watched (strand : Nat) (change : ρ → σ → σ) (next : Strand σ ρ) :
      Remains .notice (.turn (.watch strand change next))
  | watch (strand : Nat) (change : ρ → σ → σ) (next : Strand σ ρ) :
      Remains (.turn next) (.turn (.watch strand change next))
  | awaited (strands : List Nat) (enough : List (Option ρ) → Bool)
      (next : List (Option ρ) → Strand σ ρ) :
      Remains .notice (.turn (.await strands enough next))
  | await (strands : List Nat) (enough : List (Option ρ) → Bool)
      (next : List (Option ρ) → Strand σ ρ) (known : List (Option ρ)) :
      Remains (.turn (next known)) (.turn (.await strands enough next))
  | suspend (strands : List Nat) (enough : List (Option ρ) → Bool)
      (next : List (Option ρ) → Strand σ ρ) :
      Remains (.wait next) (.turn (.await strands enough next))
  | resume (next : List (Option ρ) → Strand σ ρ) (known : List (Option ρ)) :
      Remains (.turn (next known)) (.wait next)

namespace Errand

theorem acc_notice : Acc Remains (.notice : Errand σ ρ) := .intro _ nofun

theorem acc_turn (strand : Strand σ ρ) : Acc Remains (.turn strand) := by
  induction strand with
  | done outcome => exact .intro _ nofun
  | read next ih =>
      apply Acc.intro _
      intro errand h
      cases h with
      | read _ world => exact ih world
  | write world next ih =>
      apply Acc.intro _
      intro errand h
      cases h
      exact ih
  | pause next ih =>
      apply Acc.intro _
      intro errand h
      cases h
      exact ih
  | spawn child next ihChild ih =>
      apply Acc.intro _
      intro errand h
      cases h with
      | child => exact ihChild
      | spawn _ _ number => exact ih number
  | watch strand change next ih =>
      apply Acc.intro _
      intro errand h
      cases h with
      | watched => exact acc_notice
      | watch => exact ih
  | await strands enough next ih =>
      apply Acc.intro _
      intro errand h
      cases h with
      | awaited => exact acc_notice
      | await _ _ _ known => exact ih known
      | suspend =>
          apply Acc.intro _
          intro errand h
          cases h with
          | resume _ known => exact ih known

theorem remains_wellFounded : WellFounded (Remains (σ := σ) (ρ := ρ)) := by
  refine ⟨fun errand => ?_⟩
  cases errand with
  | notice => exact acc_notice
  | turn strand => exact acc_turn strand
  | wait next =>
      apply Acc.intro _
      intro errand h
      cases h with
      | resume _ known => exact acc_turn (next known)

/-- Tasks get done: one at a time is replaced by errands that it leaves behind. -/
def Done : Multiset (Errand σ ρ) → Multiset (Errand σ ρ) → Prop := TransGen (CutExpand Remains)

theorem done_wellFounded : WellFounded (Done (σ := σ) (ρ := ρ)) :=
  remains_wellFounded.cutExpand.transGen

/-- Doing one errand besides others. -/
theorem cutExpand_add {others left : Multiset (Errand σ ρ)} {errand : Errand σ ρ}
    (h : ∀ rest ∈ left, rest.Remains errand) :
    CutExpand Remains (others + left) (others + {errand}) :=
  (cutExpand_add_left others).2 (cutExpand_singleton h)

end Errand

/-- The errand that an event is. -/
def Event.errand : Event σ ρ → Errand σ ρ
  | .turn _ rest => .turn rest
  | .news _ _ => .notice

/-- The errand that a wait is. -/
def Wait.errand (wait : Wait σ ρ) : Errand σ ρ := .wait wait.next

namespace Loop

/-- How many are to hear of outcomes that are not there yet. -/
def hearerCount (records : List (Record σ ρ)) : Nat :=
  (records.map fun record => record.hearers.length).sum

/-- The errands of a loop: what is due, who is to hear of something, and who waits. -/
def errands (loop : Loop σ ρ) : Multiset (Errand σ ρ) :=
  Multiset.ofList (loop.queue.map Event.errand) +
    Multiset.replicate (hearerCount loop.records) .notice +
    Multiset.ofList (loop.waits.filterMap fun wait => wait.map Wait.errand)

theorem hearerCount_set {records : List (Record σ ρ)} {strand : Nat} {record : Record σ ρ}
    (h : records[strand]? = some record) (other : Record σ ρ) :
    hearerCount (records.set strand other) + record.hearers.length =
      hearerCount records + other.hearers.length := by
  induction records generalizing strand with
  | nil => simp at h
  | cons first rest ih =>
      cases strand with
      | zero =>
          simp only [List.getElem?_cons_zero, Option.some.injEq] at h
          subst h
          simp [hearerCount]
          omega
      | succ strand =>
          have hrest := ih (by simpa using h)
          simp only [hearerCount, List.set_cons_succ, List.map_cons, List.sum_cons] at hrest ⊢
          omega

theorem errands_enqueue (loop : Loop σ ρ) (events : List (Event σ ρ)) :
    (loop.enqueue events).errands = loop.errands + Multiset.ofList (events.map Event.errand) := by
  simp only [errands, enqueue, List.map_append, ← Multiset.coe_add]
  abel

theorem errands_add (loop : Loop σ ρ) (child : Strand σ ρ) :
    (loop.add child).errands = loop.errands + {.turn child} := by
  have hcount : hearerCount (loop.records ++ [⟨none, []⟩]) = hearerCount loop.records := by
    simp [hearerCount]
  simp only [errands, add, List.map_append, ← Multiset.coe_add, hcount, List.map_cons, List.map_nil,
    Event.errand, Multiset.coe_singleton]
  abel

/-- Who was to hear of an outcome is about to when it is there. -/
theorem errands_finish (loop : Loop σ ρ) (strand : Nat) (outcome : ρ) :
    (loop.finish strand outcome).errands = loop.errands := by
  cases h : loop.records[strand]? with
  | none =>
      have hset : loop.records.set strand ⟨some outcome, []⟩ = loop.records :=
        List.set_eq_of_length_le (List.getElem?_eq_none_iff.1 h)
      simp [errands, finish, h, hset]
  | some record =>
      have hcount := hearerCount_set h ⟨some outcome, []⟩
      have hnews : (record.hearers.map fun hearer => Event.errand (.news hearer outcome)) =
          List.replicate record.hearers.length (.notice : Errand σ ρ) := by
        simp [Event.errand, List.map_const']
      simp only [List.length_nil, Nat.add_zero] at hcount
      simp only [errands, finish, h, Option.map_some, Option.getD_some, List.map_append,
        List.map_map, Function.comp_def, hnews, ← Multiset.coe_add, Multiset.coe_replicate,
        ← hcount, Multiset.replicate_add]
      abel

/-- Someone more may have to hear of something. -/
theorem errands_listen (loop : Loop σ ρ) (strand : Nat) (hearer : Hearer σ ρ) :
    ∃ more, (loop.listen strand hearer).errands =
      loop.errands + Multiset.replicate more .notice := by
  unfold listen
  split
  · exact ⟨0, by simp⟩
  · refine ⟨1, ?_⟩
    rw [errands_enqueue]
    rfl
  · next hearers h =>
      refine ⟨1, ?_⟩
      have hcount := hearerCount_set h ⟨none, hearers ++ [hearer]⟩
      have hone : hearerCount (loop.records.set strand ⟨none, hearers ++ [hearer]⟩) =
          hearerCount loop.records + 1 := by
        simp only [List.length_append, List.length_singleton] at hcount
        omega
      simp only [errands, hone, Multiset.replicate_add]
      abel

theorem errands_listenEach (number : Nat) (places : List (Nat × Nat)) (loop : Loop σ ρ) :
    ∃ more, (listenEach number places loop).errands =
      loop.errands + Multiset.replicate more .notice := by
  induction places generalizing loop with
  | nil => exact ⟨0, by simp [listenEach]⟩
  | cons entry rest ih =>
      obtain ⟨strand, place⟩ := entry
      rw [listenEach]
      split
      · exact ih loop
      · obtain ⟨first, hfirst⟩ := errands_listen loop strand (.wait number place)
        obtain ⟨more, hmore⟩ := ih (loop.listen strand (.wait number place))
        exact ⟨first + more, by rw [hmore, hfirst, Multiset.replicate_add, add_assoc]⟩

theorem errands_suspend (loop : Loop σ ρ) (wait : Wait σ ρ) :
    ∃ more, (loop.suspend wait).errands =
      loop.errands + ({wait.errand} + Multiset.replicate more .notice) := by
  obtain ⟨more, hmore⟩ := errands_listenEach loop.waits.length wait.strands.zipIdx
    { loop with waits := loop.waits ++ [some wait] }
  refine ⟨more, ?_⟩
  rw [suspend, hmore]
  simp only [errands, List.filterMap_append, List.filterMap_cons, Option.map_some,
    List.filterMap_nil, ← Multiset.coe_add, Multiset.coe_singleton]
  abel

open Errand in
/-- A turn leaves only parts of the strand behind. -/
theorem errands_follow (number : Nat) (strand : Strand σ ρ) (loop : Loop σ ρ) :
    Done (follow number strand loop).errands (loop.errands + {.turn strand}) := by
  induction strand generalizing number loop with
  | done outcome =>
      rw [follow, errands_finish]
      have hcut : CutExpand Remains (loop.errands + 0) (loop.errands + {.turn (.done outcome)}) :=
        cutExpand_add nofun
      rw [add_zero] at hcut
      exact .single hcut
  | read next ih =>
      refine TransGen.tail (ih loop.world number loop) (cutExpand_add fun errand h => ?_)
      rw [Multiset.mem_singleton.1 h]
      exact .read next loop.world
  | write world next ih =>
      refine TransGen.tail (ih number { loop with world }) (cutExpand_add fun errand h => ?_)
      rw [Multiset.mem_singleton.1 h]
      exact .write world next
  | pause next ih =>
      rw [follow, errands_enqueue]
      refine .single (cutExpand_add fun errand h => ?_)
      have heq : errand = .turn next := by simpa [Event.errand] using h
      rw [heq]
      exact .pause next
  | spawn child next ihChild ih =>
      have hrest := ih loop.records.length number (loop.add child)
      rw [errands_add, add_assoc] at hrest
      refine TransGen.tail hrest (cutExpand_add fun errand h => ?_)
      rcases Multiset.mem_add.1 h with h | h <;> rw [Multiset.mem_singleton.1 h]
      · exact .child child next
      · exact .spawn child next loop.records.length
  | watch watched change next ih =>
      have hrest := ih number (loop.listen watched (.world change))
      obtain ⟨more, hmore⟩ := errands_listen loop watched (.world change)
      rw [hmore, add_assoc] at hrest
      refine TransGen.tail hrest (cutExpand_add fun errand h => ?_)
      rcases Multiset.mem_add.1 h with h | h
      · rw [Multiset.eq_of_mem_replicate h]
        exact .watched watched change next
      · rw [Multiset.mem_singleton.1 h]
        exact .watch watched change next
  | await strands enough next ih =>
      rw [follow]
      split
      · refine TransGen.tail (ih _ number loop) (cutExpand_add fun errand h => ?_)
        rw [Multiset.mem_singleton.1 h]
        exact .await strands enough next _
      · obtain ⟨more, hmore⟩ := errands_suspend loop
          ⟨number, strands, strands.map loop.outcome?, enough, next⟩
        rw [hmore]
        refine .single (cutExpand_add fun errand h => ?_)
        rcases Multiset.mem_add.1 h with h | h
        · rw [Multiset.mem_singleton.1 h]
          exact .suspend strands enough next
        · rw [Multiset.eq_of_mem_replicate h]
          exact .awaited strands enough next

/-- What the waits tell of themselves when one of them is over or has changed. -/
theorem coe_filterMap_set {α : Type} (tell : Wait σ ρ → α) {waits : List (Option (Wait σ ρ))}
    {number : Nat} {wait : Wait σ ρ} (h : waits[number]? = some (some wait))
    (other : Option (Wait σ ρ)) :
    Multiset.ofList ((waits.set number other).filterMap fun wait => wait.map tell) +
        {tell wait} =
      Multiset.ofList (waits.filterMap fun wait => wait.map tell) +
        Multiset.ofList (other.map tell).toList := by
  induction waits generalizing number with
  | nil => simp at h
  | cons first rest ih =>
      cases number with
      | zero =>
          simp only [List.getElem?_cons_zero, Option.some.injEq] at h
          subst h
          cases other with
          | none => simp [← Multiset.cons_coe, ← Multiset.singleton_add, add_comm]
          | some other =>
              simp only [List.set_cons_zero, List.filterMap_cons, Option.map_some,
                Option.toList_some, ← Multiset.cons_coe, ← Multiset.singleton_add,
                Multiset.coe_nil, add_zero]
              abel
      | succ number =>
          have hrest := ih (by simpa using h)
          cases first with
          | none => simpa using hrest
          | some first =>
              simp only [List.set_cons_succ, List.filterMap_cons, Option.map_some,
                ← Multiset.cons_coe, ← Multiset.singleton_add, add_assoc] at hrest ⊢
              rw [hrest]

/-- Hearing of an outcome may let a wait go on. -/
theorem errands_hear (hearer : Hearer σ ρ) (outcome : ρ) (loop : Loop σ ρ) :
    (hear hearer outcome loop).errands = loop.errands ∨
      Errand.Done (hear hearer outcome loop).errands loop.errands := by
  cases hearer with
  | world change => exact .inl rfl
  | wait number place =>
      cases h : loop.waits[number]? with
      | none =>
          left
          simp [hear, h]
      | some found =>
          cases found with
          | none =>
              left
              simp [hear, h]
          | some wait =>
              by_cases henough : wait.enough (wait.known.set place (some outcome)) = true
              · right
                have hset := coe_filterMap_set Wait.errand h none
                simp only [Option.map_none, Option.toList_none, Multiset.coe_nil,
                  add_zero] at hset
                simp only [hear, h, henough, ↓reduceIte]
                refine .single ⟨{.turn (wait.next (wait.known.set place (some outcome)))},
                  wait.errand, ?_, ?_⟩
                · intro errand herrand
                  rw [Multiset.mem_singleton.1 herrand]
                  exact .resume wait.next _
                · simp only [errands, List.map_append, List.map_cons, List.map_nil, Event.errand,
                    ← Multiset.coe_add, Multiset.coe_singleton, ← hset]
                  abel
              · left
                have hset := coe_filterMap_set Wait.errand h
                  (some { wait with known := wait.known.set place (some outcome) })
                have hsame : Multiset.ofList ((loop.waits.set number (some { wait with
                      known := wait.known.set place (some outcome) })).filterMap
                        fun wait => wait.map Wait.errand) =
                    Multiset.ofList (loop.waits.filterMap fun wait => wait.map Wait.errand) :=
                  add_right_cancel hset
                simp [hear, h, henough, errands, hsame]

/-- Each event gets something done. -/
theorem errands_step {loop next : Loop σ ρ} (h : loop.step = some next) :
    Errand.Done next.errands loop.errands := by
  unfold step at h
  split at h
  · cases h
  · next number rest queue hqueue =>
      cases h
      have hturn : ({ loop with queue } : Loop σ ρ).errands + {.turn rest} = loop.errands := by
        simp only [errands, hqueue, List.map_cons, Event.errand, ← Multiset.cons_coe,
          ← Multiset.singleton_add]
        abel
      rw [← hturn]
      exact errands_follow number rest { loop with queue }
  · next hearer outcome queue hqueue =>
      cases h
      have hnotice :
          CutExpand Errand.Remains ({ loop with queue } : Loop σ ρ).errands loop.errands := by
        refine ⟨0, .notice, nofun, ?_⟩
        simp only [errands, hqueue, List.map_cons, Event.errand, ← Multiset.cons_coe,
          ← Multiset.singleton_add]
        abel
      rcases errands_hear hearer outcome { loop with queue } with heq | hdone
      · rw [heq]
        exact .single hnotice
      · exact TransGen.tail hdone hnotice

/-- Every loop comes to rest. -/
theorem exists_run_queue_nil (loop : Loop σ ρ) : ∃ turns, (run turns loop).queue = [] := by
  induction loop using (InvImage.wf errands Errand.done_wellFounded).induction with
  | h loop ih =>
      cases hstep : loop.step with
      | none => exact ⟨0, (step_eq_none_iff loop).1 hstep⟩
      | some next =>
          obtain ⟨turns, hturns⟩ := ih next (errands_step hstep)
          exact ⟨turns + 1, by rw [run, hstep]; exact hturns⟩

end Loop

end Rulebook.Strand
