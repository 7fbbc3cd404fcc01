import Rulebook.Proofs.Strand.Termination

/-!
Whose turn it is.

A strand without an outcome has one turn to come or one wait, and strands have their first turns in
the order of their numbers: when `begun` of them have had theirs, those of the others stand in the
queue in ascending order (`InTurn.fresh`).  Each thing that a loop does to itself preserves this.
-/

namespace Rulebook.Strand

variable {σ ρ : Type}

/-- The strand that is to have its turn. -/
def Event.strand? : Event σ ρ → Option Nat
  | .turn strand _ => some strand
  | .news _ _ => none

namespace Loop

/-- The strands that have a turn to come, in order. -/
def due (loop : Loop σ ρ) : List Nat := loop.queue.filterMap Event.strand?

/-- The strands that wait. -/
def waiting (loop : Loop σ ρ) : List Nat :=
  loop.waits.filterMap fun wait => wait.map Wait.strand

/-- The strands that are not at their ends: one may have its turn, the others are due or wait. -/
def busy (having : Option Nat) (loop : Loop σ ρ) : Multiset Nat :=
  Multiset.ofList having.toList + Multiset.ofList loop.due + Multiset.ofList loop.waiting

/-- No strand is busy twice, and those that have yet to begin do so in order. -/
structure InTurn (begun : Nat) (having : Option Nat) (loop : Loop σ ρ) : Prop where
  once : (loop.busy having).Nodup
  unfinished : ∀ strand ∈ loop.busy having,
    strand < loop.records.length ∧ loop.outcome? strand = none
  fresh : loop.due.filter (fun strand => begun ≤ strand) =
    List.range' begun (loop.records.length - begun)
  having_lt : ∀ strand, having = some strand → strand < begun
  waiting_lt : ∀ strand ∈ loop.waiting, strand < begun
  le : begun ≤ loop.records.length

variable {begun number : Nat} {having : Option Nat} {loop other : Loop σ ρ}

/-- What does not touch turns, waits and outcomes. -/
theorem InTurn.congr (h : InTurn begun having loop) (hdue : other.due = loop.due)
    (hwaiting : Multiset.ofList other.waiting = Multiset.ofList loop.waiting)
    (hlength : other.records.length = loop.records.length)
    (houtcome : ∀ strand, other.outcome? strand = loop.outcome? strand) :
    InTurn begun having other := by
  have hbusy : other.busy having = loop.busy having := by rw [busy, busy, hdue, hwaiting]
  constructor
  · rw [hbusy]
    exact h.once
  · rw [hbusy, hlength]
    intro strand hstrand
    rw [houtcome]
    exact h.unfinished strand hstrand
  · rw [hdue, hlength]
    exact h.fresh
  · exact h.having_lt
  · intro strand hstrand
    rw [← Multiset.mem_coe, hwaiting] at hstrand
    exact h.waiting_lt strand hstrand
  · rw [hlength]
    exact h.le

theorem inTurn_start (world : σ) (strand : Strand σ ρ) : InTurn 0 none (start world strand) where
  once := by simp [busy, start, due, waiting, Event.strand?]
  unfinished number hnumber := by
    obtain rfl : number = 0 := by simpa [busy, start, due, waiting, Event.strand?] using hnumber
    exact ⟨Nat.zero_lt_one, rfl⟩
  fresh := by simp [start, due, Event.strand?]
  having_lt _ h := nomatch h
  waiting_lt _ h := by simp [start, waiting] at h
  le := Nat.zero_le _

/-- News comes first. -/
theorem InTurn.news (h : InTurn begun none loop) {hearer : Hearer σ ρ} {outcome : ρ}
    {queue : List (Event σ ρ)} (hqueue : loop.queue = .news hearer outcome :: queue) :
    InTurn begun none { loop with queue } := by
  refine h.congr ?_ rfl rfl fun _ => rfl
  rw [due, due, hqueue]
  rfl

/-- A turn comes first: it is the first turn of the strand that is the next to begin, or that of a
strand which has begun. -/
theorem InTurn.turn (h : InTurn begun none loop) {rest : Strand σ ρ} {queue : List (Event σ ρ)}
    (hqueue : loop.queue = .turn number rest :: queue) :
    number < begun ∧ InTurn begun (some number) { loop with queue } ∨
      number = begun ∧ InTurn (begun + 1) (some number) { loop with queue } := by
  have hdue : loop.due = number :: ({ loop with queue } : Loop σ ρ).due := by
    simp [due, hqueue, Event.strand?]
  have hbusy : ({ loop with queue } : Loop σ ρ).busy (some number) = loop.busy none := by
    simp only [busy, hdue, Option.toList_some, Option.toList_none, ← Multiset.cons_coe,
      ← Multiset.singleton_add, Multiset.coe_nil, zero_add, add_zero]
    rfl
  have hnumber := h.unfinished number (by simp [busy, hdue])
  have hfresh := h.fresh
  rw [hdue, List.filter_cons] at hfresh
  by_cases hlt : number < begun
  · refine .inl ⟨hlt, hbusy ▸ h.once, hbusy ▸ h.unfinished, ?_, ?_, h.waiting_lt, h.le⟩
    · rw [if_neg (by simpa using hlt)] at hfresh
      exact hfresh
    · rintro _ ⟨⟩
      exact hlt
  · rw [if_pos (by simpa using hlt)] at hfresh
    have hlength : loop.records.length - begun = loop.records.length - (begun + 1) + 1 := by omega
    rw [hlength, List.range'_succ, List.cons.injEq] at hfresh
    obtain ⟨rfl, hrest⟩ := hfresh
    refine .inr ⟨rfl, hbusy ▸ h.once, hbusy ▸ h.unfinished, ?_, ?_, ?_, hnumber.1⟩
    · rw [← hrest]
      refine List.filter_congr fun strand hstrand => ?_
      have hne : strand ≠ number := by
        rintro rfl
        have honce := h.once
        rw [busy, hdue] at honce
        simp_all
      simp only [decide_eq_decide]
      omega
    · rintro _ ⟨⟩
      exact Nat.lt_succ_self _
    · exact fun strand hstrand => Nat.lt_succ_of_lt (h.waiting_lt strand hstrand)

/-- The strand whose turn comes first is to have it. -/
theorem InTurn.exists_turn (h : InTurn begun none loop) {rest : Strand σ ρ}
    {queue : List (Event σ ρ)} (hqueue : loop.queue = .turn number rest :: queue) :
    ∃ later, InTurn later (some number) { loop with queue } := by
  rcases h.turn hqueue with ⟨_, hturn⟩ | ⟨_, hturn⟩
  · exact ⟨_, hturn⟩
  · exact ⟨_, hturn⟩

theorem InTurn.pause (h : InTurn begun (some number) loop) (next : Strand σ ρ) :
    InTurn begun none (loop.enqueue [.turn number next]) := by
  have hdue : (loop.enqueue [.turn number next]).due = loop.due ++ [number] := by
    simp [due, enqueue, Event.strand?]
  have hbusy : (loop.enqueue [.turn number next]).busy none = loop.busy (some number) := by
    simp only [busy, hdue, Option.toList_some, Option.toList_none, ← Multiset.coe_add,
      Multiset.coe_nil, zero_add]
    rw [add_comm (Multiset.ofList loop.due)]
    rfl
  have hlt := h.having_lt number rfl
  refine ⟨hbusy ▸ h.once, hbusy ▸ h.unfinished, ?_, by rintro _ ⟨⟩, h.waiting_lt, h.le⟩
  rw [hdue, List.filter_append, h.fresh]
  simp [enqueue, hlt]

theorem InTurn.add (h : InTurn begun having loop) (child : Strand σ ρ) :
    InTurn begun having (loop.add child) := by
  have hdue : (loop.add child).due = loop.due ++ [loop.records.length] := by
    simp [due, Loop.add, Event.strand?]
  have hlength : (loop.add child).records.length = loop.records.length + 1 := by
    simp [Loop.add]
  have hbusy : (loop.add child).busy having = loop.records.length ::ₘ loop.busy having := by
    have hwaiting : (loop.add child).waiting = loop.waiting := rfl
    simp only [busy, hdue, hwaiting, ← Multiset.coe_add, Multiset.coe_singleton,
      ← Multiset.singleton_add]
    abel
  constructor
  · rw [hbusy, Multiset.nodup_cons]
    exact ⟨fun hmem => Nat.lt_irrefl _ (h.unfinished _ hmem).1, h.once⟩
  · rw [hbusy, hlength]
    intro strand hstrand
    rcases Multiset.mem_cons.1 hstrand with rfl | hold
    · exact ⟨Nat.lt_succ_self _, by simp [outcome?, Loop.add]⟩
    · obtain ⟨hlt, hnone⟩ := h.unfinished strand hold
      refine ⟨Nat.lt_succ_of_lt hlt, ?_⟩
      rwa [outcome?, Loop.add, List.getElem?_append_left hlt]
  · have hle := h.le
    rw [hdue, hlength, List.filter_append, h.fresh, Nat.succ_sub hle, List.range'_concat]
    simp [hle]
  · exact h.having_lt
  · exact h.waiting_lt
  · rw [hlength]
    exact Nat.le_succ_of_le h.le

theorem InTurn.finish (h : InTurn begun (some number) loop) (outcome : ρ) :
    InTurn begun none (loop.finish number outcome) := by
  have hdue : (loop.finish number outcome).due = loop.due := by
    simp [due, Loop.finish, Event.strand?, Function.comp_def]
  have hbusy : loop.busy (some number) =
      number ::ₘ (loop.finish number outcome).busy none := by
    have hwaiting : (loop.finish number outcome).waiting = loop.waiting := rfl
    simp only [busy, hdue, hwaiting, Option.toList_some, Option.toList_none, Multiset.coe_nil,
      zero_add, Multiset.coe_singleton, ← Multiset.singleton_add, add_assoc]
  have honce := h.once
  rw [hbusy, Multiset.nodup_cons] at honce
  have hlength : (loop.finish number outcome).records.length = loop.records.length := by
    simp [Loop.finish]
  constructor
  · exact honce.2
  · intro strand hstrand
    have hne : number ≠ strand := fun heq => honce.1 (heq ▸ hstrand)
    rw [hlength, outcome?, Loop.finish, List.getElem?_set_ne hne]
    exact h.unfinished strand (hbusy ▸ Multiset.mem_cons_of_mem hstrand)
  · rw [hdue, hlength]
    exact h.fresh
  · rintro _ ⟨⟩
  · exact h.waiting_lt
  · rw [hlength]
    exact h.le

theorem InTurn.listen (h : InTurn begun having loop) (strand : Nat) (hearer : Hearer σ ρ) :
    InTurn begun having (loop.listen strand hearer) := by
  unfold Loop.listen
  split
  · exact h
  · refine h.congr ?_ rfl rfl fun _ => rfl
    simp [due, Loop.enqueue, Event.strand?]
  · next hearers hrecord =>
      refine h.congr rfl rfl (by simp) fun other => ?_
      by_cases hsame : strand = other
      · subst hsame
        have hlt := (List.getElem?_eq_some_iff.1 hrecord).1
        simp [outcome?, List.getElem?_set_self hlt, hrecord]
      · simp [outcome?, List.getElem?_set_ne hsame]

theorem InTurn.await {wait : Wait σ ρ} (h : InTurn begun (some wait.strand) loop) :
    InTurn begun none { loop with waits := loop.waits ++ [some wait] } := by
  have hwaiting : ({ loop with waits := loop.waits ++ [some wait] } : Loop σ ρ).waiting =
      loop.waiting ++ [wait.strand] := by
    simp [waiting]
  have hbusy : ({ loop with waits := loop.waits ++ [some wait] } : Loop σ ρ).busy none =
      loop.busy (some wait.strand) := by
    have hdue : ({ loop with waits := loop.waits ++ [some wait] } : Loop σ ρ).due = loop.due := rfl
    simp only [busy, hdue, hwaiting, Option.toList_some, Option.toList_none, Multiset.coe_nil,
      ← Multiset.coe_add]
    abel
  refine ⟨hbusy ▸ h.once, hbusy ▸ h.unfinished, h.fresh, by rintro _ ⟨⟩, ?_, h.le⟩
  rw [hwaiting]
  intro strand hstrand
  rcases List.mem_append.1 hstrand with hold | hnew
  · exact h.waiting_lt strand hold
  · rw [List.mem_singleton.1 hnew]
    exact h.having_lt _ rfl

/-- A wait is over: its strand waits no longer but is due. -/
theorem InTurn.resume (h : InTurn begun none loop) {strand : Nat} (next : Strand σ ρ)
    {waits : List (Option (Wait σ ρ))}
    (hwaits : Multiset.ofList (waits.filterMap fun wait => wait.map Wait.strand) + {strand} =
      Multiset.ofList loop.waiting) (hlt : strand < begun) :
    InTurn begun none { loop with queue := loop.queue ++ [.turn strand next], waits } := by
  have hdue : ({ loop with queue := loop.queue ++ [.turn strand next], waits } : Loop σ ρ).due =
      loop.due ++ [strand] := by
    simp [due, Event.strand?]
  have hbusy : ({ loop with queue := loop.queue ++ [.turn strand next], waits } : Loop σ ρ).busy
      none = loop.busy none := by
    have hwaiting : ({ loop with queue := loop.queue ++ [.turn strand next], waits } :
        Loop σ ρ).waiting = waits.filterMap fun wait => wait.map Wait.strand := rfl
    simp only [busy, hdue, hwaiting, ← hwaits, ← Multiset.coe_add, Multiset.coe_singleton]
    abel
  refine ⟨hbusy ▸ h.once, hbusy ▸ h.unfinished, ?_, by rintro _ ⟨⟩, ?_, h.le⟩
  · rw [hdue, List.filter_append, h.fresh]
    simp [hlt]
  · intro other hother
    apply h.waiting_lt
    rw [← Multiset.mem_coe, ← hwaits, Multiset.mem_add]
    exact .inl hother

theorem InTurn.hear (h : InTurn begun none loop) (hearer : Hearer σ ρ) (outcome : ρ) :
    InTurn begun none (hear hearer outcome loop) := by
  cases hearer with
  | world change => exact h.congr rfl rfl rfl fun _ => rfl
  | wait number place =>
      simp only [Loop.hear]
      split
      · next wait hwait =>
          split
          · have hset := coe_filterMap_set Wait.strand hwait none
            simp only [Option.map_none, Option.toList_none, Multiset.coe_nil, add_zero] at hset
            have hold : wait.strand ∈ loop.waiting :=
              List.mem_filterMap.2 ⟨some wait, List.mem_of_getElem? hwait, rfl⟩
            exact h.resume _ hset (h.waiting_lt _ hold)
          · refine h.congr rfl ?_ rfl fun _ => rfl
            exact add_right_cancel (coe_filterMap_set Wait.strand hwait _)
      · exact h

theorem InTurn.listenEach (h : InTurn begun having loop) (wait : Nat) (places : List (Nat × Nat)) :
    InTurn begun having (Loop.listenEach wait places loop) := by
  induction places generalizing loop with
  | nil => exact h
  | cons entry rest ih =>
      rw [Loop.listenEach]
      apply ih
      split
      · exact h
      · exact h.listen entry.1 _

theorem InTurn.suspend {wait : Wait σ ρ} (h : InTurn begun (some wait.strand) loop) :
    InTurn begun none (loop.suspend wait) :=
  h.await.listenEach _ _

/-- A strand has its turn. -/
theorem InTurn.follow (h : InTurn begun (some number) loop) (strand : Strand σ ρ) :
    InTurn begun none (Loop.follow number strand loop) := by
  induction strand generalizing loop with
  | done outcome => exact h.finish outcome
  | read next ih => exact ih _ h
  | write world next ih => exact ih (h.congr rfl rfl rfl fun _ => rfl)
  | pause next => exact h.pause next
  | spawn child next _ ih => exact ih _ (h.add child)
  | watch strand change next ih => exact ih (h.listen strand _)
  | await strands enough next ih =>
      rw [Loop.follow]
      split
      · exact ih _ h
      · exact InTurn.suspend h

/-- Whatever is due happens. -/
theorem InTurn.step (h : InTurn begun none loop) (hstep : loop.step = some other) :
    ∃ later, InTurn later none other := by
  unfold Loop.step at hstep
  split at hstep
  · cases hstep
  · next number rest queue hqueue =>
      cases hstep
      rcases h.turn hqueue with ⟨_, hturn⟩ | ⟨_, hturn⟩
      · exact ⟨_, hturn.follow rest⟩
      · exact ⟨_, hturn.follow rest⟩
  · next hearer outcome queue hqueue =>
      cases hstep
      exact ⟨_, (h.news hqueue).hear hearer outcome⟩

end Loop

end Rulebook.Strand
