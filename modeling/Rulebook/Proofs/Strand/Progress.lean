import Rulebook.Proofs.Strand.Upkeep

/-!
Loops in which nothing is forgotten.

`Live` says that every strand without an outcome has a turn to come or waits, and that a wait will
be told of every outcome that it does not know yet.  Waits of infinite rank are not looked after:
they may wait for strands that do not exist.
-/

namespace Rulebook.Strand.Loop

variable {σ ρ : Type} {pledges later : Pledges ρ} {loop other : Loop σ ρ}

/-- A wait will be told of the outcome of a strand: the news is due, or it will be when the outcome
is there. -/
def WillTell (loop : Loop σ ρ) (number place strand : Nat) : Prop :=
  (∃ outcome, .news (.wait number place) outcome ∈ loop.queue) ∨
    ∃ hearers, loop.records[strand]? = some ⟨none, hearers⟩ ∧ .wait number place ∈ hearers

/-- A strand has a turn to come, or it waits. -/
def GoesOn (loop : Loop σ ρ) (strand : Nat) : Prop :=
  (∃ rest, .turn strand rest ∈ loop.queue) ∨
    ∃ (number : Nat) (wait : Wait σ ρ), loop.waits[number]? = some (some wait) ∧
      wait.strand = strand

/-- A wait does not know enough, and it will be told the rest if its strand has a finite rank. -/
def Attended (pledges : Pledges ρ) (loop : Loop σ ρ) (number : Nat) (wait : Wait σ ρ) : Prop :=
  wait.enough wait.known = false ∧ ∃ pledge, pledges[wait.strand]? = some pledge ∧
    MayAwait pledge pledges wait.strands wait.enough ∧
      (pledge.rank ≠ ⊤ → ∀ place strand, wait.strands[place]? = some strand →
        wait.known[place]? = some none → WillTell loop number place strand)

/-- No strand is forgotten, the one apart that has its turn, and no wait is. -/
structure Live (pledges : Pledges ρ) (running : Option Nat) (loop : Loop σ ρ) : Prop where
  goesOn : ∀ strand < loop.records.length, running ≠ some strand → loop.outcome? strand = none →
    GoesOn loop strand
  attended : ∀ (number : Nat) (wait : Wait σ ρ), loop.waits[number]? = some (some wait) →
    Attended pledges loop number wait

/-- More is due, more are to hear, or more strands are there; the waits are the same. -/
structure Extends (loop other : Loop σ ρ) : Prop where
  queue : ∀ event ∈ loop.queue, event ∈ other.queue
  outcome : ∀ strand < loop.records.length, other.outcome? strand = loop.outcome? strand
  hearers : ∀ (strand : Nat) (hearers : List (Hearer σ ρ)),
    loop.records[strand]? = some ⟨none, hearers⟩ →
      ∃ more, other.records[strand]? = some ⟨none, hearers ++ more⟩
  length : loop.records.length ≤ other.records.length
  waits : other.waits = loop.waits

theorem Extends.refl (loop : Loop σ ρ) : Extends loop loop :=
  ⟨fun _ h => h, fun _ _ => rfl, fun _ _ h => ⟨[], by simpa using h⟩, Nat.le_refl _, rfl⟩

theorem Extends.trans {last : Loop σ ρ} (h : Extends loop other) (hlast : Extends other last) :
    Extends loop last where
  queue event hevent := hlast.queue event (h.queue event hevent)
  outcome strand hstrand :=
    (hlast.outcome strand (Nat.lt_of_lt_of_le hstrand h.length)).trans (h.outcome strand hstrand)
  hearers strand hearers hrecord := by
    obtain ⟨first, hfirst⟩ := h.hearers strand hearers hrecord
    obtain ⟨second, hsecond⟩ := hlast.hearers strand _ hfirst
    exact ⟨first ++ second, by rw [hsecond, List.append_assoc]⟩
  length := Nat.le_trans h.length hlast.length
  waits := hlast.waits.trans h.waits

theorem extends_enqueue (loop : Loop σ ρ) (events : List (Event σ ρ)) :
    Extends loop (loop.enqueue events) :=
  ⟨fun _ h => List.mem_append_left _ h, fun _ _ => rfl,
    fun _ _ h => ⟨[], by rw [List.append_nil]; exact h⟩, Nat.le_refl _, rfl⟩

theorem extends_add (loop : Loop σ ρ) (child : Strand σ ρ) : Extends loop (loop.add child) where
  queue event h := List.mem_append_left _ h
  outcome strand hstrand := by simp [outcome?, add, List.getElem?_append_left hstrand]
  hearers strand hearers h :=
    ⟨[], by simpa [add, List.getElem?_append_left (List.getElem?_eq_some_iff.1 h).1] using h⟩
  length := by simp [add]
  waits := rfl

theorem extends_listen (loop : Loop σ ρ) (strand : Nat) (hearer : Hearer σ ρ) :
    Extends loop (loop.listen strand hearer) := by
  unfold listen
  split
  · exact Extends.refl loop
  · exact extends_enqueue loop _
  · next hearers hrecord =>
      have hlt := (List.getElem?_eq_some_iff.1 hrecord).1
      refine ⟨fun _ h => h, fun other _ => ?_, fun other found hfound => ?_, by simp, rfl⟩
      · by_cases hsame : strand = other
        · subst hsame
          simp only [outcome?, List.getElem?_set_self hlt, hrecord, Option.bind_some]
        · simp [outcome?, List.getElem?_set_ne hsame]
      · by_cases hsame : strand = other
        · subst hsame
          rw [hrecord, Option.some.injEq, Record.mk.injEq] at hfound
          obtain ⟨-, rfl⟩ := hfound
          exact ⟨[hearer], List.getElem?_set_self hlt⟩
        · exact ⟨[], by simpa [List.getElem?_set_ne hsame] using hfound⟩

theorem extends_listenEach (number : Nat) (places : List (Nat × Nat)) (loop : Loop σ ρ) :
    Extends loop (listenEach number places loop) := by
  induction places generalizing loop with
  | nil => exact Extends.refl loop
  | cons entry rest ih =>
      obtain ⟨strand, place⟩ := entry
      rw [listenEach]
      split
      · exact ih loop
      · exact (extends_listen loop strand _).trans (ih _)

theorem WillTell.extend {number place strand : Nat} (h : WillTell loop number place strand)
    (hextends : Extends loop other) : WillTell other number place strand := by
  rcases h with ⟨outcome, hnews⟩ | ⟨hearers, hrecord, hhearer⟩
  · exact .inl ⟨outcome, hextends.queue _ hnews⟩
  · obtain ⟨more, hmore⟩ := hextends.hearers strand hearers hrecord
    exact .inr ⟨_, hmore, List.mem_append_left _ hhearer⟩

theorem GoesOn.extend {strand : Nat} (h : GoesOn loop strand) (hextends : Extends loop other) :
    GoesOn other strand := by
  rcases h with ⟨rest, hturn⟩ | ⟨number, wait, hwait, hstrand⟩
  · exact .inl ⟨rest, hextends.queue _ hturn⟩
  · exact .inr ⟨number, wait, hextends.waits ▸ hwait, hstrand⟩

/-- What a wait has to be told may come another way, and there may be more pledges. -/
theorem Attended.imp {number : Nat} {wait : Wait σ ρ} (h : Attended pledges loop number wait)
    (hlater : pledges <+: later)
    (htell : ∀ place strand, WillTell loop number place strand →
      WillTell other number place strand) :
    Attended later other number wait := by
  obtain ⟨henough, pledge, hpledge, hawait, htold⟩ := h
  exact ⟨henough, pledge, getElem?_mono hlater hpledge, hawait.mono hlater,
    fun hrank place strand hstrand hknown => htell place strand
      (htold hrank place strand hstrand hknown)⟩

theorem Live.extend {running : Option Nat} (h : Live pledges running loop)
    (hlater : pledges <+: later) (hextends : Extends loop other)
    (hnew : ∀ strand, loop.records.length ≤ strand → strand < other.records.length →
      GoesOn other strand) :
    Live later running other where
  goesOn strand hstrand hrunning houtcome := by
    by_cases hold : strand < loop.records.length
    · rw [hextends.outcome strand hold] at houtcome
      exact (h.goesOn strand hold hrunning houtcome).extend hextends
    · exact hnew strand (Nat.le_of_not_lt hold) hstrand
  attended number wait hwait := by
    rw [hextends.waits] at hwait
    exact (h.attended number wait hwait).imp hlater fun _ _ htell => htell.extend hextends

theorem Live.add {running : Option Nat} (h : Live pledges running loop) (pledge : Pledge ρ)
    (child : Strand σ ρ) : Live (pledges ++ [pledge]) running (loop.add child) := by
  apply h.extend (List.prefix_append _ _) (extends_add loop child)
  intro strand hle hlt
  obtain rfl : strand = loop.records.length := by
    simp only [Loop.add, List.length_append, List.length_singleton] at hlt
    omega
  exact .inl ⟨child, by simp [Loop.add]⟩

theorem length_listen (loop : Loop σ ρ) (strand : Nat) (hearer : Hearer σ ρ) :
    (loop.listen strand hearer).records.length = loop.records.length := by
  unfold Loop.listen
  split
  · rfl
  · rfl
  · exact List.length_set

theorem length_listenEach (number : Nat) (places : List (Nat × Nat)) (loop : Loop σ ρ) :
    (listenEach number places loop).records.length = loop.records.length := by
  induction places generalizing loop with
  | nil => rfl
  | cons entry rest ih =>
      rw [listenEach, ih]
      split
      · rfl
      · exact length_listen loop _ _

theorem Live.listen {running : Option Nat} (h : Live pledges running loop) (strand : Nat)
    (hearer : Hearer σ ρ) : Live pledges running (loop.listen strand hearer) := by
  apply h.extend List.prefix_rfl (extends_listen loop strand hearer)
  intro other hle hlt
  rw [length_listen] at hlt
  omega

/-- The strand that had its turn has another one to come. -/
theorem Live.pause {strand : Nat} (h : Live pledges (some strand) loop) (rest : Strand σ ρ) :
    Live pledges none (loop.enqueue [.turn strand rest]) where
  goesOn other hother _ houtcome := by
    by_cases hsame : strand = other
    · subst hsame
      exact .inl ⟨rest, List.mem_append_right _ List.mem_cons_self⟩
    · exact (h.goesOn other hother (fun heq => hsame (Option.some.inj heq)) houtcome).extend
        (extends_enqueue loop _)
  attended number wait hwait := (h.attended number wait hwait).imp List.prefix_rfl
    fun _ _ htell => htell.extend (extends_enqueue loop _)

/-- Who was to be told of an outcome is when it is there. -/
theorem WillTell.finish {number place strand : Nat} (h : WillTell loop number place strand)
    (finished : Nat) (outcome : ρ) :
    WillTell (loop.finish finished outcome) number place strand := by
  rcases h with ⟨told, hnews⟩ | ⟨hearers, hrecord, hhearer⟩
  · exact .inl ⟨told, List.mem_append_left _ hnews⟩
  · by_cases hsame : finished = strand
    · subst hsame
      refine .inl ⟨outcome, List.mem_append_right _ ?_⟩
      rw [hrecord]
      exact List.mem_map_of_mem hhearer
    · exact .inr ⟨hearers, by rw [Loop.finish, List.getElem?_set_ne hsame]; exact hrecord, hhearer⟩

theorem Live.finish {strand : Nat} (h : Live pledges (some strand) loop) (outcome : ρ) :
    Live pledges none (loop.finish strand outcome) where
  goesOn other hother _ houtcome := by
    simp only [Loop.finish, List.length_set] at hother
    by_cases hsame : strand = other
    · subst hsame
      simp [outcome?, Loop.finish, hother] at houtcome
    · simp only [outcome?, Loop.finish, List.getElem?_set_ne hsame] at houtcome
      have hgoes := h.goesOn other hother (fun heq => hsame (Option.some.inj heq)) houtcome
      rcases hgoes with ⟨rest, hturn⟩ | hwaits
      · exact .inl ⟨rest, List.mem_append_left _ hturn⟩
      · exact .inr hwaits
  attended number wait hwait := (h.attended number wait hwait).imp List.prefix_rfl
    fun _ _ htell => htell.finish strand outcome

/-- A wait will be told of every outcome that is not there yet. -/
theorem willTell_listenEach (number : Nat) {places : List (Nat × Nat)} {strand place : Nat}
    (hplace : (strand, place) ∈ places) (hstrand : strand < loop.records.length)
    (houtcome : loop.outcome? strand = none) :
    WillTell (listenEach number places loop) number place strand := by
  induction places generalizing loop with
  | nil => cases hplace
  | cons entry rest ih =>
      obtain ⟨first, firstPlace⟩ := entry
      rw [listenEach]
      rcases List.mem_cons.1 hplace with heq | hrest
      · obtain ⟨rfl, rfl⟩ := Prod.mk.inj heq
        rw [houtcome]
        refine WillTell.extend ?_ (extends_listenEach number rest _)
        obtain ⟨hearers, hrecord⟩ : ∃ hearers, loop.records[strand]? = some ⟨none, hearers⟩ := by
          rw [outcome?, List.getElem?_eq_getElem hstrand, Option.bind_some] at houtcome
          exact ⟨loop.records[strand].hearers, by rw [List.getElem?_eq_getElem hstrand, ← houtcome]⟩
        refine .inr ⟨hearers ++ [.wait number place], ?_, by simp⟩
        simp only [Loop.listen, hrecord]
        exact List.getElem?_set_self hstrand
      · split
        · exact ih hrest hstrand houtcome
        · apply ih hrest (by rwa [length_listen])
          rw [(extends_listen loop first _).outcome strand hstrand, houtcome]

/-- The strand that had its turn waits. -/
theorem Live.suspend {wait : Wait σ ρ} {pledge : Pledge ρ}
    (h : Live pledges (some wait.strand) loop) (hlength : pledges.length = loop.records.length)
    (hpledge : pledges[wait.strand]? = some pledge)
    (hawait : MayAwait pledge pledges wait.strands wait.enough)
    (hknown : wait.known = wait.strands.map loop.outcome?)
    (henough : wait.enough wait.known = false) :
    Live pledges none (loop.suspend wait) := by
  have hextends := extends_listenEach loop.waits.length wait.strands.zipIdx
    { loop with waits := loop.waits ++ [some wait] }
  have hold : ∀ (number : Nat) (old : Wait σ ρ), loop.waits[number]? = some (some old) →
      (loop.suspend wait).waits[number]? = some (some old) := by
    intro number old hnumber
    rw [Loop.suspend, hextends.waits]
    exact (List.getElem?_append_left (List.getElem?_eq_some_iff.1 hnumber).1).trans hnumber
  have hrecords : (loop.suspend wait).records.length = loop.records.length :=
    length_listenEach _ _ _
  have htell : ∀ number place strand, WillTell loop number place strand →
      WillTell (loop.suspend wait) number place strand :=
    fun number place strand (h : WillTell { loop with waits := loop.waits ++ [some wait] }
      number place strand) => h.extend hextends
  constructor
  · intro strand hstrand _ houtcome
    rw [hrecords] at hstrand
    by_cases hsame : wait.strand = strand
    · refine .inr ⟨loop.waits.length, wait, ?_, hsame⟩
      rw [Loop.suspend, hextends.waits]
      exact List.getElem?_concat_length
    · rw [Loop.suspend, hextends.outcome strand hstrand] at houtcome
      rcases h.goesOn strand hstrand (fun heq => hsame (Option.some.inj heq)) houtcome with
        ⟨rest, hturn⟩ | ⟨number, old, hnumber, hstrand⟩
      · exact .inl ⟨rest, hextends.queue _ hturn⟩
      · exact .inr ⟨number, old, hold number old hnumber, hstrand⟩
  · intro number found hfound
    rw [Loop.suspend, hextends.waits, List.getElem?_append] at hfound
    split at hfound
    · exact (h.attended number found hfound).imp List.prefix_rfl (htell number)
    · next hnumber =>
        have hone : number - loop.waits.length = 0 := by
          have hlt := (List.getElem?_eq_some_iff.1 hfound).1
          simp only [List.length_singleton] at hlt
          omega
        obtain rfl : number = loop.waits.length := by omega
        simp only [Nat.sub_self, List.getElem?_cons_zero, Option.some.injEq] at hfound
        subst hfound
        refine ⟨henough, pledge, hpledge, hawait, fun hrank place strand hplace hnone => ?_⟩
        rcases hawait with htop | ⟨hranks, -⟩
        · exact absurd htop hrank
        · obtain ⟨found, hfound, -⟩ := hranks strand (List.mem_of_getElem? hplace)
          have hlt : strand < loop.records.length :=
            hlength ▸ (List.getElem?_eq_some_iff.1 hfound).1
          rw [hknown, List.getElem?_map, hplace, Option.map_some, Option.some.injEq] at hnone
          exact willTell_listenEach _ (List.mem_zipIdx_iff_getElem?.2 hplace) hlt hnone

theorem WillTell.tail {number place strand : Nat} (h : WillTell loop number place strand)
    {event : Event σ ρ} {queue : List (Event σ ρ)} (hqueue : loop.queue = event :: queue)
    (hevent : ∀ outcome, event ≠ .news (.wait number place) outcome) :
    WillTell { loop with queue } number place strand := by
  rcases h with ⟨outcome, hnews⟩ | htell
  · rw [hqueue] at hnews
    exact .inl ⟨outcome, (List.mem_cons.1 hnews).resolve_left (hevent outcome).symm⟩
  · exact .inr htell

/-- A strand gets its turn. -/
theorem Live.turn (h : Live pledges none loop) {strand : Nat} {rest : Strand σ ρ}
    {queue : List (Event σ ρ)} (hqueue : loop.queue = .turn strand rest :: queue) :
    Live pledges (some strand) { loop with queue } where
  goesOn other hother hrunning houtcome := by
    rcases h.goesOn other hother nofun houtcome with ⟨found, hturn⟩ | hwaits
    · rw [hqueue] at hturn
      rcases List.mem_cons.1 hturn with heq | hturn
      · exact absurd (congrArg some (Event.turn.inj heq).1.symm) hrunning
      · exact .inl ⟨found, hturn⟩
    · exact .inr hwaits
  attended number wait hwait := (h.attended number wait hwait).imp List.prefix_rfl
    fun _ _ htell => htell.tail hqueue nofun

section News

variable {hearer : Hearer σ ρ} {outcome : ρ} {queue : List (Event σ ρ)} {heard place : Nat}
  {wait : Wait σ ρ}

/-- No strand needs news to go on. -/
theorem Live.goesOn_tail (h : Live pledges none loop)
    (hqueue : loop.queue = .news hearer outcome :: queue) {strand : Nat}
    (hstrand : strand < loop.records.length) (houtcome : loop.outcome? strand = none) :
    GoesOn { loop with queue } strand := by
  rcases h.goesOn strand hstrand nofun houtcome with ⟨rest, hturn⟩ | hwaits
  · rw [hqueue] at hturn
    exact .inl ⟨rest, (List.mem_cons.1 hturn).resolve_left nofun⟩
  · exact .inr hwaits

/-- What one wait hears is no news to the others. -/
theorem Live.attended_tail (h : Live pledges none loop)
    (hqueue : loop.queue = .news (.wait heard place) outcome :: queue) {number : Nat}
    {found : Wait σ ρ} (hfound : loop.waits[number]? = some (some found)) (hne : heard ≠ number) :
    Attended pledges { loop with queue } number found := by
  apply (h.attended number found hfound).imp List.prefix_rfl
  intro place strand htell
  apply htell.tail hqueue
  intro told heq
  exact hne (Hearer.wait.inj (Event.news.inj heq).1).1

/-- A wait that knows enough is over. -/
theorem Live.resume (h : Live pledges none loop)
    (hqueue : loop.queue = .news (.wait heard place) outcome :: queue)
    (hwait : loop.waits[heard]? = some (some wait)) (rest : Strand σ ρ) :
    Live pledges none
      { loop with
        queue := queue ++ [.turn wait.strand rest]
        waits := loop.waits.set heard none } := by
  constructor
  · intro strand hstrand _ houtcome
    rcases h.goesOn_tail hqueue hstrand houtcome with ⟨other, hturn⟩ | ⟨number, found, hfound, heq⟩
    · exact .inl ⟨other, List.mem_append_left _ hturn⟩
    · by_cases hsame : heard = number
      · subst hsame
        rw [hwait, Option.some.injEq, Option.some.injEq] at hfound
        subst hfound heq
        exact .inl ⟨rest, List.mem_append_right _ List.mem_cons_self⟩
      · exact .inr ⟨number, found, (List.getElem?_set_ne hsame).trans hfound, heq⟩
  · intro number found hfound
    by_cases hsame : heard = number
    · subst hsame
      rw [List.getElem?_set_self (List.getElem?_eq_some_iff.1 hwait).1] at hfound
      cases hfound
    · rw [List.getElem?_set_ne hsame] at hfound
      apply (h.attended_tail hqueue hfound hsame).imp List.prefix_rfl
      intro place strand htell
      rcases htell with ⟨told, hnews⟩ | hhears
      · exact .inl ⟨told, List.mem_append_left _ hnews⟩
      · exact .inr hhears

/-- A wait that does not know enough yet knows more. -/
theorem Live.learn (h : Live pledges none loop)
    (hqueue : loop.queue = .news (.wait heard place) outcome :: queue)
    (hwait : loop.waits[heard]? = some (some wait))
    (hnot : wait.enough (wait.known.set place (some outcome)) = false) :
    Live pledges none
      { loop with
        queue
        waits := loop.waits.set heard
          (some { wait with known := wait.known.set place (some outcome) }) } := by
  have hlt := (List.getElem?_eq_some_iff.1 hwait).1
  constructor
  · intro strand hstrand _ houtcome
    rcases h.goesOn_tail hqueue hstrand houtcome with hturn | ⟨number, found, hfound, heq⟩
    · exact .inl hturn
    · by_cases hsame : heard = number
      · subst hsame
        rw [hwait, Option.some.injEq, Option.some.injEq] at hfound
        subst hfound
        exact .inr ⟨heard, _, List.getElem?_set_self hlt, heq⟩
      · exact .inr ⟨number, found, (List.getElem?_set_ne hsame).trans hfound, heq⟩
  · intro number found hfound
    by_cases hsame : heard = number
    · subst hsame
      rw [List.getElem?_set_self hlt, Option.some.injEq, Option.some.injEq] at hfound
      subst hfound
      obtain ⟨-, pledge, hpledge, hawait, htold⟩ := h.attended heard wait hwait
      refine ⟨hnot, pledge, hpledge, hawait, ?_⟩
      intro hrank other strand hstrand hnone
      have hne : place ≠ other := by
        rintro rfl
        rw [List.getElem?_set] at hnone
        simp at hnone
      rw [List.getElem?_set_ne hne] at hnone
      apply (htold hrank other strand hstrand hnone).tail hqueue
      intro told heq
      exact hne (Hearer.wait.inj (Event.news.inj heq).1).2
    · rw [List.getElem?_set_ne hsame] at hfound
      exact h.attended_tail hqueue hfound hsame

/-- Someone hears of an outcome. -/
theorem Live.hear (h : Live pledges none loop)
    (hqueue : loop.queue = .news hearer outcome :: queue) :
    Live pledges none (hear hearer outcome { loop with queue }) := by
  cases hearer with
  | world change =>
      constructor
      · intro strand hstrand _ houtcome
        exact h.goesOn_tail hqueue hstrand houtcome
      · intro number wait hwait
        apply (h.attended number wait hwait).imp List.prefix_rfl
        intro place strand htell
        exact htell.tail hqueue nofun
  | wait heard place =>
      simp only [Loop.hear]
      split
      · next wait hwait =>
          split
          · exact h.resume hqueue hwait _
          · next hnot => exact h.learn hqueue hwait (Bool.eq_false_of_not_eq_true hnot)
      · next hnone =>
          constructor
          · intro strand hstrand _ houtcome
            exact h.goesOn_tail hqueue hstrand houtcome
          · intro number wait hwait
            apply h.attended_tail hqueue hwait
            rintro rfl
            exact hnone wait hwait

end News

theorem live_start (world : σ) (strand : Strand σ ρ) (pledge : Pledge ρ) :
    Live [pledge] none (start world strand) where
  goesOn number hnumber _ _ := by
    obtain rfl : number = 0 := Nat.lt_one_iff.1 hnumber
    exact .inl ⟨strand, List.mem_cons_self⟩
  attended number wait hwait := by
    simp [start] at hwait

/-- When nothing is due any more, every strand of finite rank has come to an outcome: the waits of
lower rank are over. -/
theorem Live.outcome (h : Live pledges none loop) (hlength : pledges.length = loop.records.length)
    (hknown : ∀ (number : Nat) (wait : Wait σ ρ), loop.waits[number]? = some (some wait) →
      wait.known.length = wait.strands.length) (hqueue : loop.queue = []) {strand : Nat}
    {pledge : Pledge ρ} (hpledge : pledges[strand]? = some pledge) (hrank : pledge.rank ≠ ⊤) :
    ∃ outcome, loop.outcome? strand = some outcome := by
  induction hlevel : pledge.rank using WellFoundedLT.induction generalizing strand pledge with
  | ind rank ih =>
      subst hlevel
      by_contra hnone
      have houtcome : loop.outcome? strand = none :=
        Option.eq_none_iff_forall_ne_some.2 fun outcome heq => hnone ⟨outcome, heq⟩
      have hlt : strand < loop.records.length :=
        hlength ▸ (List.getElem?_eq_some_iff.1 hpledge).1
      rcases h.goesOn strand hlt nofun houtcome with ⟨rest, hturn⟩ | ⟨number, wait, hwait, rfl⟩
      · rw [hqueue] at hturn
        cases hturn
      · obtain ⟨henough, found, hfound, hawait, htold⟩ := h.attended number wait hwait
        obtain rfl : pledge = found := Option.some.inj (hpledge.symm.trans hfound)
        obtain ⟨hranks, hall⟩ := hawait.resolve_left hrank
        have hsame := hknown number wait hwait
        rw [hall wait.known hsame ?_] at henough
        · cases henough
        · rw [List.all_eq_true]
          intro known hmem
          by_contra hmissing
          obtain rfl : known = none := by simpa using hmissing
          obtain ⟨place, hplace⟩ := List.mem_iff_getElem?.1 hmem
          have hlast : place < wait.strands.length :=
            hsame ▸ (List.getElem?_eq_some_iff.1 hplace).1
          have hstrand := List.getElem?_eq_getElem hlast
          obtain ⟨lower, hlower, hbelow⟩ := hranks _ (List.mem_of_getElem? hstrand)
          obtain ⟨outcome, houtcome⟩ := ih lower.rank hbelow hlower hbelow.ne_top rfl
          rcases htold hrank place _ hstrand hplace with ⟨told, hnews⟩ | ⟨hearers, hrecord, -⟩
          · rw [hqueue] at hnews
            cases hnews
          · simp [outcome?, hrecord] at houtcome

end Rulebook.Strand.Loop
