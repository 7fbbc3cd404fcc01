import Rulebook.Proofs.Strand.Ledger
import Rulebook.Proofs.Strand.Turns
import Rulebook.Proofs.Strand.Upkeep

/-!
Loops whose strands keep to a charter.

`Balanced` says of a loop that outcomes are as the accounts say, and that whatever is due, waits or
is to be heard of goes on to keep to the charter.  Each thing that a loop does to itself preserves
it, so the charter holds whenever no strand has its turn (`Balanced.run`).
-/

namespace Rulebook.Strand.Loop

variable {σ ρ Λ : Type} [Preorder Λ] {charter : Charter σ ρ Λ} {ledger later : Ledger Λ}
  {having : Option Nat} {loop : Loop σ ρ}

/-- A hearer may hear of the outcome of a strand. -/
def MayTell (charter : Charter σ ρ Λ) (waits : List (Option (Wait σ ρ))) (strand : Nat) :
    Hearer σ ρ → Prop
  | .world change => charter.Tolerates strand change
  | .wait number place =>
      number < waits.length ∧ ∀ wait : Wait σ ρ, waits[number]? = some (some wait) →
        wait.strands[place]? = some strand

/-- A strand that is due keeps to the charter, from its first turn on if it has yet to begin. -/
def MayTurn (charter : Charter σ ρ Λ) (ledger : Ledger Λ) (strand : Nat) (rest : Strand σ ρ) :
    Prop :=
  (strand < ledger.begun → charter.Standing ledger strand (charter.Honours rest strand)) ∧
    (ledger.begun ≤ strand → ∃ a, ledger.accounts[strand]? = some a ∧
      charter.Starts (charter.Honours rest strand) strand a)

/-- A strand that waits keeps to the charter once it knows enough. -/
def MayGoOn (charter : Charter σ ρ Λ) (ledger : Ledger Λ) (wait : Wait σ ρ) : Prop :=
  charter.AdmitsEach ledger wait.strands wait.known ∧
    ∀ known, wait.enough known = true → charter.Standing ledger wait.strand fun later world =>
      charter.AdmitsEach later wait.strands known →
        charter.Honours (wait.next known) wait.strand later world

/-- Every strand keeps to the charter, the one apart that has its turn. -/
structure Balanced (charter : Charter σ ρ Λ) (ledger : Ledger Λ) (having : Option Nat)
    (loop : Loop σ ρ) : Prop where
  inTurn : InTurn ledger.begun having loop
  length : ledger.accounts.length = loop.records.length
  outcome : ∀ strand outcome, loop.outcome? strand = some outcome →
    charter.Admits ledger strand outcome
  hearer : ∀ (strand : Nat) (record : Record σ ρ), loop.records[strand]? = some record →
    ∀ hearer ∈ record.hearers, MayTell charter loop.waits strand hearer
  turn : ∀ strand rest, .turn strand rest ∈ loop.queue → MayTurn charter ledger strand rest
  news : ∀ hearer outcome, .news hearer outcome ∈ loop.queue →
    ∃ strand, charter.Admits ledger strand outcome ∧ MayTell charter loop.waits strand hearer
  wait : ∀ (number : Nat) (wait : Wait σ ρ), loop.waits[number]? = some (some wait) →
    MayGoOn charter ledger wait

/-! ### What others do -/

theorem MayTell.append {waits : List (Option (Wait σ ρ))} {strand : Nat} {hearer : Hearer σ ρ}
    (h : MayTell charter waits strand hearer) (more : List (Option (Wait σ ρ))) :
    MayTell charter (waits ++ more) strand hearer := by
  cases hearer with
  | world change => exact h
  | wait number place =>
      have hplace : OfWait waits number fun strands => strands[place]? = some strand := h
      exact hplace.append more

theorem MayTell.set {waits : List (Option (Wait σ ρ))} {strand : Nat} {hearer : Hearer σ ρ}
    (h : MayTell charter waits strand hearer) {number : Nat} {wait : Wait σ ρ}
    (hwait : waits[number]? = some (some wait)) {other : Option (Wait σ ρ)}
    (hother : ∀ changed, other = some changed → changed.strands = wait.strands) :
    MayTell charter (waits.set number other) strand hearer := by
  cases hearer with
  | world change => exact h
  | wait heard place =>
      have hplace : OfWait waits heard fun strands => strands[place]? = some strand := h
      exact hplace.set hwait hother

theorem MayTurn.grow {strand : Nat} {rest : Strand σ ρ} (h : MayTurn charter ledger strand rest)
    (hlater : ledger.Grows later) (hown : later.accounts[strand]? = ledger.accounts[strand]?)
    (hbegun : later.begun ≤ strand ↔ ledger.begun ≤ strand) :
    MayTurn charter later strand rest := by
  constructor
  · intro hlt
    exact (h.1 (not_le.1 (mt hbegun.2 (not_le.2 hlt)))).mono hlater hown
  · intro hle
    obtain ⟨a, ha, hstarts⟩ := h.2 (hbegun.1 hle)
    exact ⟨a, hown.trans ha, hstarts⟩

theorem MayGoOn.grow {wait : Wait σ ρ} (h : MayGoOn charter ledger wait)
    (hlater : ledger.Grows later)
    (hown : later.accounts[wait.strand]? = ledger.accounts[wait.strand]?) :
    MayGoOn charter later wait :=
  ⟨h.1.mono hlater, fun known henough => (h.2 known henough).mono hlater hown⟩

/-- The strand that has its turn is neither due nor does it wait. -/
theorem InTurn.ne_having {begun own strand : Nat} (h : InTurn begun (some own) loop)
    (hstrand : strand ∈ loop.due ∨ strand ∈ loop.waiting) : strand ≠ own := by
  rintro rfl
  have honce := h.once
  rw [busy, Option.toList_some, Multiset.coe_singleton, Multiset.singleton_add,
    Multiset.cons_add, Multiset.nodup_cons, Multiset.mem_add] at honce
  exact honce.1 (hstrand.imp Multiset.mem_coe.2 Multiset.mem_coe.2)

theorem mem_due {strand : Nat} {rest : Strand σ ρ} (h : .turn strand rest ∈ loop.queue) :
    strand ∈ loop.due :=
  List.mem_filterMap.2 ⟨_, h, rfl⟩

theorem mem_waiting {number : Nat} {wait : Wait σ ρ}
    (h : loop.waits[number]? = some (some wait)) : wait.strand ∈ loop.waiting :=
  List.mem_filterMap.2 ⟨some wait, List.mem_of_getElem? h, rfl⟩

/-! ### One strand has its turn -/

/-- The strand that has its turn enters something. -/
theorem Balanced.enter {own : Nat} (h : Balanced charter ledger (some own) loop) {a : Λ}
    (hmay : ledger.MayEnter own a) : Balanced charter (ledger.enter own a) (some own) loop where
  inTurn := h.inTurn
  length := by rw [← h.length]; exact List.length_set
  outcome strand outcome houtcome := (h.outcome strand outcome houtcome).mono hmay.grows
  hearer := h.hearer
  turn strand rest hturn := by
    have hne := h.inTurn.ne_having (.inl (mem_due hturn))
    exact (h.turn strand rest hturn).grow hmay.grows (List.getElem?_set_ne hne.symm) Iff.rfl
  news hearer outcome hnews := by
    obtain ⟨strand, hadmits, htell⟩ := h.news hearer outcome hnews
    exact ⟨strand, hadmits.mono hmay.grows, htell⟩
  wait number wait hwait := by
    have hne := h.inTurn.ne_having (.inr (mem_waiting hwait))
    exact (h.wait number wait hwait).grow hmay.grows (List.getElem?_set_ne hne.symm)

theorem Balanced.ofWorld (h : Balanced charter ledger having loop) (world : σ) :
    Balanced charter ledger having { loop with world } :=
  ⟨h.inTurn.congr rfl rfl rfl fun _ => rfl, h.length, h.outcome, h.hearer, h.turn, h.news, h.wait⟩

theorem Balanced.pause {own : Nat} (h : Balanced charter ledger (some own) loop)
    {next : Strand σ ρ} (hnext : charter.Standing ledger own (charter.Honours next own)) :
    Balanced charter ledger none (loop.enqueue [.turn own next]) where
  inTurn := h.inTurn.pause next
  length := h.length
  outcome := h.outcome
  hearer := h.hearer
  turn strand rest hturn := by
    rcases List.mem_append.1 hturn with hold | hnew
    · exact h.turn strand rest hold
    · cases List.mem_singleton.1 hnew
      have hlt := h.inTurn.having_lt own rfl
      exact ⟨fun _ => hnext, fun hle => absurd hlt (Nat.not_lt.2 hle)⟩
  news hearer outcome hnews := by
    rcases List.mem_append.1 hnews with hold | hnew
    · exact h.news hearer outcome hold
    · cases List.mem_singleton.1 hnew
  wait := h.wait

/-- A strand is started with an account. -/
theorem Balanced.add {own : Nat} (h : Balanced charter ledger (some own) loop)
    {child : Strand σ ρ} {a : Λ}
    (hchild : charter.Starts (charter.Honours child loop.records.length) loop.records.length a) :
    Balanced charter (ledger.openFor a) (some own) (loop.add child) := by
  have hgrows := ledger.grows_openFor a
  have hown : ∀ strand < ledger.accounts.length,
      (ledger.openFor a).accounts[strand]? = ledger.accounts[strand]? :=
    fun strand hstrand => List.getElem?_append_left hstrand
  have hbusy : ∀ strand, strand ∈ loop.due ∨ strand ∈ loop.waiting →
      strand < ledger.accounts.length := by
    intro strand hstrand
    rw [h.length]
    refine (h.inTurn.unfinished strand ?_).1
    simpa [busy] using .inr hstrand
  constructor
  · exact h.inTurn.add child
  · simp [Ledger.openFor, Loop.add, h.length]
  · intro strand outcome houtcome
    obtain ⟨record, hrecord, hsome⟩ := Option.bind_eq_some_iff.1 houtcome
    rcases record_add hrecord with hold | rfl
    · refine (h.outcome strand outcome ?_).mono hgrows
      rw [outcome?, hold]
      exact hsome
    · cases hsome
  · intro strand record hrecord hearer hhearer
    rcases record_add hrecord with hold | rfl
    · exact h.hearer strand record hold hearer hhearer
    · cases hhearer
  · intro strand rest hturn
    rcases List.mem_append.1 hturn with hold | hnew
    · exact (h.turn strand rest hold).grow hgrows (hown _ (hbusy _ (.inl (mem_due hold)))) Iff.rfl
    · cases List.mem_singleton.1 hnew
      refine ⟨fun hlt => absurd hlt (Nat.not_lt.2 h.inTurn.le), fun _ => ⟨a, ?_, hchild⟩⟩
      simp [Ledger.openFor, ← h.length]
  · intro hearer outcome hnews
    rcases List.mem_append.1 hnews with hold | hnew
    · obtain ⟨strand, hadmits, htell⟩ := h.news hearer outcome hold
      exact ⟨strand, hadmits.mono hgrows, htell⟩
    · cases List.mem_singleton.1 hnew
  · intro number wait hwait
    exact (h.wait number wait hwait).grow hgrows (hown _ (hbusy _ (.inr (mem_waiting hwait))))

/-- The record of a strand is replaced, and news of it may be due. -/
theorem Balanced.setRecord {own : Option Nat} {strand : Nat} {record : Record σ ρ}
    {news : List (Event σ ρ)} (h : Balanced charter ledger having loop)
    (hturn : InTurn ledger.begun own { loop with
      queue := loop.queue ++ news, records := loop.records.set strand record })
    (houtcome : ∀ outcome, record.outcome = some outcome → charter.Admits ledger strand outcome)
    (hhearers : ∀ hearer ∈ record.hearers, MayTell charter loop.waits strand hearer)
    (hnews : ∀ event ∈ news, ∃ hearer outcome, event = .news hearer outcome ∧
      charter.Admits ledger strand outcome ∧ MayTell charter loop.waits strand hearer) :
    Balanced charter ledger own { loop with
      queue := loop.queue ++ news, records := loop.records.set strand record } := by
  constructor
  · exact hturn
  · simp [h.length]
  · intro other outcome hother
    obtain ⟨found, hfound, hsome⟩ := Option.bind_eq_some_iff.1 hother
    rcases record_set hfound with hold | ⟨rfl, rfl⟩
    · apply h.outcome other outcome
      rw [outcome?, hold]
      exact hsome
    · exact houtcome outcome hsome
  · intro other found hfound hearer hhearer
    rcases record_set hfound with hold | ⟨rfl, rfl⟩
    · exact h.hearer other found hold hearer hhearer
    · exact hhearers hearer hhearer
  · intro other rest hother
    rcases List.mem_append.1 hother with hold | hnew
    · exact h.turn other rest hold
    · obtain ⟨_, _, hevent, _⟩ := hnews _ hnew
      cases hevent
  · intro hearer outcome hother
    rcases List.mem_append.1 hother with hold | hnew
    · exact h.news hearer outcome hold
    · obtain ⟨_, _, hevent, htell⟩ := hnews _ hnew
      cases hevent
      exact ⟨strand, htell⟩
  · exact h.wait

theorem Balanced.finish {own : Nat} (h : Balanced charter ledger (some own) loop) {outcome : ρ}
    (hadmits : charter.Admits ledger own outcome) :
    Balanced charter ledger none (loop.finish own outcome) := by
  apply h.setRecord (h.inTurn.finish outcome)
  · exact fun other hother => Option.some.inj hother ▸ hadmits
  · exact List.forall_mem_nil _
  · intro event hevent
    obtain ⟨hearer, hhearer, rfl⟩ := List.mem_map.1 hevent
    refine ⟨hearer, outcome, rfl, hadmits, ?_⟩
    cases hrecord : loop.records[own]? with
    | none => simp [hrecord] at hhearer
    | some record =>
        simp only [hrecord, Option.map_some, Option.getD_some] at hhearer
        exact h.hearer own record hrecord hearer hhearer

theorem Balanced.listen (h : Balanced charter ledger having loop) {strand : Nat}
    {hearer : Hearer σ ρ} (hhearer : MayTell charter loop.waits strand hearer) :
    Balanced charter ledger having (loop.listen strand hearer) := by
  have hturn := h.inTurn.listen strand hearer
  unfold Loop.listen at hturn ⊢
  split
  · exact h
  · next outcome hearers hrecord =>
      rw [hrecord] at hturn
      refine ⟨hturn, h.length, h.outcome, h.hearer, fun other rest hother => ?_,
        fun other found hother => ?_, h.wait⟩
      · rcases List.mem_append.1 hother with hold | hnew
        · exact h.turn other rest hold
        · cases List.mem_singleton.1 hnew
      · rcases List.mem_append.1 hother with hold | hnew
        · exact h.news other found hold
        · cases List.mem_singleton.1 hnew
          exact ⟨strand, h.outcome strand outcome (by simp [outcome?, hrecord]), hhearer⟩
  · next hearers hrecord =>
      rw [hrecord] at hturn
      rw [← List.append_nil loop.queue] at hturn ⊢
      refine h.setRecord hturn (by rintro _ ⟨⟩) (fun other hother => ?_) (List.forall_mem_nil _)
      rcases List.mem_append.1 hother with hold | hnew
      · exact h.hearer strand _ hrecord other hold
      · rw [List.mem_singleton.1 hnew]
        exact hhearer

theorem Balanced.listenEach {number : Nat} {places : List (Nat × Nat)}
    (h : Balanced charter ledger having loop)
    (hplaces : ∀ entry ∈ places, MayTell charter loop.waits entry.1 (.wait number entry.2)) :
    Balanced charter ledger having (listenEach number places loop) := by
  induction places generalizing loop with
  | nil => exact h
  | cons entry rest ih =>
      have hrest := fun entry hentry => hplaces entry (List.mem_cons_of_mem _ hentry)
      rw [Loop.listenEach]
      split
      · exact ih h hrest
      · apply ih (h.listen (hplaces entry List.mem_cons_self))
        rw [waits_listen]
        exact hrest

theorem Balanced.suspend {wait : Wait σ ρ} (h : Balanced charter ledger (some wait.strand) loop)
    (hwait : MayGoOn charter ledger wait) : Balanced charter ledger none (loop.suspend wait) := by
  have happend : Balanced charter ledger none
      { loop with waits := loop.waits ++ [some wait] } := by
    refine ⟨h.inTurn.await, h.length, h.outcome, ?_, h.turn, ?_, ?_⟩
    · exact fun strand record hrecord hearer hhearer =>
        (h.hearer strand record hrecord hearer hhearer).append _
    · intro hearer outcome hnews
      obtain ⟨strand, hadmits, htell⟩ := h.news hearer outcome hnews
      exact ⟨strand, hadmits, htell.append _⟩
    · intro number found hfound
      rw [List.getElem?_append] at hfound
      split at hfound
      · exact h.wait number found hfound
      · have heq := List.mem_singleton.1 (List.mem_of_getElem? hfound)
        rwa [Option.some.inj heq]
  refine happend.listenEach fun entry hentry => ⟨by simp, fun found hfound => ?_⟩
  rw [List.getElem?_concat_length, Option.some.injEq, Option.some.injEq] at hfound
  subst hfound
  simpa using List.mem_zipIdx_iff_getElem?.1 hentry

theorem Balanced.admitsEach (h : Balanced charter ledger having loop) (strands : List Nat) :
    charter.AdmitsEach ledger strands (strands.map loop.outcome?) := by
  rw [Charter.AdmitsEach, List.forall₂_map_right_iff, List.forall₂_same]
  exact fun strand _ => h.outcome strand

/-! ### What comes first in the queue -/

/-- A wait is over, and its strand may be due, or the wait knows more. -/
theorem Balanced.setWait (h : Balanced charter ledger none loop) {number : Nat} {wait : Wait σ ρ}
    (hwait : loop.waits[number]? = some (some wait)) {other : Option (Wait σ ρ)}
    {due : List (Event σ ρ)} (hturn : InTurn ledger.begun none { loop with
      queue := loop.queue ++ due, waits := loop.waits.set number other })
    (hother : ∀ changed, other = some changed →
      changed.strands = wait.strands ∧ MayGoOn charter ledger changed)
    (hdue : ∀ event ∈ due, ∃ strand rest, event = .turn strand rest ∧
      MayTurn charter ledger strand rest) :
    Balanced charter ledger none { loop with
      queue := loop.queue ++ due, waits := loop.waits.set number other } := by
  have hsame := fun changed hchanged => (hother changed hchanged).1
  refine ⟨hturn, h.length, h.outcome, ?_, ?_, ?_, ?_⟩
  · exact fun strand record hrecord hearer hhearer =>
      (h.hearer strand record hrecord hearer hhearer).set hwait hsame
  · intro strand rest hevent
    rcases List.mem_append.1 hevent with hold | hnew
    · exact h.turn strand rest hold
    · obtain ⟨_, _, heq, hmay⟩ := hdue _ hnew
      cases heq
      exact hmay
  · intro hearer outcome hevent
    rcases List.mem_append.1 hevent with hold | hnew
    · obtain ⟨strand, hadmits, htell⟩ := h.news hearer outcome hold
      exact ⟨strand, hadmits, htell.set hwait hsame⟩
    · obtain ⟨_, _, heq, _⟩ := hdue _ hnew
      cases heq
  · intro place found hfound
    rw [List.getElem?_set] at hfound
    split at hfound
    · split at hfound
      · exact (hother found (Option.some.inj hfound)).2
      · cases hfound
    · exact h.wait place found hfound

theorem Balanced.hear (h : Balanced charter ledger none loop)
    (hholds : charter.holds ledger loop.world) {hearer : Hearer σ ρ} {outcome : ρ} {strand : Nat}
    (hadmits : charter.Admits ledger strand outcome)
    (htell : MayTell charter loop.waits strand hearer) :
    Balanced charter ledger none (hear hearer outcome loop) ∧
      charter.holds ledger (Loop.hear hearer outcome loop).world := by
  have hturn := h.inTurn.hear hearer outcome
  cases hearer with
  | world change => exact ⟨h.ofWorld _, htell ledger loop.world outcome hadmits hholds⟩
  | wait number place =>
      simp only [Loop.hear] at hturn ⊢
      split
      · next wait hwait =>
          simp only [hwait] at hturn
          obtain ⟨hknown, hnext⟩ := h.wait number wait hwait
          have hset := hknown.set (htell.2 wait hwait) hadmits
          split
          · next henough =>
              refine ⟨?_, hholds⟩
              simp only [henough, if_true] at hturn
              refine h.setWait hwait hturn (by rintro _ ⟨⟩) fun event hevent => ?_
              rw [List.mem_singleton.1 hevent]
              have hlt := h.inTurn.waiting_lt _ (mem_waiting hwait)
              refine ⟨_, _, rfl, fun _ later world hlater hown hworld => ?_,
                fun hle => absurd hlt (Nat.not_lt.2 hle)⟩
              exact hnext _ henough later world hlater hown hworld (hset.mono hlater)
          · next hopen =>
              simp only [hopen, if_false, Bool.false_eq_true] at hturn
              have hmore := h.setWait hwait (by rw [List.append_nil]; exact hturn)
                (fun changed hchanged => by
                  rw [← Option.some.inj hchanged]
                  exact ⟨rfl, hset, hnext⟩)
                (List.forall_mem_nil _)
              exact ⟨by simpa using hmore, hholds⟩
      · exact ⟨h, hholds⟩

/-- News comes first. -/
theorem Balanced.tail_news (h : Balanced charter ledger none loop) {hearer : Hearer σ ρ}
    {outcome : ρ} {queue : List (Event σ ρ)} (hqueue : loop.queue = .news hearer outcome :: queue) :
    Balanced charter ledger none { loop with queue } :=
  ⟨h.inTurn.news hqueue, h.length, h.outcome, h.hearer,
    fun strand rest hevent => h.turn strand rest (hqueue ▸ List.mem_cons_of_mem _ hevent),
    fun other found hevent => h.news other found (hqueue ▸ List.mem_cons_of_mem _ hevent), h.wait⟩

/-- A strand that has begun gets its turn. -/
theorem Balanced.turnOf_begun (h : Balanced charter ledger none loop) {own : Nat}
    {rest : Strand σ ρ} {queue : List (Event σ ρ)} (hqueue : loop.queue = .turn own rest :: queue)
    (hlt : own < ledger.begun) : Balanced charter ledger (some own) { loop with queue } := by
  have htail : ∀ event ∈ queue, event ∈ loop.queue :=
    fun event hevent => hqueue ▸ List.mem_cons_of_mem _ hevent
  rcases h.inTurn.turn hqueue with ⟨_, hturn⟩ | ⟨heq, _⟩
  · exact ⟨hturn, h.length, h.outcome, h.hearer, fun strand rest hevent =>
      h.turn strand rest (htail _ hevent), fun hearer outcome hevent =>
        h.news hearer outcome (htail _ hevent), h.wait⟩
  · exact absurd hlt (heq ▸ Nat.lt_irrefl _)

/-- The next strand to begin gets its first turn. -/
theorem Balanced.turnOf_first (h : Balanced charter ledger none loop) {rest : Strand σ ρ}
    {queue : List (Event σ ρ)} (hqueue : loop.queue = .turn ledger.begun rest :: queue) :
    Balanced charter ledger.begin (some ledger.begun) { loop with queue } := by
  have htail : ∀ event ∈ queue, event ∈ loop.queue :=
    fun event hevent => hqueue ▸ List.mem_cons_of_mem _ hevent
  have hgrows := ledger.grows_begin
  rcases h.inTurn.turn hqueue with ⟨hlt, _⟩ | ⟨_, hturn⟩
  · exact absurd hlt (Nat.lt_irrefl _)
  · refine ⟨hturn, h.length, ?_, h.hearer, ?_, ?_, ?_⟩
    · exact fun strand outcome houtcome => (h.outcome strand outcome houtcome).mono hgrows
    · intro strand rest hevent
      have hne : strand ≠ ledger.begun := hturn.ne_having (.inl (mem_due hevent))
      refine (h.turn strand rest (htail _ hevent)).grow hgrows rfl ?_
      show ledger.begun + 1 ≤ strand ↔ ledger.begun ≤ strand
      omega
    · intro hearer outcome hevent
      obtain ⟨strand, hadmits, htell⟩ := h.news hearer outcome (htail _ hevent)
      exact ⟨strand, hadmits.mono hgrows, htell⟩
    · exact fun number wait hwait => (h.wait number wait hwait).grow hgrows rfl

/-- The strand that comes first in the queue gets its turn. -/
theorem Balanced.turnOf (h : Balanced charter ledger none loop)
    (hholds : charter.holds ledger loop.world) {own : Nat} {rest : Strand σ ρ}
    {queue : List (Event σ ρ)} (hqueue : loop.queue = .turn own rest :: queue) :
    ∃ later, ledger.Grows later ∧ ledger.Spares (some own) later ∧
      Balanced charter later (some own) { loop with queue } ∧
        charter.Honours rest own later loop.world := by
  have hmay := h.turn own rest (hqueue ▸ List.mem_cons_self)
  rcases h.inTurn.turn hqueue with ⟨hlt, _⟩ | ⟨rfl, _⟩
  · exact ⟨ledger, .refl ledger, .refl _ ledger, h.turnOf_begun hqueue hlt,
      hmay.1 hlt ledger loop.world (.refl ledger) rfl hholds⟩
  · obtain ⟨a, ha, hstarts⟩ := hmay.2 (Nat.le_refl _)
    exact ⟨ledger.begin, ledger.grows_begin, ledger.spares_begin, h.turnOf_first hqueue,
      hstarts ledger loop.world ha rfl hholds⟩

/-! ### Steps and runs -/

/-- A strand that keeps to the charter has its turn. -/
theorem Balanced.follow {strand : Strand σ ρ} {own : Nat}
    (h : Balanced charter ledger (some own) loop)
    (hhonours : charter.Honours strand own ledger loop.world) :
    ∃ later, ledger.Grows later ∧ ledger.Spares (some own) later ∧
      Balanced charter later none (follow own strand loop) ∧
        charter.holds later (Loop.follow own strand loop).world := by
  induction strand generalizing ledger loop with
  | done outcome =>
      obtain ⟨a, hmay, hsettles, hholds⟩ := hhonours
      exact ⟨_, hmay.grows, ledger.spares_enter own a,
        (h.enter hmay).finish ⟨a, hmay.account, hsettles⟩, hholds⟩
  | read next ih => exact ih loop.world h hhonours
  | write world next ih => exact ih (h.ofWorld world) hhonours
  | pause next ih =>
      obtain ⟨a, hmay, hholds, hnext⟩ := hhonours
      exact ⟨_, hmay.grows, ledger.spares_enter own a, (h.enter hmay).pause hnext, hholds⟩
  | spawn child next ihChild ih =>
      obtain ⟨a, hchild, hnext⟩ := hhonours
      rw [h.length] at hchild hnext
      obtain ⟨later, hlater, hspares, hbalanced⟩ := ih loop.records.length (h.add hchild) hnext
      exact ⟨later, (ledger.grows_openFor a).trans hlater,
        (ledger.spares_openFor _ a).trans hspares, hbalanced⟩
  | watch watched change next ih =>
      apply ih (h.listen (show MayTell charter loop.waits watched (.world change) from hhonours.1))
      rw [world_listen]
      exact hhonours.2
  | await strands enough next ih =>
      obtain ⟨a, hmay, hholds, _, hnext⟩ := hhonours
      have henter := h.enter hmay
      have hspares := ledger.spares_enter own a
      have hknown := henter.admitsEach strands
      rw [Loop.follow]
      split
      · next henough =>
          obtain ⟨later, hlater, hmore, hbalanced⟩ := ih _ henter
            (hnext _ henough _ loop.world (.refl _) rfl hholds hknown)
          exact ⟨later, hmay.grows.trans hlater, hspares.trans hmore, hbalanced⟩
      · refine ⟨_, hmay.grows, hspares, henter.suspend ⟨hknown, hnext⟩, ?_⟩
        rw [world_suspend]
        exact hholds

/-- The strand whose turn comes first in the queue. -/
def next? (loop : Loop σ ρ) : Option Nat := loop.queue.head?.bind Event.strand?

/-- An event happens. -/
theorem Balanced.step (h : Balanced charter ledger none loop)
    (hholds : charter.holds ledger loop.world) {next : Loop σ ρ} (hstep : loop.step = some next) :
    ∃ later, ledger.Grows later ∧ ledger.Spares loop.next? later ∧
      Balanced charter later none next ∧ charter.holds later next.world := by
  unfold Loop.step at hstep
  split at hstep
  · cases hstep
  · next own rest queue hqueue =>
      cases hstep
      have hnext : loop.next? = some own := by rw [next?, hqueue]; rfl
      obtain ⟨later, hlater, hspares, hbalanced, hhonours⟩ := h.turnOf hholds hqueue
      obtain ⟨latest, hlatest, hmore, hfollow⟩ := hbalanced.follow hhonours
      exact ⟨latest, hlater.trans hlatest, hnext ▸ hspares.trans hmore, hfollow⟩
  · next hearer outcome queue hqueue =>
      cases hstep
      obtain ⟨strand, hadmits, htell⟩ := h.news hearer outcome (hqueue ▸ List.mem_cons_self)
      exact ⟨ledger, .refl ledger, .refl _ ledger, (h.tail_news hqueue).hear hholds hadmits htell⟩

/-- Any number of events happen. -/
theorem Balanced.run (h : Balanced charter ledger none loop)
    (hholds : charter.holds ledger loop.world) (turns : Nat) :
    ∃ later, ledger.Grows later ∧ Balanced charter later none (run turns loop) ∧
      charter.holds later (Loop.run turns loop).world := by
  induction turns generalizing ledger loop with
  | zero => exact ⟨ledger, .refl ledger, h, hholds⟩
  | succ turns ih =>
      rw [Loop.run]
      cases hstep : loop.step with
      | none => exact ⟨ledger, .refl ledger, h, hholds⟩
      | some next =>
          obtain ⟨middle, hmiddle, _, hbalanced, hworld⟩ := h.step hholds hstep
          obtain ⟨later, hlater, hrest⟩ := ih hbalanced hworld
          exact ⟨later, hmiddle.trans hlater, hrest⟩

/-- A single strand that keeps to the charter. -/
theorem balanced_start {world : σ} {strand : Strand σ ρ} {a : Λ}
    (hstarts : charter.Starts (charter.Honours strand 0) 0 a) :
    Balanced charter ⟨[a], 0⟩ none (start world strand) where
  inTurn := inTurn_start world strand
  length := rfl
  outcome number outcome houtcome := by
    cases number <;> simp [outcome?, start] at houtcome
  hearer number record hrecord hearer hhearer := by
    cases number <;> simp [start] at hrecord
    subst hrecord
    cases hhearer
  turn number rest hevent := by
    cases List.mem_singleton.1 hevent
    exact ⟨fun hlt => absurd hlt (Nat.not_lt_zero _), fun _ => ⟨a, rfl, hstarts⟩⟩
  news hearer outcome hevent := by
    cases List.mem_singleton.1 hevent
  wait number wait hwait := by
    simp [start] at hwait

end Rulebook.Strand.Loop
