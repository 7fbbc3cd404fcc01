import Rulebook.Proofs.Strand.Pledge

/-!
Loops in which every strand keeps its pledge.

`Kept` says of a loop that every outcome so far is one that was pledged, and that whatever is due,
waits or is to be heard of goes on in that way.  Each thing that a loop does to itself preserves
it.
-/

namespace Rulebook.Strand

variable {σ ρ : Type} {inv : Invariant σ ρ} {pledges later : Pledges ρ}

namespace Loop

/-- There was a wait of this number; if it is not over, its strands are as is said. -/
def OfWait (waits : List (Option (Wait σ ρ))) (number : Nat) (holds : List Nat → Prop) : Prop :=
  number < waits.length ∧
    ∀ wait : Wait σ ρ, waits[number]? = some (some wait) → holds wait.strands

/-- One more wait is no concern of the others. -/
theorem OfWait.append {waits : List (Option (Wait σ ρ))} {number : Nat} {holds : List Nat → Prop}
    (h : OfWait waits number holds) (more : List (Option (Wait σ ρ))) :
    OfWait (waits ++ more) number holds := by
  refine ⟨by rw [List.length_append]; exact Nat.lt_add_right _ h.1, fun wait hwait => ?_⟩
  rw [List.getElem?_append_left h.1] at hwait
  exact h.2 wait hwait

/-- A wait is over, or it knows more. -/
theorem OfWait.set {waits : List (Option (Wait σ ρ))} {heard : Nat} {holds : List Nat → Prop}
    (h : OfWait waits heard holds) {number : Nat} {wait : Wait σ ρ}
    (hwait : waits[number]? = some (some wait)) {other : Option (Wait σ ρ)}
    (hother : ∀ changed, other = some changed → changed.strands = wait.strands) :
    OfWait (waits.set number other) heard holds := by
  refine ⟨by rw [List.length_set]; exact h.1, fun found hfound => ?_⟩
  by_cases hsame : number = heard
  · subst hsame
    rw [List.getElem?_set_self h.1, Option.some.injEq] at hfound
    rw [hother found hfound]
    exact h.2 wait hwait
  · rw [List.getElem?_set_ne hsame] at hfound
    exact h.2 found hfound

/-- A hearer may hear of an outcome: the world keeps the invariant, and a wait hears only of an
outcome that was pledged by the strand in that place. -/
def MayHear (inv : Invariant σ ρ) (pledges : Pledges ρ) (waits : List (Option (Wait σ ρ)))
    (outcome : ρ) : Hearer σ ρ → Prop
  | .world change => Lasting inv pledges fun later world => inv later (change outcome world)
  | .wait number place =>
      number < waits.length ∧ ∀ wait : Wait σ ρ, waits[number]? = some (some wait) →
        ∃ strand, wait.strands[place]? = some strand ∧ Admits pledges strand outcome

/-- An event may happen. -/
def MayHappen (inv : Invariant σ ρ) (pledges : Pledges ρ) (waits : List (Option (Wait σ ρ))) :
    Event σ ρ → Prop
  | .turn strand rest =>
      ∃ pledge, pledges[strand]? = some pledge ∧ Lasting inv pledges (Keeps inv rest pledge)
  | .news hearer outcome => MayHear inv pledges waits outcome hearer

/-- A wait may go on once enough is known. -/
def MayResume (inv : Invariant σ ρ) (pledges : Pledges ρ) (wait : Wait σ ρ) : Prop :=
  ∃ pledge, pledges[wait.strand]? = some pledge ∧ AdmitsEach pledges wait.strands wait.known ∧
    ∀ known, wait.enough known = true → Lasting inv pledges fun later world =>
      AdmitsEach later wait.strands known → Keeps inv (wait.next known) pledge later world

/-- Every strand has a pledge and keeps it, the one apart that has its turn. -/
structure Kept (inv : Invariant σ ρ) (pledges : Pledges ρ) (loop : Loop σ ρ) : Prop where
  length : pledges.length = loop.records.length
  outcome : ∀ strand outcome, loop.outcome? strand = some outcome → Admits pledges strand outcome
  hearer : ∀ (strand : Nat) (record : Record σ ρ), loop.records[strand]? = some record →
    ∀ hearer ∈ record.hearers, ∀ outcome, Admits pledges strand outcome →
      MayHear inv pledges loop.waits outcome hearer
  event : ∀ event ∈ loop.queue, MayHappen inv pledges loop.waits event
  wait : ∀ (number : Nat) (wait : Wait σ ρ), loop.waits[number]? = some (some wait) →
    MayResume inv pledges wait

theorem MayHear.mono {waits : List (Option (Wait σ ρ))} {outcome : ρ} {hearer : Hearer σ ρ}
    (h : MayHear inv pledges waits outcome hearer) (hlater : pledges <+: later) :
    MayHear inv later waits outcome hearer := by
  cases hearer with
  | world change => exact Lasting.mono h hlater
  | wait number place =>
      refine ⟨h.1, fun wait hwait => ?_⟩
      obtain ⟨strand, hstrand, houtcome⟩ := h.2 wait hwait
      exact ⟨strand, hstrand, houtcome.mono hlater⟩

theorem MayHappen.mono {waits : List (Option (Wait σ ρ))} {event : Event σ ρ}
    (h : MayHappen inv pledges waits event) (hlater : pledges <+: later) :
    MayHappen inv later waits event := by
  cases event with
  | turn strand rest =>
      obtain ⟨pledge, hpledge, hkeeps⟩ := h
      exact ⟨pledge, getElem?_mono hlater hpledge, hkeeps.mono hlater⟩
  | news hearer outcome => exact MayHear.mono h hlater

theorem MayResume.mono {wait : Wait σ ρ} (h : MayResume inv pledges wait)
    (hlater : pledges <+: later) : MayResume inv later wait := by
  obtain ⟨pledge, hpledge, hknown, hkeeps⟩ := h
  exact ⟨pledge, getElem?_mono hlater hpledge, hknown.mono hlater,
    fun known henough => (hkeeps known henough).mono hlater⟩

/-- One more wait is no concern of those who hear of something now. -/
theorem MayHear.append {waits : List (Option (Wait σ ρ))} {outcome : ρ} {hearer : Hearer σ ρ}
    (h : MayHear inv pledges waits outcome hearer) (more : List (Option (Wait σ ρ))) :
    MayHear inv pledges (waits ++ more) outcome hearer := by
  cases hearer with
  | world change => exact h
  | wait number place =>
      have htold : OfWait waits number fun strands =>
        ∃ strand, strands[place]? = some strand ∧ Admits pledges strand outcome := h
      exact htold.append more

theorem MayHappen.append {waits : List (Option (Wait σ ρ))} {event : Event σ ρ}
    (h : MayHappen inv pledges waits event) (more : List (Option (Wait σ ρ))) :
    MayHappen inv pledges (waits ++ more) event := by
  cases event with
  | turn strand rest => exact h
  | news hearer outcome => exact MayHear.append h more

/-- A wait that is over, or that knows more, lets the others hear what they heard. -/
theorem MayHear.set {waits : List (Option (Wait σ ρ))} {outcome : ρ} {hearer : Hearer σ ρ}
    (h : MayHear inv pledges waits outcome hearer) {number : Nat} {wait : Wait σ ρ}
    (hwait : waits[number]? = some (some wait)) {other : Option (Wait σ ρ)}
    (hother : ∀ changed, other = some changed → changed.strands = wait.strands) :
    MayHear inv pledges (waits.set number other) outcome hearer := by
  cases hearer with
  | world change => exact h
  | wait heard place =>
      have htold : OfWait waits heard fun strands =>
        ∃ strand, strands[place]? = some strand ∧ Admits pledges strand outcome := h
      exact htold.set hwait hother

theorem MayHappen.set {waits : List (Option (Wait σ ρ))} {event : Event σ ρ}
    (h : MayHappen inv pledges waits event) {number : Nat} {wait : Wait σ ρ}
    (hwait : waits[number]? = some (some wait)) {other : Option (Wait σ ρ)}
    (hother : ∀ changed, other = some changed → changed.strands = wait.strands) :
    MayHappen inv pledges (waits.set number other) event := by
  cases event with
  | turn strand rest => exact h
  | news hearer outcome => exact MayHear.set h hwait hother

variable {loop : Loop σ ρ}

theorem Kept.length_known (h : Kept inv pledges loop) (number : Nat) (wait : Wait σ ρ)
    (hwait : loop.waits[number]? = some (some wait)) : wait.known.length = wait.strands.length := by
  obtain ⟨_, _, hknown, _⟩ := h.wait number wait hwait
  exact hknown.length_eq.symm

theorem Kept.ofWorld (h : Kept inv pledges loop) (world : σ) :
    Kept inv pledges { loop with world } :=
  ⟨h.length, h.outcome, h.hearer, h.event, h.wait⟩

theorem Kept.enqueue (h : Kept inv pledges loop) {events : List (Event σ ρ)}
    (hevents : ∀ event ∈ events, MayHappen inv pledges loop.waits event) :
    Kept inv pledges (loop.enqueue events) where
  length := h.length
  outcome := h.outcome
  hearer := h.hearer
  event event hevent := (List.mem_append.1 hevent).elim (h.event event) (hevents event)
  wait := h.wait

theorem Kept.tail (h : Kept inv pledges loop) {event : Event σ ρ} {queue : List (Event σ ρ)}
    (hqueue : loop.queue = event :: queue) : Kept inv pledges { loop with queue } where
  length := h.length
  outcome := h.outcome
  hearer := h.hearer
  event event hevent := h.event event (hqueue ▸ List.mem_cons_of_mem _ hevent)
  wait := h.wait

theorem record_add {child : Strand σ ρ} {strand : Nat} {record : Record σ ρ}
    (h : (loop.add child).records[strand]? = some record) :
    loop.records[strand]? = some record ∨ record = ⟨none, []⟩ := by
  simp only [Loop.add, List.getElem?_append] at h
  split at h
  · exact .inl h
  · exact .inr (List.mem_singleton.1 (List.mem_of_getElem? h))

theorem record_set {records : List (Record σ ρ)} {strand other : Nat} {record found : Record σ ρ}
    (h : (records.set strand record)[other]? = some found) :
    records[other]? = some found ∨ strand = other ∧ found = record := by
  rw [List.getElem?_set] at h
  split at h
  · next hsame =>
      split at h
      · exact .inr ⟨hsame, (Option.some.inj h).symm⟩
      · cases h
  · exact .inl h

/-- A strand is started with a pledge that it keeps. -/
theorem Kept.add (h : Kept inv pledges loop) {child : Strand σ ρ} {pledge : Pledge ρ}
    (hchild : Lasting inv (pledges ++ [pledge]) (Keeps inv child pledge)) :
    Kept inv (pledges ++ [pledge]) (loop.add child) := by
  have hmore : pledges <+: pledges ++ [pledge] := List.prefix_append _ _
  constructor
  · simp [Loop.add, h.length]
  · intro strand outcome houtcome
    obtain ⟨record, hrecord, hsome⟩ := Option.bind_eq_some_iff.1 houtcome
    rcases record_add hrecord with hold | rfl
    · refine (h.outcome strand outcome ?_).mono hmore
      rw [outcome?, hold]
      exact hsome
    · cases hsome
  · intro strand record hrecord hearer hhearer outcome hadmits
    rcases record_add hrecord with hold | rfl
    · have hlt : strand < pledges.length := h.length ▸ (List.getElem?_eq_some_iff.1 hold).1
      exact (h.hearer strand record hold hearer hhearer outcome
        (hadmits.of_later hmore hlt)).mono hmore
    · cases hhearer
  · intro event hevent
    rcases List.mem_append.1 hevent with hold | hnew
    · exact (h.event event hold).mono hmore
    · rw [List.mem_singleton.1 hnew]
      exact ⟨pledge, by simp [← h.length], hchild⟩
  · exact fun number wait hwait => (h.wait number wait hwait).mono hmore

/-- The record of one strand is replaced by one with a pledged outcome, if any, and with hearers
that may hear of the outcome. -/
theorem Kept.setRecord (h : Kept inv pledges loop) {strand : Nat} {record : Record σ ρ}
    (houtcome : ∀ outcome, record.outcome = some outcome → Admits pledges strand outcome)
    (hhearers : ∀ hearer ∈ record.hearers, ∀ outcome, Admits pledges strand outcome →
      MayHear inv pledges loop.waits outcome hearer) :
    Kept inv pledges { loop with records := loop.records.set strand record } := by
  constructor
  · simp [h.length]
  · intro other outcome hother
    obtain ⟨found, hfound, hsome⟩ := Option.bind_eq_some_iff.1 hother
    rcases record_set hfound with hold | ⟨rfl, rfl⟩
    · apply h.outcome other outcome
      rw [outcome?, hold]
      exact hsome
    · exact houtcome outcome hsome
  · intro other found hfound hearer hhearer outcome hadmits
    rcases record_set hfound with hold | ⟨rfl, rfl⟩
    · exact h.hearer other found hold hearer hhearer outcome hadmits
    · exact hhearers hearer hhearer outcome hadmits
  · exact h.event
  · exact h.wait

theorem Kept.finish (h : Kept inv pledges loop) {strand : Nat} {outcome : ρ}
    (hadmits : Admits pledges strand outcome) :
    Kept inv pledges (loop.finish strand outcome) := by
  have hset : Kept inv pledges
      { loop with records := loop.records.set strand ⟨some outcome, []⟩ } :=
    h.setRecord (fun other hother => Option.some.inj hother ▸ hadmits) nofun
  apply hset.enqueue
  intro event hevent
  obtain ⟨hearer, hhearer, rfl⟩ := List.mem_map.1 hevent
  cases hrecord : loop.records[strand]? with
  | none => simp [hrecord] at hhearer
  | some record =>
      simp only [hrecord, Option.map_some, Option.getD_some] at hhearer
      exact h.hearer strand record hrecord hearer hhearer outcome hadmits

theorem Kept.listen (h : Kept inv pledges loop) {strand : Nat} {hearer : Hearer σ ρ}
    (hhearer : ∀ outcome, Admits pledges strand outcome →
      MayHear inv pledges loop.waits outcome hearer) :
    Kept inv pledges (loop.listen strand hearer) := by
  unfold Loop.listen
  split
  · exact h
  · next outcome hearers hrecord =>
      apply h.enqueue
      intro event hevent
      rw [List.mem_singleton.1 hevent]
      exact hhearer outcome (h.outcome strand outcome (by simp [outcome?, hrecord]))
  · next hearers hrecord =>
      refine h.setRecord nofun fun other hother outcome hadmits => ?_
      rcases List.mem_append.1 hother with hold | hnew
      · exact h.hearer strand _ hrecord other hold outcome hadmits
      · rw [List.mem_singleton.1 hnew]
        exact hhearer outcome hadmits

theorem world_listen (loop : Loop σ ρ) (strand : Nat) (hearer : Hearer σ ρ) :
    (loop.listen strand hearer).world = loop.world := by
  unfold Loop.listen
  split <;> rfl

theorem world_listenEach (number : Nat) (places : List (Nat × Nat)) (loop : Loop σ ρ) :
    (listenEach number places loop).world = loop.world := by
  induction places generalizing loop with
  | nil => rfl
  | cons entry rest ih =>
      rw [listenEach, ih]
      split
      · rfl
      · exact world_listen loop _ _

theorem world_suspend (loop : Loop σ ρ) (wait : Wait σ ρ) :
    (loop.suspend wait).world = loop.world :=
  world_listenEach _ _ _

theorem waits_listen (loop : Loop σ ρ) (strand : Nat) (hearer : Hearer σ ρ) :
    (loop.listen strand hearer).waits = loop.waits := by
  unfold Loop.listen
  split <;> rfl

theorem Kept.listenEach {number : Nat} {places : List (Nat × Nat)} (h : Kept inv pledges loop)
    (hplaces : ∀ entry ∈ places, ∀ outcome, Admits pledges entry.1 outcome →
      MayHear inv pledges loop.waits outcome (.wait number entry.2)) :
    Kept inv pledges (listenEach number places loop) := by
  induction places generalizing loop with
  | nil => exact h
  | cons entry rest ih =>
      obtain ⟨strand, place⟩ := entry
      have hrest := fun entry hentry => hplaces entry (List.mem_cons_of_mem _ hentry)
      rw [Loop.listenEach]
      split
      · exact ih h hrest
      · apply ih (h.listen (hplaces (strand, place) List.mem_cons_self))
        rw [waits_listen]
        exact hrest

theorem Kept.suspend (h : Kept inv pledges loop) {wait : Wait σ ρ}
    (hwait : MayResume inv pledges wait) : Kept inv pledges (loop.suspend wait) := by
  have happend : Kept inv pledges { loop with waits := loop.waits ++ [some wait] } := by
    refine ⟨h.length, h.outcome, ?_, fun event hevent => (h.event event hevent).append _, ?_⟩
    · exact fun strand record hrecord hearer hhearer outcome hadmits =>
        (h.hearer strand record hrecord hearer hhearer outcome hadmits).append _
    · intro number found hfound
      rw [List.getElem?_append] at hfound
      split at hfound
      · exact h.wait number found hfound
      · have heq := List.mem_singleton.1 (List.mem_of_getElem? hfound)
        rwa [Option.some.inj heq]
  refine happend.listenEach fun entry hentry outcome hadmits => ⟨by simp, fun found hfound => ?_⟩
  rw [List.getElem?_concat_length, Option.some.injEq, Option.some.injEq] at hfound
  subst hfound
  exact ⟨entry.1, by simpa using List.mem_zipIdx_iff_getElem?.1 hentry, hadmits⟩

/-- A wait is over, or it knows more. -/
theorem Kept.setWait (h : Kept inv pledges loop) {number : Nat} {wait : Wait σ ρ}
    (hwait : loop.waits[number]? = some (some wait)) {other : Option (Wait σ ρ)}
    (hother : ∀ changed, other = some changed →
      changed.strands = wait.strands ∧ MayResume inv pledges changed) :
    Kept inv pledges { loop with waits := loop.waits.set number other } := by
  have hsame := fun changed hchanged => (hother changed hchanged).1
  refine ⟨h.length, h.outcome, ?_, fun event hevent => (h.event event hevent).set hwait hsame, ?_⟩
  · exact fun strand record hrecord hearer hhearer outcome hadmits =>
      (h.hearer strand record hrecord hearer hhearer outcome hadmits).set hwait hsame
  · intro place found hfound
    rw [List.getElem?_set] at hfound
    split at hfound
    · split at hfound
      · exact (hother found (Option.some.inj hfound)).2
      · cases hfound
    · exact h.wait place found hfound

theorem Kept.admitsEach (h : Kept inv pledges loop) (strands : List Nat) :
    AdmitsEach pledges strands (strands.map loop.outcome?) := by
  rw [AdmitsEach, List.forall₂_map_right_iff, List.forall₂_same]
  exact fun strand _ => h.outcome strand

theorem Kept.hear (h : Kept inv pledges loop) (hinv : inv pledges loop.world)
    {hearer : Hearer σ ρ} {outcome : ρ} (hhear : MayHear inv pledges loop.waits outcome hearer) :
    Kept inv pledges (hear hearer outcome loop) ∧
      inv pledges (Loop.hear hearer outcome loop).world := by
  cases hearer with
  | world change => exact ⟨h.ofWorld _, hhear pledges loop.world List.prefix_rfl hinv⟩
  | wait number place =>
      simp only [Loop.hear]
      split
      · next wait hwait =>
          obtain ⟨strand, hstrand, hadmits⟩ := hhear.2 wait hwait
          obtain ⟨pledge, hpledge, hknown, hnext⟩ := h.wait number wait hwait
          have hset := hknown.set hstrand hadmits
          split
          · next henough =>
              refine ⟨?_, hinv⟩
              have hover : Kept inv pledges { loop with waits := loop.waits.set number none } :=
                h.setWait hwait (by simp)
              apply hover.enqueue
              intro event hevent
              rw [List.mem_singleton.1 hevent]
              exact ⟨pledge, hpledge, fun later world hlater hworld =>
                hnext _ henough later world hlater hworld (hset.mono hlater)⟩
          · refine ⟨h.setWait hwait fun changed hchanged => ?_, hinv⟩
            rw [← Option.some.inj hchanged]
            exact ⟨rfl, pledge, hpledge, hset, hnext⟩
      · exact ⟨h, hinv⟩

/-- A single strand that keeps its pledge. -/
theorem kept_start {world : σ} {strand : Strand σ ρ} {pledge : Pledge ρ}
    (hkeeps : Lasting inv [pledge] (Keeps inv strand pledge)) :
    Kept inv [pledge] (start world strand) where
  length := rfl
  outcome number outcome houtcome := by
    cases number <;> simp [outcome?, start] at houtcome
  hearer number record hrecord hearer hhearer := by
    cases number <;> simp [start] at hrecord
    subst hrecord
    cases hhearer
  event event hevent := by
    rw [List.mem_singleton.1 hevent]
    exact ⟨pledge, rfl, hkeeps⟩
  wait number wait hwait := by
    simp [start] at hwait

end Loop

end Rulebook.Strand
