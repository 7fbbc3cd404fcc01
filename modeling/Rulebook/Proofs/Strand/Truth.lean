import Rulebook.Proofs.Strand.Retention

/-!
What strands know of each other.

Whoever waits for a strand hears of the outcome to which that strand came, and of no other
(`Truthful`).  So when a strand goes on that waited, what it knows are the outcomes of the strands for
which it waited; and it had no turn since it began to wait (`Expects.exists_goesOn`).
-/

namespace Rulebook.Strand.Loop

variable {σ ρ : Type} {loop other next : Loop σ ρ} {wait : Wait σ ρ} {begun : Nat}

/-- The outcomes that are known of strands are those to which the strands came. -/
def Knows (loop : Loop σ ρ) (strands : List Nat) (known : List (Option ρ)) : Prop :=
  List.Forall₂ (fun strand outcome? => ∀ outcome, outcome? = some outcome →
    loop.outcome? strand = some outcome) strands known

/-- This is the place of a strand in a wait, if the wait is not over. -/
abbrev IsPlace (waits : List (Option (Wait σ ρ))) (strand number place : Nat) : Prop :=
  OfWait waits number fun strands => strands[place]? = some strand

/-- What is told, and what is known, are the outcomes to which strands came. -/
structure Truthful (loop : Loop σ ρ) : Prop where
  hearer : ∀ (strand : Nat) (record : Record σ ρ), loop.records[strand]? = some record →
    ∀ number place, .wait number place ∈ record.hearers → IsPlace loop.waits strand number place
  news : ∀ number place outcome, .news (.wait number place) outcome ∈ loop.queue →
    ∃ strand, IsPlace loop.waits strand number place ∧ loop.outcome? strand = some outcome
  known : ∀ (number : Nat) (wait : Wait σ ρ), loop.waits[number]? = some (some wait) →
    loop.Knows wait.strands wait.known

theorem truthful_start (world : σ) (strand : Strand σ ρ) : (start world strand).Truthful where
  hearer other record hrecord number place hhearer := by
    obtain rfl := List.mem_singleton.1 (List.mem_of_getElem? hrecord)
    cases hhearer
  news number place outcome hnews := by cases List.mem_singleton.1 hnews
  known number wait hwait := by cases List.mem_of_getElem? hwait

/-! ### What becomes known stays so -/

/-- The outcomes that are there stay as they are. -/
def Retains (loop other : Loop σ ρ) : Prop :=
  ∀ strand outcome, loop.outcome? strand = some outcome → other.outcome? strand = some outcome

theorem Knows.mono {strands : List Nat} {known : List (Option ρ)} (h : loop.Knows strands known)
    (hother : loop.Retains other) : other.Knows strands known :=
  List.Forall₂.imp (fun _ _ hknown outcome heq => hother _ _ (hknown outcome heq)) h

theorem knows_map (loop : Loop σ ρ) (strands : List Nat) :
    loop.Knows strands (strands.map loop.outcome?) := by
  rw [Knows, List.forall₂_map_right_iff, List.forall₂_same]
  exact fun _ _ _ houtcome => houtcome

theorem Knows.set {strands : List Nat} {known : List (Option ρ)} (h : loop.Knows strands known)
    {place strand : Nat} {outcome : ρ} (hstrand : strands[place]? = some strand)
    (houtcome : loop.outcome? strand = some outcome) :
    loop.Knows strands (known.set place (some outcome)) :=
  forall₂_known_set h hstrand houtcome

/-! ### One strand has its turn -/

namespace Truthful

/-- More strands may be due, and nothing else has happened. -/
theorem enqueue (h : loop.Truthful) {events : List (Event σ ρ)}
    (hevents : ∀ number place outcome, .news (.wait number place) outcome ∈ events →
      ∃ strand, IsPlace loop.waits strand number place ∧ loop.outcome? strand = some outcome) :
    (loop.enqueue events).Truthful where
  hearer := h.hearer
  news number place outcome hnews :=
    (List.mem_append.1 hnews).elim (h.news number place outcome) (hevents number place outcome)
  known := h.known

theorem finish (h : loop.Truthful) {strand : Nat} (hnone : loop.outcome? strand = none)
    (outcome : ρ) : (loop.finish strand outcome).Truthful := by
  have hretains : loop.Retains (loop.finish strand outcome) := by
    intro found known hknown
    have hne : strand ≠ found := by
      rintro rfl
      cases hnone.symm.trans hknown
    rwa [outcome?, Loop.finish, List.getElem?_set_ne hne]
  refine ⟨fun found record hrecord number place hhearer => ?_,
    fun number place told hnews => ?_, fun number wait hwait => (h.known number wait hwait).mono hretains⟩
  · rcases List.mem_or_eq_of_mem_set (List.mem_of_getElem? hrecord) with _ | rfl
    · by_cases hsame : strand = found
      · subst hsame
        rw [Loop.finish, List.getElem?_set_self (by
          simpa [Loop.finish] using (List.getElem?_eq_some_iff.1 hrecord).1)] at hrecord
        obtain rfl := Option.some.inj hrecord
        cases hhearer
      · rw [Loop.finish, List.getElem?_set_ne hsame] at hrecord
        exact h.hearer found record hrecord number place hhearer
    · cases hhearer
  · rcases List.mem_append.1 hnews with hold | hnew
    · obtain ⟨found, hplace, hfound⟩ := h.news number place told hold
      exact ⟨found, hplace, hretains found told hfound⟩
    · obtain ⟨hearer, hhearer, heq⟩ := List.mem_map.1 hnew
      cases heq
      cases hrecord : loop.records[strand]? with
      | none =>
          rw [hrecord] at hhearer
          cases hhearer
      | some record =>
          rw [hrecord] at hhearer
          refine ⟨strand, h.hearer strand record hrecord number place hhearer, ?_⟩
          rw [outcome?, Loop.finish, List.getElem?_set_self (List.getElem?_eq_some_iff.1 hrecord).1]
          rfl

theorem retains_add (loop : Loop σ ρ) (child : Strand σ ρ) : loop.Retains (loop.add child) := by
  intro strand outcome houtcome
  obtain ⟨record, hrecord, _⟩ := Option.bind_eq_some_iff.1 houtcome
  rwa [outcome?, Loop.add, List.getElem?_append_left (List.getElem?_eq_some_iff.1 hrecord).1]

theorem add (h : loop.Truthful) (child : Strand σ ρ) : (loop.add child).Truthful where
  hearer strand record hrecord number place hhearer := by
    rw [Loop.add, List.getElem?_append] at hrecord
    split at hrecord
    · exact h.hearer strand record hrecord number place hhearer
    · obtain rfl := List.mem_singleton.1 (List.mem_of_getElem? hrecord)
      cases hhearer
  news number place outcome hnews := by
    rcases List.mem_append.1 hnews with hold | hnew
    · obtain ⟨strand, hplace, hstrand⟩ := h.news number place outcome hold
      exact ⟨strand, hplace, retains_add loop child strand outcome hstrand⟩
    · cases List.mem_singleton.1 hnew
  known number wait hwait := (h.known number wait hwait).mono (retains_add loop child)

theorem listen (h : loop.Truthful) {strand : Nat} {hearer : Hearer σ ρ}
    (hhearer : ∀ number place, hearer = .wait number place →
      IsPlace loop.waits strand number place) : (loop.listen strand hearer).Truthful := by
  unfold Loop.listen
  split
  · exact h
  · next outcome hearers hrecord =>
      refine h.enqueue fun number place told hnews => ?_
      cases List.mem_singleton.1 hnews
      exact ⟨strand, hhearer number place rfl, by rw [outcome?, hrecord]; rfl⟩
  · next hearers hrecord =>
      have hlt := (List.getElem?_eq_some_iff.1 hrecord).1
      have hretains : loop.Retains { loop with
          records := loop.records.set strand ⟨none, hearers ++ [hearer]⟩ } := by
        intro found outcome houtcome
        have hne : strand ≠ found := by
          rintro rfl
          rw [outcome?, hrecord] at houtcome
          cases houtcome
        rwa [outcome?, List.getElem?_set_ne hne]
      refine ⟨fun found record hfound number place hmem => ?_, fun number place told hnews => ?_,
        fun number wait hwait => (h.known number wait hwait).mono hretains⟩
      · by_cases hsame : strand = found
        · subst hsame
          rw [List.getElem?_set_self hlt, Option.some.injEq] at hfound
          subst hfound
          rcases List.mem_append.1 hmem with hold | hnew
          · exact h.hearer strand _ hrecord number place hold
          · exact hhearer number place (List.mem_singleton.1 hnew).symm
        · rw [List.getElem?_set_ne hsame] at hfound
          exact h.hearer found record hfound number place hmem
      · obtain ⟨found, hplace, hfound⟩ := h.news number place told hnews
        exact ⟨found, hplace, hretains found told hfound⟩

theorem listenEach (h : loop.Truthful) {number : Nat} {places : List (Nat × Nat)}
    (hplaces : ∀ entry ∈ places, IsPlace loop.waits entry.1 number entry.2) :
    (listenEach number places loop).Truthful := by
  induction places generalizing loop with
  | nil => exact h
  | cons entry rest ih =>
      obtain ⟨hfirst, hrest⟩ := List.forall_mem_cons.1 hplaces
      rw [Loop.listenEach]
      split
      · exact ih h hrest
      · refine ih (h.listen fun number place heq => ?_) ?_
        · cases heq
          exact hfirst
        · rw [waits_listen]
          exact hrest

theorem suspend (h : loop.Truthful) (hknown : loop.Knows wait.strands wait.known) :
    (loop.suspend wait).Truthful := by
  have happend : ({ loop with waits := loop.waits ++ [some wait] } : Loop σ ρ).Truthful := by
    refine ⟨fun strand record hrecord number place hhearer =>
      (h.hearer strand record hrecord number place hhearer).append _,
      fun number place outcome hnews => ?_, fun number found hfound => ?_⟩
    · obtain ⟨strand, hplace, hstrand⟩ := h.news number place outcome hnews
      exact ⟨strand, hplace.append _, hstrand⟩
    · rw [List.getElem?_append] at hfound
      split at hfound
      · exact h.known number found hfound
      · have heq := List.mem_singleton.1 (List.mem_of_getElem? hfound)
        rw [Option.some.inj heq]
        exact hknown
  refine happend.listenEach fun entry hentry => ⟨by simp, fun found hfound => ?_⟩
  rw [List.getElem?_concat_length, Option.some.injEq, Option.some.injEq] at hfound
  subst hfound
  simpa using List.mem_zipIdx_iff_getElem?.1 hentry

/-- A strand has its turn. -/
theorem follow (h : loop.Truthful) {number : Nat} (hturn : InTurn begun (some number) loop)
    (strand : Strand σ ρ) : (Loop.follow number strand loop).Truthful := by
  induction strand generalizing loop with
  | done outcome => exact h.finish (hturn.unfinished number (by simp [busy])).2 outcome
  | read next ih => exact ih _ h hturn
  | write world next ih =>
      exact ih ⟨h.hearer, h.news, h.known⟩ (hturn.congr rfl rfl rfl fun _ => rfl)
  | pause next =>
      exact h.enqueue fun number place outcome hnews => by cases List.mem_singleton.1 hnews
  | spawn child next _ ih => exact ih _ (h.add child) (hturn.add child)
  | watch watched change next ih =>
      exact ih (h.listen fun number place heq => by cases heq) (hturn.listen watched _)
  | await strands enough next ih =>
      rw [Loop.follow]
      split
      · exact ih _ h hturn
      · exact h.suspend (knows_map loop strands)

/-! ### What comes first in the queue -/

theorem tail (h : loop.Truthful) {event : Event σ ρ} {queue : List (Event σ ρ)}
    (hqueue : loop.queue = event :: queue) : ({ loop with queue } : Loop σ ρ).Truthful :=
  ⟨h.hearer, fun number place outcome hnews =>
    h.news number place outcome (hqueue ▸ List.mem_cons_of_mem _ hnews), h.known⟩

/-- A wait is over, and its strand may be due, or the wait knows more. -/
theorem setWait (h : loop.Truthful) {number : Nat} (hwait : loop.waits[number]? = some (some wait))
    {changed? : Option (Wait σ ρ)} (hchanged : ∀ changed, changed? = some changed →
      changed.strands = wait.strands ∧ loop.Knows changed.strands changed.known)
    {due : List (Event σ ρ)} (hdue : ∀ event ∈ due, ∃ strand rest, event = .turn strand rest) :
    ({ loop with queue := loop.queue ++ due, waits := loop.waits.set number changed? } :
      Loop σ ρ).Truthful := by
  have hsame := fun changed heq => (hchanged changed heq).1
  refine ⟨fun strand record hrecord heard place hhearer =>
    (h.hearer strand record hrecord heard place hhearer).set hwait hsame,
    fun heard place outcome hnews => ?_, fun place found hfound => ?_⟩
  · rcases List.mem_append.1 hnews with hold | hnew
    · obtain ⟨strand, hplace, hstrand⟩ := h.news heard place outcome hold
      exact ⟨strand, hplace.set hwait hsame, hstrand⟩
    · obtain ⟨_, _, heq⟩ := hdue _ hnew
      cases heq
  · rw [List.getElem?_set] at hfound
    split at hfound
    · split at hfound
      · exact (hchanged found (Option.some.inj hfound)).2
      · cases hfound
    · exact h.known place found hfound

theorem hear (h : loop.Truthful) {hearer : Hearer σ ρ} {outcome : ρ}
    (htold : ∀ number place, hearer = .wait number place → ∃ strand,
      IsPlace loop.waits strand number place ∧ loop.outcome? strand = some outcome) :
    (Loop.hear hearer outcome loop).Truthful := by
  cases hearer with
  | world change => exact ⟨h.hearer, h.news, h.known⟩
  | wait number place =>
      simp only [Loop.hear]
      split
      · next found hfound =>
          obtain ⟨strand, hplace, hstrand⟩ := htold number place rfl
          have hset := (h.known number found hfound).set (hplace.2 found hfound) hstrand
          split
          · refine h.setWait hfound (fun changed heq => by cases heq) fun event hevent => ?_
            exact ⟨_, _, List.mem_singleton.1 hevent⟩
          · rw [← List.append_nil loop.queue]
            refine h.setWait hfound (fun changed heq => ?_) (List.forall_mem_nil _)
            rw [← Option.some.inj heq]
            exact ⟨rfl, hset⟩
      · exact h

/-- Whatever is due happens. -/
theorem step (h : loop.Truthful) (hturn : InTurn begun none loop) (hstep : loop.step = some next) :
    next.Truthful := by
  unfold Loop.step at hstep
  split at hstep
  · cases hstep
  · next number rest queue hqueue =>
      cases hstep
      obtain ⟨_, hhaving⟩ := hturn.exists_turn hqueue
      exact (h.tail hqueue).follow hhaving rest
  · next hearer outcome queue hqueue =>
      cases hstep
      refine (h.tail hqueue).hear fun number place heq => h.news number place outcome ?_
      rw [hqueue, heq]
      exact List.mem_cons_self

end Truthful

/-- A loop in which each strand has its turns, and hears the truth. -/
structure Proper (loop : Loop σ ρ) : Prop where
  inTurn : ∃ begun, InTurn begun none loop
  truthful : loop.Truthful

theorem proper_start (world : σ) (strand : Strand σ ρ) : (start world strand).Proper :=
  ⟨⟨0, inTurn_start world strand⟩, truthful_start world strand⟩

theorem Proper.run (h : loop.Proper) (turns : Nat) : (loop.run turns).Proper := by
  induction turns generalizing loop with
  | zero => exact h
  | succ turns ih =>
      rw [Loop.run]
      obtain ⟨⟨_, hturn⟩, htruth⟩ := h
      cases hstep : loop.step with
      | none => exact ⟨⟨_, hturn⟩, htruth⟩
      | some next => exact ih ⟨hturn.step hstep, htruth.step hturn hstep⟩

/-! ### Waiting and going on -/

/-- A strand waits, or it has a turn to come in which it knows enough. -/
def Expects (wait : Wait σ ρ) (loop : Loop σ ρ) : Prop :=
  (∃ (number : Nat) (known : List (Option ρ)),
    loop.waits[number]? = some (some { wait with known })) ∨
    ∃ known, .turn wait.strand (wait.next known) ∈ loop.queue ∧ wait.enough known = true ∧
      loop.Knows wait.strands known

/-- A strand that waited has the next turn, and what it knows is so. -/
def GoesOnWith (wait : Wait σ ρ) (known : List (Option ρ)) (loop : Loop σ ρ) : Prop :=
  (∃ queue, loop.queue = .turn wait.strand (wait.next known) :: queue) ∧
    wait.enough known = true ∧ loop.Knows wait.strands known

theorem expects_suspend (loop : Loop σ ρ) (wait : Wait σ ρ) : Expects wait (loop.suspend wait) := by
  refine .inl ⟨loop.waits.length, wait.known, ?_⟩
  rw [Loop.suspend, (extends_listenEach _ _ _).waits]
  exact List.getElem?_concat_length

namespace Expects

/-- The strand has no outcome yet. -/
theorem unfinished (h : Expects wait loop) (hturn : InTurn begun none loop) :
    loop.outcome? wait.strand = none := by
  refine (hturn.unfinished wait.strand ?_).2
  rw [busy, Multiset.mem_add, Multiset.mem_add]
  rcases h with ⟨number, known, hwait⟩ | ⟨known, hdue, _⟩
  · have hwaiting := mem_waiting hwait
    exact .inr (Multiset.mem_coe.2 hwaiting)
  · exact .inl (.inr (Multiset.mem_coe.2 (mem_due hdue)))

/-- The strand hears of an outcome, or another one does. -/
theorem hear (h : Expects wait loop) (htruth : loop.Truthful) {hearer : Hearer σ ρ} {outcome : ρ}
    (htold : ∀ number place, hearer = .wait number place → ∃ strand,
      IsPlace loop.waits strand number place ∧ loop.outcome? strand = some outcome) :
    Expects wait (Loop.hear hearer outcome loop) := by
  cases hearer with
  | world change => exact h
  | wait number place =>
      simp only [Loop.hear]
      split
      · next found hfound =>
          rcases h with ⟨mine, known, hwait⟩ | ⟨known, hdue, henough, hknown⟩
          · by_cases hsame : number = mine
            · -- It is the one that hears.
              subst hsame
              obtain rfl := Option.some.inj (Option.some.inj (hfound.symm.trans hwait))
              obtain ⟨strand, hplace, hstrand⟩ := htold number place rfl
              have hset := (htruth.known number _ hwait).set (hplace.2 _ hwait) hstrand
              split
              · next henough =>
                  exact .inr ⟨_, List.mem_append_right _ (List.mem_singleton_self _), henough, hset⟩
              · exact .inl ⟨number, _, List.getElem?_set_self hplace.1⟩
            · split
              · exact .inl ⟨mine, known, (List.getElem?_set_ne hsame).trans hwait⟩
              · exact .inl ⟨mine, known, (List.getElem?_set_ne hsame).trans hwait⟩
          · split
            · exact .inr ⟨known, List.mem_append_left _ hdue, henough, hknown⟩
            · exact .inr ⟨known, hdue, henough, hknown⟩
      · exact h

/-- The strand has the next turn, or something else happens and it goes on as before. -/
theorem step (h : Expects wait loop) (hturn : InTurn begun none loop) (htruth : loop.Truthful)
    (hstep : loop.step = some next) :
    (∃ known, GoesOnWith wait known loop) ∨
      (loop.next? ≠ some wait.strand ∧ Expects wait next) := by
  have hretains : loop.Retains next := fun _ _ houtcome => hturn.outcome_step hstep houtcome
  unfold Loop.step at hstep
  split at hstep
  · cases hstep
  · next number rest queue hqueue =>
      cases hstep
      have hnext : loop.next? = some number := by rw [next?, hqueue]; rfl
      obtain ⟨_, hhaving⟩ := hturn.exists_turn hqueue
      have hleaves := leaves_follow number rest { loop with queue }
      rcases h with ⟨mine, known, hwait⟩ | ⟨known, hdue, henough, hknown⟩
      · have hne := hhaving.ne_having (.inr (mem_waiting hwait))
        obtain ⟨hlt, hget⟩ := List.getElem?_eq_some_iff.1 hwait
        have hkept := List.prefix_iff_getElem?.1 hleaves.waits mine hlt
        exact .inr ⟨fun heq => hne (Option.some.inj (heq.symm.trans hnext)),
          .inl ⟨mine, known, hkept.trans (congrArg some hget)⟩⟩
      · rw [hqueue] at hdue
        rcases List.mem_cons.1 hdue with heq | htail
        · obtain ⟨rfl, rfl⟩ := Event.turn.inj heq
          exact .inl ⟨known, ⟨queue, hqueue⟩, henough, hknown⟩
        · have hne := hhaving.ne_having (.inl (mem_due htail))
          exact .inr ⟨fun heq => hne (Option.some.inj (heq.symm.trans hnext)),
            .inr ⟨known, hleaves.queue _ htail, henough, hknown.mono hretains⟩⟩
  · next hearer outcome queue hqueue =>
      cases hstep
      have hnone : loop.next? = none := by rw [next?, hqueue]; rfl
      refine .inr ⟨hnone ▸ (Option.some_ne_none _).symm, Expects.hear ?_ (htruth.tail hqueue) ?_⟩
      · rcases h with hwait | ⟨known, hdue, hknown⟩
        · exact .inl hwait
        · rw [hqueue] at hdue
          rcases List.mem_cons.1 hdue with heq | hlater
          · cases heq
          · exact .inr ⟨known, hlater, hknown⟩
      · intro number place heq
        refine htruth.news number place outcome ?_
        rw [hqueue, heq]
        exact List.mem_cons_self

/-- A strand that waits, and that comes to an outcome, goes on at some moment before that, and it has
no turn until then. -/
theorem exists_goesOn (h : Expects wait loop) (hturn : InTurn begun none loop)
    (htruth : loop.Truthful) {turns : Nat} {outcome : ρ}
    (houtcome : (loop.run turns).outcome? wait.strand = some outcome) :
    ∃ t < turns, (∃ known, GoesOnWith wait known (loop.run t)) ∧
      ∀ before < t, (loop.run before).next? ≠ some wait.strand := by
  induction turns generalizing begun loop with
  | zero => cases (h.unfinished hturn).symm.trans houtcome
  | succ turns ih =>
      rw [Loop.run] at houtcome
      cases hstep : loop.step with
      | none =>
          rw [hstep] at houtcome
          cases (h.unfinished hturn).symm.trans houtcome
      | some next =>
          rw [hstep] at houtcome
          rcases h.step hturn htruth hstep with hgoesOn | ⟨hne, hnext⟩
          · exact ⟨0, Nat.zero_lt_succ _, hgoesOn, fun _ hlt => absurd hlt (Nat.not_lt_zero _)⟩
          · obtain ⟨_, hlater⟩ := hturn.step hstep
            obtain ⟨t, ht, hgoesOn, hbefore⟩ := ih hnext hlater (htruth.step hturn hstep) houtcome
            refine ⟨t + 1, Nat.succ_lt_succ ht, ?_, fun before hlt => ?_⟩
            · rw [run_succ_of_step hstep]
              exact hgoesOn
            · cases before with
              | zero => exact hne
              | succ before =>
                  rw [run_succ_of_step hstep]
                  exact hbefore before (Nat.lt_of_succ_lt_succ hlt)

end Expects

end Rulebook.Strand.Loop
