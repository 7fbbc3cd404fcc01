import Rulebook.Proofs.Strand.Lineage
import Rulebook.Proofs.Triple

/-!
The moment at which steps side by side are over.

`Triple.each` says what holds when a strand goes on after steps that were made side by side.  If the
strand comes to an outcome there is that moment: it has its turn with what came out of the steps, and
until then nothing of what it does after them has begun (`InTurn.exists_gathered`).
-/

namespace Rulebook.Strand.Loop

open Eval Eval.Triple

section

variable {σ ρ : Type}

/-- Start strands one after the other. -/
def addEach (loop : Loop σ ρ) (children : List (Strand σ ρ)) : Loop σ ρ := children.foldl add loop

theorem follow_spawnEach (own : Nat) (children : List (Strand σ ρ))
    (next : List Nat → Strand σ ρ) (loop : Loop σ ρ) :
    follow own (Strand.spawnEach children next) loop =
      follow own (next (List.range' loop.records.length children.length))
        (loop.addEach children) := by
  induction children generalizing next loop with
  | nil => rfl
  | cons child rest ih =>
      rw [Strand.spawnEach, Loop.follow, ih, List.length_cons, List.range'_succ]
      simp [Loop.add, addEach]

theorem records_addEach (loop : Loop σ ρ) (children : List (Strand σ ρ)) :
    (loop.addEach children).records =
      loop.records ++ List.replicate children.length ⟨none, []⟩ := by
  induction children generalizing loop with
  | nil => simp [addEach]
  | cons child rest ih =>
      rw [addEach, List.foldl_cons, ← addEach, ih]
      simp [Loop.add, List.replicate_succ]

/-- Each of the strands has its turn to come, from the number on that was the next one. -/
theorem turn_mem_addEach (loop : Loop σ ρ) {children : List (Strand σ ρ)} {place : Nat}
    {child : Strand σ ρ} (hchild : children[place]? = some child) :
    .turn (loop.records.length + place) child ∈ (loop.addEach children).queue := by
  have hkept : ∀ (children : List (Strand σ ρ)) (loop : Loop σ ρ),
      ∀ event ∈ loop.queue, event ∈ (loop.addEach children).queue := by
    intro children
    induction children with
    | nil => exact fun _ _ hevent => hevent
    | cons child rest ih =>
        exact fun loop event hevent => ih (loop.add child) event (List.mem_append_left _ hevent)
  induction children generalizing loop place with
  | nil => cases hchild
  | cons first rest ih =>
      cases place with
      | zero =>
          obtain rfl := Option.some.inj hchild
          exact hkept rest _ _ (List.mem_append_right _ (List.mem_singleton_self _))
      | succ place =>
          have hlater := ih (loop.add first) hchild
          rw [Loop.add, List.length_append, List.length_singleton, Nat.add_assoc,
            Nat.add_comm 1 place] at hlater
          exact hlater

@[simp]
theorem world_addEach (loop : Loop σ ρ) (children : List (Strand σ ρ)) :
    (loop.addEach children).world = loop.world := by
  induction children generalizing loop with
  | nil => rfl
  | cons child rest ih => exact ih (loop.add child)

/-- A strand that was just started has no outcome. -/
theorem outcome?_addEach (loop : Loop σ ρ) (children : List (Strand σ ρ)) {strand : Nat}
    (hstrand : loop.records.length ≤ strand) :
    (loop.addEach children).outcome? strand = none := by
  rw [outcome?, records_addEach, List.getElem?_append_right hstrand, Option.bind_eq_none_iff]
  intro record hrecord
  rw [List.eq_of_mem_replicate (List.mem_of_getElem? hrecord)]

end

variable {σ α : Type} [Parceled α] {own begun turns : Nat} {loop : Loop σ Ending}
  {steps : List (Eval σ α)} {next : Except Error (List (Except Error α)) → Strand σ Ending}
  {ending : Ending}

/-- The numbers of the strands in which a strand has steps made. -/
def stepStrands (loop : Loop σ Ending) (steps : List (Eval σ α)) : List Nat :=
  List.range' loop.records.length steps.length

/-- A strand waits for steps that are made side by side. -/
def gathering (own : Nat) (loop : Loop σ Ending) (steps : List (Eval σ α))
    (next : Except Error (List (Except Error α)) → Strand σ Ending) : Wait σ Ending where
  strand := own
  strands := loop.stepStrands steps
  known := (loop.stepStrands steps).map (loop.addEach (steps.map Eval.strand)).outcome?
  enough known := known.all Option.isSome
  next known := next (.ok (known.map received))

/-- The steps have just begun, so the strand has to wait for them. -/
theorem follow_each (own : Nat) (loop : Loop σ Ending) (hsome : steps ≠ [])
    (next : Except Error (List (Except Error α)) → Strand σ Ending) :
    follow own (Eval.each steps next) loop =
      (loop.addEach (steps.map Eval.strand)).suspend (gathering own loop steps next) := by
  have hopen : ((loop.stepStrands steps).map
      (loop.addEach (steps.map Eval.strand)).outcome?).all Option.isSome = false := by
    have hmem : loop.records.length ∈ loop.stepStrands steps := by
      simpa [stepStrands] using List.length_pos_iff.2 hsome
    have hnone := outcome?_addEach loop (steps.map Eval.strand) (Nat.le_refl _)
    exact List.all_eq_false.2 ⟨none, List.mem_map.2 ⟨_, hmem, hnone⟩, Bool.false_ne_true⟩
  rw [Eval.each, follow_spawnEach, Loop.follow, List.length_map]
  exact if_neg (Bool.eq_false_iff.1 hopen)

/-- Each step has a turn to come in a strand of its own. -/
theorem turn_mem_follow_each (own : Nat) (loop : Loop σ Ending) (hsome : steps ≠ [])
    (next : Except Error (List (Except Error α)) → Strand σ Ending) {place : Nat}
    {step : Eval σ α} (hstep : steps[place]? = some step) :
    .turn (loop.records.length + place) step.strand ∈
      (follow own (Eval.each steps next) loop).queue := by
  rw [follow_each own loop hsome]
  refine (leaves_suspend none _ _).queue _ (turn_mem_addEach loop ?_)
  rw [List.getElem?_map, hstep]
  rfl

theorem length_follow_each (own : Nat) (loop : Loop σ Ending) (hsome : steps ≠ [])
    (next : Except Error (List (Except Error α)) → Strand σ Ending) :
    (follow own (Eval.each steps next) loop).records.length =
      loop.records.length + steps.length := by
  rw [follow_each own loop hsome, Loop.suspend, length_listenEach]
  simp [records_addEach]

theorem InTurn.addEach (h : InTurn begun (some own) loop) (children : List (Strand σ Ending)) :
    InTurn begun (some own) (loop.addEach children) := by
  induction children generalizing loop with
  | nil => exact h
  | cons child rest ih => exact ih (h.add child)

theorem Truthful.addEach (h : loop.Truthful) (children : List (Strand σ Ending)) :
    (loop.addEach children).Truthful := by
  induction children generalizing loop with
  | nil => exact h
  | cons child rest ih => exact ih (h.add child)

/-- The strands came to these endings. -/
def EndWith (loop : Loop σ Ending) (strands : List Nat) (endings : List Ending) : Prop :=
  List.Forall₂ (fun strand ending => loop.outcome? strand = some ending) strands endings

/-- When all of the strands are known to have ended, there are their endings. -/
theorem Knows.exists_endings {strands : List Nat} {known : List (Option Ending)}
    (h : loop.Knows strands known) (hall : known.all Option.isSome = true) :
    ∃ endings, known = endings.map some ∧ loop.EndWith strands endings := by
  induction h with
  | nil => exact ⟨[], rfl, .nil⟩
  | cons hfirst _ ih =>
      rw [List.all_cons, Bool.and_eq_true] at hall
      obtain ⟨ending, rfl⟩ := Option.isSome_iff_exists.1 hall.1
      obtain ⟨endings, rfl, hrest⟩ := ih hall.2
      exact ⟨ending :: endings, rfl, .cons (hfirst ending rfl) hrest⟩

/-- A strand goes on after steps that were made side by side, and knows with what each of them ended;
it had no turn since it began to wait. -/
structure Gathered (own : Nat) (strands : List Nat) (endings : List Ending)
    (next : Except Error (List (Except Error α)) → Strand σ Ending) (started : Loop σ Ending)
    (turns : Nat) : Prop where
  first : FirstTurn started own turns (next (.ok (endings.map fun ending => received (some ending))))
  endings : (started.run turns).EndWith strands endings

/-- Steps side by side are over at some moment, if the strand that waits for them comes to an
outcome. -/
theorem InTurn.exists_gathered (h : InTurn begun (some own) loop) (htruth : loop.Truthful)
    (hsome : steps ≠ []) {started : Loop σ Ending}
    (hstarted : Loop.follow own (Eval.each steps next) loop = started)
    (hending : (started.run turns).outcome? own = some ending) :
    ∃ t < turns, ∃ endings, Gathered own (loop.stepStrands steps) endings next started t := by
  rw [follow_each own loop hsome next] at hstarted
  subst hstarted
  have hwaits : InTurn begun none ((loop.addEach (steps.map Eval.strand)).suspend
      (gathering own loop steps next)) := InTurn.suspend (h.addEach (steps.map Eval.strand))
  have htold : ((loop.addEach (steps.map Eval.strand)).suspend
      (gathering own loop steps next)).Truthful :=
    (htruth.addEach (steps.map Eval.strand)).suspend (knows_map _ _)
  obtain ⟨t, ht, ⟨known, hqueue, henough, hknown⟩, hbefore⟩ :=
    (expects_suspend _ (gathering own loop steps next)).exists_goesOn hwaits htold hending
  obtain ⟨endings, rfl, hendings⟩ := hknown.exists_endings henough
  exact ⟨t, ht, endings, ⟨by simpa [gathering, Function.comp_def] using hqueue, hbefore⟩, hendings⟩

/-! ### Accounts of steps side by side -/

variable {Λ ι : Type} [Preorder Λ] {charter : Charter σ Ending Λ} {ledger later : Ledger Λ}
  {items : List ι} {make : ι → Eval σ α} {account : ι → Λ} {a : Λ} {endings : List Ending}

theorem Balanced.addEach (h : Balanced charter ledger (some own) loop)
    {children : List (Strand σ Ending)} {accounts : List Λ}
    (hchildren : List.Forall₂ (fun child a => ∀ number,
      charter.Starts (charter.Honours child number) number a) children accounts) :
    Balanced charter (openEach ledger accounts) (some own) (loop.addEach children) := by
  induction hchildren generalizing ledger loop with
  | nil => simpa [openEach, Loop.addEach] using h
  | cons hchild _ ih => simpa [openEach, Ledger.openFor, Loop.addEach] using ih (h.add (hchild _))

omit [Preorder Λ] in
/-- The account that was opened for an item. -/
theorem getElem?_openEach (ledger : Ledger Λ) {accounts : List Λ} {place : Nat} {b : Λ}
    (hb : accounts[place]? = some b) :
    (openEach ledger accounts).accounts[ledger.accounts.length + place]? = some b := by
  rw [openEach, List.getElem?_append_right (Nat.le_add_right _ _), Nat.add_sub_cancel_left]
  exact hb

/-- The strands that ended have accounts that say so, and that came of those which were opened. -/
theorem Balanced.settled (h : Balanced charter later none loop) {first : Nat} {accounts : List Λ}
    (haccounts : ∀ place b, accounts[place]? = some b →
      ∃ c, later.accounts[first + place]? = some c ∧ b ≤ c)
    (hendings : loop.EndWith (List.range' first accounts.length) endings) :
    List.Forall₂ (Settled (α := α) charter later) accounts
      (endings.map fun ending => received (some ending)) := by
  have hadmits : charter.AdmitsEach later (List.range' first accounts.length)
      (endings.map some) := by
    rw [Charter.AdmitsEach, List.forall₂_map_right_iff]
    refine List.Forall₂.imp (fun strand ending hending outcome houtcome => ?_) hendings
    exact Option.some.inj houtcome ▸ h.outcome strand ending hending
  have hsettled := forall₂_settled (α := α) first haccounts hadmits (by simp)
  rwa [List.map_map] at hsettled

/-- A strand has steps made side by side, and keeps to the charter. -/
theorem Balanced.gather (h : Balanced charter ledger (some own) loop) (hsome : items ≠ [])
    (hitems : ∀ item ∈ items, ∀ number,
      charter.Starts (charter.Honours (make item).strand number) number (account item))
    (hmay : (openEach ledger (items.map account)).MayEnter own a)
    (hholds : charter.holds ((openEach ledger (items.map account)).enter own a) loop.world)
    (hnext : ∀ outcomes later world, At charter own a later world →
      List.Forall₂ (Settled charter later) (items.map account) outcomes →
        charter.Honours (next (.ok outcomes)) own later world)
    {started : Loop σ Ending}
    (hstarted : Loop.follow own (Eval.each (items.map make) next) loop = started) :
    Balanced charter ((openEach ledger (items.map account)).enter own a) none started ∧
      charter.holds ((openEach ledger (items.map account)).enter own a) started.world := by
  have hsteps : items.map make ≠ [] := mt List.map_eq_nil_iff.1 hsome
  have hchildren : List.Forall₂ (fun child a => ∀ number,
      charter.Starts (charter.Honours child number) number a)
      ((items.map make).map Eval.strand) (items.map account) := by
    rw [List.map_map, List.forall₂_map_left_iff, List.forall₂_map_right_iff, List.forall₂_same]
    exact hitems
  have hentered := (h.addEach hchildren).enter hmay
  rw [follow_each own loop hsteps next] at hstarted
  subst hstarted
  refine ⟨hentered.suspend ⟨hentered.admitsEach _, fun known henough later world hlater hown hworld
    hadmits => ?_⟩, ?_⟩
  · refine hnext _ later world ⟨hown.trans hmay.account, hworld⟩
      (forall₂_settled ledger.accounts.length (fun place b hb => ?_) ?_ henough)
    · exact (hmay.grows.trans hlater).account (getElem?_openEach ledger hb)
    · simpa [gathering, stepStrands, h.length] using hadmits
  · rw [world_suspend, world_addEach]
    exact hholds

/-- When steps side by side are over, their strands have accounts that say how they ended, and in which
stands what they noted in their first turns.  The strand that waited has its account as it was. -/
theorem Balanced.gathered {note : σ → Λ → Prop}
    (hnote : ∀ world a b, note world a → a ≤ b → note world b)
    (h : Balanced charter ledger (some own) loop) (hsome : items ≠ [])
    (hitems : ∀ item ∈ items, ∀ number,
      charter.Starts (charter.Notes note (make item).strand number) number (account item))
    (hmay : (openEach ledger (items.map account)).MayEnter own a)
    (hholds : charter.holds ((openEach ledger (items.map account)).enter own a) loop.world)
    (hnext : ∀ outcomes later world, At charter own a later world →
      List.Forall₂ (Settled charter later) (items.map account) outcomes →
        charter.Honours (next (.ok outcomes)) own later world)
    {started : Loop σ Ending}
    (hstarted : Loop.follow own (Eval.each (items.map make) next) loop = started)
    (hgathered : Gathered own (loop.stepStrands (items.map make)) endings next started turns) :
    ∃ later, ledger.Grows later ∧
      (∃ queue, (started.run turns).queue =
          .turn own (next (.ok (endings.map fun ending => received (some ending)))) :: queue ∧
        Balanced charter later (some own) { started.run turns with queue }) ∧
      At charter own a later (started.run turns).world ∧
      List.Forall₂ (Settled (α := α) charter later) (items.map account)
        (endings.map fun ending => received (some ending)) ∧
      ∀ place item, items[place]? = some item →
        ∃ c, later.accounts[loop.records.length + place]? = some c ∧ account item ≤ c ∧
          ∀ t < turns, FirstTurn started (loop.records.length + place) t (make item).strand →
            note (started.run t).world c := by
  obtain ⟨hbalanced, hworld⟩ := h.gather hsome (fun item hitem number =>
    (hitems item hitem number).honours) hmay hholds hnext hstarted
  have haccount : ∀ {place : Nat} {item : ι}, items[place]? = some item →
      (openEach ledger (items.map account)).accounts[loop.records.length + place]? =
        some (account item) := fun hitem => by
    rw [← h.length]
    exact getElem?_openEach ledger (by rw [List.getElem?_map, hitem]; rfl)
  have hown : ∀ place, own ≠ loop.records.length + place := fun place heq =>
    Nat.not_le.2 (h.inTurn.unfinished own (by simp [busy])).1 (heq ▸ Nat.le_add_right _ _)
  let listed (strand t : Nat) (rest : Strand σ Ending) : Prop := ∃ place item,
    items[place]? = some item ∧ strand = loop.records.length + place ∧
      rest = (make item).strand ∧ FirstTurn started strand t rest
  have hlisted : ∀ strand t rest, listed strand t rest → ToNote charter note
      ((openEach ledger (items.map account)).enter own a) started strand t rest := by
    rintro strand t rest ⟨place, item, hitem, rfl, rfl, hfirst⟩
    refine ⟨Nat.le_trans h.inTurn.le (Nat.le_add_right _ _), hfirst, account item, ?_,
      hitems item (List.mem_of_getElem? hitem) _⟩
    exact (List.getElem?_set_ne (hown place)).trans (haccount hitem)
  obtain ⟨later, hgrows, hlater, hnow, hkept, hnoted⟩ :=
    hbalanced.run_noting hnote hworld hlisted turns
  have hgrown : ∀ place b, (items.map account)[place]? = some b →
      ∃ c, later.accounts[loop.records.length + place]? = some c ∧ b ≤ c := by
    intro place b hb
    apply (hmay.grows.trans hgrows).account
    rw [← h.length]
    exact getElem?_openEach ledger hb
  obtain ⟨queue, hqueue⟩ := hgathered.first.queue
  have hbegun := Nat.lt_of_lt_of_le (h.inTurn.having_lt own rfl) hgrows.begun
  have hsame := hkept own (List.getElem?_eq_some_iff.1 hmay.account).1 hgathered.first.before
  refine ⟨later, ⟨fun hb => ?_, hgrows.begun⟩, ⟨queue, hqueue, hlater.turnOf_begun hqueue hbegun⟩,
    ⟨hsame.trans hmay.account, hnow⟩, hlater.settled hgrown ?_, fun place item hitem => ?_⟩
  · refine (hmay.grows.trans hgrows).account ?_
    rwa [openEach, List.getElem?_append_left (List.getElem?_eq_some_iff.1 hb).1]
  · simpa [stepStrands] using hgathered.endings
  · obtain ⟨c, hc, hle⟩ := hgrown place (account item) (by rw [List.getElem?_map, hitem]; rfl)
    refine ⟨c, hc, hle, fun t ht hfirst => ?_⟩
    obtain ⟨d, hd, hnotes⟩ := hnoted _ t _ ⟨place, item, hitem, rfl, rfl, hfirst⟩ ht
    exact Option.some.inj (hd.symm.trans hc) ▸ hnotes

end Rulebook.Strand.Loop
