import Rulebook.Proofs.Engine.Itinerary

/-!
Charters that a run keeps to.

A charter that is to hold while rules are processed has to say what is told of the run between two
groups, which account a rule is started with, and what the strand of the run enters while it waits for
a group and when it has come to its end (`Conduct`).  Whatever it is, the run then keeps to the charter
group by group; and in the end the accounts of the strands that processed rules tell what they noted when
they began, and how they ended (`Conduct.run`).
-/

namespace Rulebook.Engine

open Eval Strand

variable {η Λ : Type} [Preorder Λ] {handling : Handling η} {number : Nat} {order : List Rule}
  {charter : Charter (Scene η) Ending Λ}

/-- What a run tells in its accounts.  The rules before `place` are through `between` two groups, and in
the end, when it has started no others. -/
structure Conduct (handling : Handling η) (number : Nat) (order : List Rule)
    (charter : Charter (Scene η) Ending Λ) where
  account : Rule × Stamp → Λ
  root : Nat → Nat → Λ
  between : Nat → Ledger Λ → Scene η → Prop
  final : Nat → Λ → Prop
  note : Scene η → Λ → Prop
  final_mono : ∀ {place : Nat} {a b : Λ}, final place a → a ≤ b → final place b
  note_mono : ∀ scene a b, note scene a → a ≤ b → note scene b
  /-- A rule of the order is processed. -/
  starts : ∀ {place : Nat} {rule : Rule}, order[place]? = some rule → ∀ strand, charter.Starts
    (charter.Notes note (process handling rule ⟨number, place⟩).strand strand) strand
      (account (rule, ⟨number, place⟩))
  /-- A group is started. -/
  opens : ∀ {place : Nat} {group : List Rule} {ledger : Ledger Λ} {scene : Scene η},
    between place ledger scene → scene.engine.status = .running →
      let opened := Triple.openEach ledger ((stampedGroup number place group).map account)
      opened.MayEnter 0 (root place group.length) ∧
        charter.holds (opened.enter 0 (root place group.length)) scene
  /-- A group is left behind. -/
  gathers : ∀ {place : Nat} {group : List Rule} {ledger : Ledger Λ} {scene : Scene η}
    {outcomes : List (Except Error Unit)}, At charter 0 (root place group.length) ledger scene →
      List.Forall₂ (Triple.Settled charter ledger) ((stampedGroup number place group).map account)
        outcomes → (∀ outcome ∈ outcomes, ∃ a, outcome = .ok a) →
          ∃ a, ledger.MayEnter 0 a ∧ between (place + group.length) (ledger.enter 0 a) scene
  /-- The run fails with a group. -/
  fails : ∀ {place : Nat} {group : List Rule} {ledger : Ledger Λ} {scene : Scene η}
    {outcomes : List (Except Error Unit)} {e : Error},
      At charter 0 (root place group.length) ledger scene →
        List.Forall₂ (Triple.Settled charter ledger) ((stampedGroup number place group).map account)
          outcomes → Schedule.allOk outcomes = .error e →
            ∃ a, ledger.MayEnter 0 a ∧ final (place + group.length) a ∧
              charter.settles a (.error e) ∧ charter.holds (ledger.enter 0 a) scene
  /-- The run is over. -/
  closes : ∀ {place : Nat} {ledger : Ledger Λ} {scene : Scene η}, between place ledger scene →
    ∃ a, ledger.MayEnter 0 a ∧ final place a ∧ charter.settles a (.ok .nothing) ∧
      charter.holds (ledger.enter 0 a) scene

namespace Conduct

variable {conduct : Conduct handling number order charter} {place : Nat} {group : List Rule}
  {groups : List (List Rule)} {ledger later : Ledger Λ} {scene : Scene η}

/-! ### The strand of the run -/

theorem notes_process (conduct : Conduct handling number order charter) {rest : List Rule}
    (horder : order.drop place = group ++ rest) :
    ∀ entry ∈ stampedGroup number place group, ∀ strand, charter.Starts
      (charter.Notes conduct.note (process handling entry.1 entry.2).strand strand) strand
      (conduct.account entry) := by
  intro entry hentry strand
  obtain ⟨i, hrule, hstamp⟩ := mem_stampedGroup hentry
  have hplace : order[place + i]? = some entry.1 := by
    rw [← List.getElem?_drop, horder,
      List.getElem?_append_left (List.getElem?_eq_some_iff.1 hrule).1]
    exact hrule
  have hstarts := conduct.starts hplace strand
  rwa [← hstamp] at hstarts

/-- The strand of a run goes on after a group. -/
theorem honours_goOn (conduct : Conduct handling number order charter)
    {rest : List (List (Rule × Stamp))}
    (hrest : ∀ ledger scene, conduct.between (place + group.length) ledger scene →
      charter.Honours (runGroups handling rest).strand 0 ledger scene)
    {outcomes : List (Except Error Unit)}
    (hat : At charter 0 (conduct.root place group.length) ledger scene)
    (hsettled : List.Forall₂ (Triple.Settled charter ledger)
      ((stampedGroup number place group).map conduct.account) outcomes) :
    charter.Honours (goOn handling rest (.ok outcomes)) 0 ledger scene := by
  rw [goOn]
  cases hall : Schedule.allOk outcomes with
  | ok results =>
      obtain ⟨a, hmay, hbetween⟩ := conduct.gathers hat hsettled (ok_of_allOk hall)
      exact (hrest _ scene hbetween).of_enter hmay
  | error e =>
      obtain ⟨a, hmay, _, hsettles, hholds⟩ := conduct.fails hat hsettled hall
      exact ⟨a, hmay, hsettles, hholds⟩

/-- The strand of a run keeps to the charter. -/
theorem honours_runGroups [charter.Unranked] (conduct : Conduct handling number order charter)
    (horder : order.drop place = groups.flatten) (hbetween : conduct.between place ledger scene) :
    charter.Honours (runGroups handling (stamped number place groups)).strand 0 ledger scene := by
  induction groups generalizing place ledger scene with
  | nil =>
      obtain ⟨a, hmay, _, hsettles, hholds⟩ := conduct.closes hbetween
      exact ⟨a, hmay, hsettles, hholds⟩
  | cons group rest ih =>
      rw [List.flatten_cons] at horder
      have hrest : order.drop (place + group.length) = rest.flatten := by
        rw [← List.drop_drop, horder, List.drop_left]
      change charter.Honours ((if scene.engine.status = Status.running then
        (do runGroup handling (stampedGroup number place group)
            runGroups handling (stamped number (place + group.length) rest)) else pure ()) _)
              0 ledger scene
      by_cases hrunning : scene.engine.status = .running
      · rw [if_pos hrunning]
        change charter.Honours (do
          runGroup handling (stampedGroup number place group)
          runGroups handling (stamped number (place + group.length) rest) : Act η Unit).strand
            0 ledger scene
        rw [strand_group]
        have hopens : ∀ ledger scene, conduct.between place ledger scene ∧
            scene.engine.status = .running →
            (Triple.openEach ledger ((stampedGroup number place group).map conduct.account)).MayEnter
                0 (conduct.root place group.length) ∧
              charter.holds ((Triple.openEach ledger ((stampedGroup number place group).map
                conduct.account)).enter 0 (conduct.root place group.length)) scene :=
          fun ledger scene hpre => conduct.opens hpre.1 hpre.2
        refine Triple.each conduct.account (fun entry hentry strand =>
          (conduct.notes_process horder entry hentry strand).honours) hopens _ ?_ ledger scene
          ⟨hbetween, hrunning⟩
        rintro result later now ⟨hat, outcomes, rfl, hsettled⟩
        exact conduct.honours_goOn (fun _ _ hnext => ih hrest hnext) hat hsettled
      · rw [if_neg hrunning]
        obtain ⟨a, hmay, _, hsettles, hholds⟩ := conduct.closes hbetween
        exact ⟨a, hmay, hsettles, hholds⟩

/-! ### Runs -/

/-- The account of a strand that processed a rule tells what it noted in its first turn. -/
def Tells (conduct : Conduct handling number order charter) (loop : Loop (Scene η) Ending)
    (last : Nat) (ledger : Ledger Λ) (processed : Processed) : Prop :=
  ∃ a, ledger.accounts[processed.strand]? = some a ∧ conduct.account processed.entry ≤ a ∧
    ∃ t < last, loop.FirstTurn processed.strand t (processed.code handling) ∧
      conduct.note (loop.run t).world a

variable {loop : Loop (Scene η) Ending} {turns gap last : Nat} {batch found : List Processed}
  {rest : List (List (Rule × Stamp))} {queue : List (Event (Scene η) Ending)}

theorem Tells.grow {processed : Processed} (h : conduct.Tells loop last ledger processed)
    (hgrows : ledger.Grows later) : conduct.Tells loop last later processed := by
  obtain ⟨a, haccount, hle, t, ht, hfirst, hnote⟩ := h
  obtain ⟨b, hb, hab⟩ := hgrows.account haccount
  exact ⟨b, hb, hle.trans hab, t, ht, hfirst, conduct.note_mono _ a b hnote hab⟩

/-- The strand of the run comes to its end, and the run goes on until nothing is due. -/
theorem exists_final (conduct : Conduct handling number order charter)
    {code : Strand (Scene η) Ending} {ending : Ending} {a : Λ}
    (hqueue : (loop.run turns).queue = .turn 0 code :: queue)
    (hfollow : Loop.follow 0 code { loop.run turns with queue } =
      Loop.finish { loop.run turns with queue } 0 ending) (hlt : turns < last)
    (hbalanced : Loop.Balanced charter ledger (some 0) { loop.run turns with queue })
    (hmay : ledger.MayEnter 0 a) (hfinal : conduct.final place a) (hsettles : charter.settles a ending)
    (hholds : charter.holds (ledger.enter 0 a) (loop.run turns).world) :
    ∃ later, ledger.Grows later ∧ Loop.Balanced charter later none (loop.run last) ∧
      charter.holds later (loop.run last).world ∧
        ∃ b, later.accounts[0]? = some b ∧ conduct.final place b := by
  have hstep : (loop.run turns).step =
      some (Loop.finish { loop.run turns with queue } 0 ending) := by
    unfold Loop.step
    rw [hqueue]
    exact congrArg some hfollow
  have hends : charter.Honours (.done ending) 0 (ledger.enter 0 a) (loop.run turns).world := by
    refine ⟨a, Ledger.mayEnter_self hmay.account, hsettles, ?_⟩
    rwa [Ledger.enter_self hmay.account]
  obtain ⟨middle, hgrows, _, hfinished, hworld⟩ := (hbalanced.enter hmay).follow hends
  obtain ⟨more, rfl⟩ := Nat.exists_eq_add_of_le (Nat.succ_le_of_lt hlt)
  rw [Loop.run_add, run_succ hstep]
  obtain ⟨later, hlater, hend, hthere⟩ := hfinished.run hworld more
  obtain ⟨b, hb, hle⟩ := (hgrows.trans hlater).account hmay.account
  exact ⟨later, (hmay.grows.trans hgrows).trans hlater, hend, hthere, b, hb,
    conduct.final_mono hfinal hle⟩

theorem exists_of_stamped {entries : List (Rule × Stamp)}
    (h : stamped number place groups = entries :: rest) : ∃ group others, groups = group :: others ∧
      entries = stampedGroup number place group ∧
        rest = stamped number (place + group.length) others := by
  cases groups with
  | nil => cases h
  | cons group others =>
      obtain ⟨rfl, rfl⟩ := List.cons.inj h
      exact ⟨group, others, rfl, rfl, rfl⟩

theorem length_of_stamped (hbatch : batch.map Processed.entry = stampedGroup number place group) :
    batch.length = group.length := by
  simpa [stampedGroup] using congrArg List.length hbatch

/-- A group of a run is processed. -/
theorem exists_gathered [charter.Unranked] (conduct : Conduct handling number order charter)
    (hproper : loop.Proper) (hlt : turns + 1 + gap < last)
    (hbatch : batch.map Processed.entry = stampedGroup number place group)
    (horder : order.drop place = group ++ groups.flatten)
    (hleg : Leg handling loop turns gap batch (stamped number (place + group.length) groups))
    (hqueue : (loop.run turns).queue = .turn 0 (runGroups handling
      (batch.map Processed.entry :: stamped number (place + group.length) groups)).strand :: queue)
    (hbalanced : Loop.Balanced charter ledger (some 0) { loop.run turns with queue })
    (hbetween : conduct.between place ledger (loop.run turns).world) :
    ∃ later rest, ledger.Grows later ∧
      (loop.run (turns + 1 + gap)).queue = .turn 0 (goOn handling
        (stamped number (place + group.length) groups) (.ok (batch.map Processed.outcome))) :: rest ∧
      Loop.Balanced charter later (some 0) { loop.run (turns + 1 + gap) with queue := rest } ∧
      At charter 0 (conduct.root place group.length) later (loop.run (turns + 1 + gap)).world ∧
      List.Forall₂ (Triple.Settled charter later)
        ((stampedGroup number place group).map conduct.account) (batch.map Processed.outcome) ∧
      ∀ processed ∈ batch, conduct.Tells loop last later processed := by
  obtain ⟨same, hsame, hstarted⟩ := hleg.started
  obtain rfl : same = queue := (List.cons.inj (hsame.symm.trans hqueue)).2
  obtain ⟨hmay, hholds⟩ := conduct.opens hbetween hleg.running
  rw [← hbatch] at hmay hholds
  have horder' : order.drop (place + group.length) = groups.flatten := by
    rw [← List.drop_drop, horder, List.drop_left]
  have hstrands : Loop.stepStrands { loop.run turns with queue := same }
      (stepsOf handling (batch.map Processed.entry)) = batch.map Processed.strand := by
    rw [hleg.strands]
    simp [Loop.stepStrands, stepsOf]
  have hnext : ∀ outcomes later world, At charter 0 (conduct.root place group.length) later world →
      List.Forall₂ (Triple.Settled charter later) ((batch.map Processed.entry).map conduct.account)
        outcomes → charter.Honours (goOn handling (stamped number (place + group.length) groups)
          (.ok outcomes)) 0 later world := by
    intro outcomes later world hat hsettled
    rw [hbatch] at hsettled
    exact conduct.honours_goOn (fun _ _ hnext => conduct.honours_runGroups horder' hnext) hat hsettled
  have hgathered := hleg.gathered
  rw [← hstrands] at hgathered
  obtain ⟨later, hgrows, ⟨rest, hnow, hbalanced'⟩, hat, hsettled, htold⟩ :=
    hbalanced.gathered conduct.note_mono (mt List.map_eq_nil_iff.1 hleg.nonempty)
      (fun entry hentry => conduct.notes_process horder entry (hbatch ▸ hentry)) hmay hholds hnext
      hstarted hgathered
  rw [← Loop.run_add] at hnow hbalanced' hat
  have houtcomes : ((batch.map Processed.ending).map fun ending =>
      (received (some ending) : Except Error Unit)) = batch.map Processed.outcome := List.map_map
  rw [houtcomes] at hnow hsettled
  refine ⟨later, rest, hgrows, hnow, hbalanced', hat, hbatch ▸ hsettled, fun processed hmem => ?_⟩
  obtain ⟨i, hi⟩ := List.mem_iff_getElem?.1 hmem
  obtain ⟨t, ht, hfirst, hwhole⟩ := hleg.exists_firstTurn hproper hmem
  obtain ⟨a, haccount, hle, hnotes⟩ := htold i processed.entry (by rw [List.getElem?_map, hi]; rfl)
  have hstrand : processed.strand = (loop.run turns).records.length + i := hleg.strand_eq hi
  rw [← hstrand] at haccount
  refine ⟨a, haccount, hle, turns + 1 + t, by omega, hwhole, ?_⟩
  rw [Loop.run_add]
  exact hnotes t ht (hstrand ▸ hfirst)

/-- In the end the charter holds, and the strands that processed rules tell what they noted at
first. -/
theorem run [charter.Unranked] (conduct : Conduct handling number order charter)
    (hproper : loop.Proper) {result : Except Error Unit}
    (h : Itinerary handling loop last turns (stamped number place groups) found result)
    (horder : order.drop place = groups.flatten)
    (hqueue : (loop.run turns).queue =
      .turn 0 (runGroups handling (stamped number place groups)).strand :: queue)
    (hbalanced : Loop.Balanced charter ledger (some 0) { loop.run turns with queue })
    (hbetween : conduct.between place ledger (loop.run turns).world) :
    ∃ later, ledger.Grows later ∧ Loop.Balanced charter later none (loop.run last) ∧
      charter.holds later (loop.run last).world ∧
      (∃ a, later.accounts[0]? = some a ∧ conduct.final (place + found.length) a) ∧
      ∀ processed ∈ found, conduct.Tells loop last later processed := by
  generalize hgroups : stamped number place groups = entries at h hqueue
  induction h generalizing place groups ledger queue with
  | rests hlt _ hover =>
      obtain ⟨a, hmay, hfinal, hsettles, hholds⟩ := conduct.closes hbetween
      obtain ⟨later, hgrows, hend, hthere, hroot⟩ := conduct.exists_final hqueue (follow_over hover)
        hlt hbalanced hmay hfinal hsettles hholds
      exact ⟨later, hgrows, hend, hthere, hroot, List.forall_mem_nil _⟩
  | fails hlt hleg hfails =>
      obtain ⟨group, groups, rfl, hbatch, rfl⟩ := exists_of_stamped hgroups
      obtain ⟨later, rest, hgrows, hnow, hbalanced', hat, hsettled, htold⟩ :=
        conduct.exists_gathered hproper hlt hbatch horder hleg hqueue hbalanced hbetween
      obtain ⟨a, hmay, hfinal, hsettles, hholds⟩ := conduct.fails hat hsettled hfails
      rw [goOn, hfails] at hnow
      obtain ⟨final, hlater, hend, hthere, hroot⟩ :=
        conduct.exists_final hnow rfl hlt hbalanced' hmay hfinal hsettles hholds
      rw [← length_of_stamped hbatch] at hroot
      exact ⟨final, hgrows.trans hlater, hend, hthere, hroot, fun processed hmem =>
        (htold processed hmem).grow hlater⟩
  | goes hlt hleg hgoes _ ih =>
      obtain ⟨group, groups, rfl, hbatch, rfl⟩ := exists_of_stamped hgroups
      obtain ⟨later, rest, hgrows, hnow, hbalanced', hat, hsettled, htold⟩ :=
        conduct.exists_gathered hproper hlt hbatch horder hleg hqueue hbalanced hbetween
      obtain ⟨a, hmay, hnext⟩ := conduct.gathers hat hsettled (ok_of_allOk hgoes)
      rw [goOn, hgoes] at hnow
      obtain ⟨final, hfinal, hend, hthere, hroot, hrest⟩ := ih
        (show order.drop (place + group.length) = groups.flatten by
          rw [← List.drop_drop, horder, List.flatten_cons, List.drop_left])
        (hbalanced'.enter hmay) hnext rfl hnow
      have hlater := hmay.grows.trans hfinal
      refine ⟨final, hgrows.trans hlater, hend, hthere, ?_, List.forall_mem_append.2
        ⟨fun processed hmem => (htold processed hmem).grow hlater, hrest⟩⟩
      rwa [List.length_append, length_of_stamped hbatch, ← Nat.add_assoc]

end Conduct

end Rulebook.Engine
