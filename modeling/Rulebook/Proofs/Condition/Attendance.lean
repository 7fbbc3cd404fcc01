import Rulebook.Proofs.Condition.Combinator
import Rulebook.Proofs.Priority
import Rulebook.Proofs.Rule.Evaluation

/-!
Which children of a combinator are evaluated, and which failure it reports.

The children here do whatever work they have to do and then come to a fixed outcome; the world takes
note when the evaluation of a child begins and when it ends.  The accounts of the strands tell how
far each child has come (`Roll`), and a combinator goes from batch to batch until one of them has a
failing or a deciding child (`reach`).  So the failure that it reports is told by the priorities and
the outcomes alone, in whichever order the children of a batch come to them (`raises_iff`).
-/

namespace Rulebook

open Session Eval Strand

/-- A session, with the places of the children whose evaluation has begun and has ended. -/
structure Attendance where
  session : Session
  begun : List Nat
  ended : List Nat

instance : HasSession Attendance where
  session := Attendance.session
  withSession session world := { world with session }
  session_withSession _ _ := rfl
  withSession_session _ := rfl

namespace Attendance

/-- Nobody begins or ends. -/
def Unattended (world now : Attendance) : Prop :=
  now.begun = world.begun ∧ now.ended = world.ended

/-- A child that does some work and then comes to a fixed outcome: a result that was not skipped, or
a failure. -/
structure Child where
  condition : Condition
  work : Eval Attendance Unit
  outcome : Except Error ConditionResult
  evaluated : ∀ result, outcome = .ok result → result.isSkipped = false

namespace Child

/-- Evaluate a child, and take note of it. -/
def run (child : Child) (place : Nat) : Eval Attendance ConditionResult := do
  modify fun world => { world with begun := world.begun ++ [place] }
  let _ ← child.work.attempt
  modify fun world => { world with ended := world.ended ++ [place] }
  Eval.outcome child.outcome

/-- The child comes to a failure. -/
def Fails (child : Child) : Prop := ∃ e, child.outcome = .error e

/-- The child comes to the verdict that decides. -/
def Decides (join : Join) (child : Child) : Prop :=
  ∃ result, child.outcome = .ok result ∧ result.holds = join.deciding

end Child

/-- A child with its place among its siblings. -/
abbrev Spot := Child × Nat

/-- The children as branches. -/
def branchesOf (children : List Child) : List (Branch Attendance) :=
  children.zipIdx.map fun spot => ⟨spot.1.condition, spot.1.run spot.2⟩

/-! ### Accounts -/

/-- How far the evaluation of a child has come. -/
inductive Stage where
  | waiting
  | working
  | finished
  deriving DecidableEq

/-- What a strand does: it evaluates a child, or the combinator, whose first children are over while
others are under way, or none of these. -/
inductive Account where
  | aside
  | child (place : Nat) (stage : Stage)
  | root (past more : List Nat)
  | closed (failure : Option Error)

namespace Account

/-- The child that a strand evaluates. -/
def place? : Account → Option Nat
  | .child place _ => some place
  | _ => none

/-- The child whose evaluation has begun in a strand. -/
def begun? : Account → Option Nat
  | .child _ .waiting => none
  | .child place _ => some place
  | _ => none

/-- The child whose evaluation has ended in a strand. -/
def ended? : Account → Option Nat
  | .child place .finished => some place
  | _ => none

/-- Does the account still change? -/
def isOpen : Account → Bool
  | .child _ .finished => false
  | .child _ _ => true
  | .root _ _ => true
  | _ => false

/-- What does not change in an account: whether it is that of a child, and which one. -/
def seat : Account → Option (Option Nat)
  | .aside => none
  | .child place _ => some (some place)
  | _ => some none

instance : Preorder Account where
  le account later := account = later ∨ account.isOpen = true ∧ account.seat = later.seat
  le_refl _ := .inl rfl
  le_trans first second third h hthen := by
    rcases h with rfl | ⟨hopen, hseat⟩
    · exact hthen
    · rcases hthen with rfl | ⟨_, hseat'⟩
      · exact .inr ⟨hopen, hseat⟩
      · exact .inr ⟨hopen, hseat.trans hseat'⟩

theorem child_le {place : Nat} {stage later : Stage} (h : stage ≠ .finished) :
    child place stage ≤ child place later := by
  refine .inr ⟨?_, rfl⟩
  cases stage with
  | finished => exact absurd rfl h
  | _ => rfl

theorem exists_of_child_le {place : Nat} {stage : Stage} {later : Account}
    (h : child place stage ≤ later) : ∃ stage, later = .child place stage := by
  rcases h with rfl | ⟨_, hseat⟩
  · exact ⟨stage, rfl⟩
  · cases later with
    | child other now =>
        obtain rfl : place = other := by simpa [seat] using hseat
        exact ⟨now, rfl⟩
    | _ => cases hseat

end Account

/-! ### The roll -/

section Lists

variable {α β : Type} {f : α → Option β} {items : List α} {i : Nat} {old new : α}

theorem filterMap_set_of_eq (hold : items[i]? = some old) (h : f new = f old) :
    (items.set i new).filterMap f = items.filterMap f := by
  induction items generalizing i with
  | nil => rfl
  | cons item rest ih =>
      cases i with
      | zero =>
          obtain rfl := Option.some.inj hold
          rw [List.set_cons_zero, List.filterMap_cons, List.filterMap_cons, h]
      | succ i => rw [List.set_cons_succ, List.filterMap_cons, List.filterMap_cons, ih hold]

theorem filterMap_concat_of_none (h : f new = none) :
    (items ++ [new]).filterMap f = items.filterMap f := by
  rw [List.filterMap_append, List.filterMap_cons_none h, List.filterMap_nil, List.append_nil]

theorem eq_of_mem_of_nodup (hnodup : (items.filterMap f).Nodup) {b : β} {first second : α}
    (hfirst : first ∈ items) (hsecond : second ∈ items) (h : f first = some b)
    (h' : f second = some b) : first = second := by
  induction items with
  | nil => cases hfirst
  | cons item rest ih =>
      have hrest : ∀ other ∈ rest, f item = some b → f other ≠ some b := by
        intro other hother hitem hsame
        rw [List.filterMap_cons_some hitem, List.nodup_cons] at hnodup
        exact hnodup.1 (List.mem_filterMap.2 ⟨other, hother, hsame⟩)
      rcases List.mem_cons.1 hfirst with rfl | hleft
      · rcases List.mem_cons.1 hsecond with rfl | hright
        · rfl
        · exact absurd h' (hrest second hright h)
      · rcases List.mem_cons.1 hsecond with rfl | hright
        · exact absurd h (hrest first hleft h')
        · exact ih (hnodup.sublist ((List.sublist_cons_self item rest).filterMap f)) hleft hright

theorem filterMap_set_perm (f : α → Option β) {b : β} (hold : items[i]? = some old) (hnone : f old = none)
    (hsome : f new = some b) : ((items.set i new).filterMap f).Perm (items.filterMap f ++ [b]) := by
  induction items generalizing i with
  | nil => cases hold
  | cons item rest ih =>
      cases i with
      | zero =>
          obtain rfl := Option.some.inj hold
          rw [List.set_cons_zero, List.filterMap_cons_some hsome, List.filterMap_cons_none hnone]
          exact (List.perm_append_singleton b _).symm
      | succ i =>
          rw [List.set_cons_succ, List.filterMap_cons, List.filterMap_cons]
          cases f item with
          | none => exact ih hold
          | some c => exact (ih hold).cons c

end Lists

/-- What holds of the world, given how far each child has come: the children that have begun and
ended are those that it took note of, and the combinator knows which children there are.  When the
combinator is closed all of these are over, and they are as was expected.  A child that is evaluated
by the first strand is alone. -/
structure Roll (expected : List Nat × Option Error) (ledger : Ledger Account)
    (world : Attendance) : Prop where
  begun : world.begun.Perm (ledger.accounts.filterMap Account.begun?)
  ended : world.ended.Perm (ledger.accounts.filterMap Account.ended?)
  root : ∀ past more, ledger.accounts[0]? = some (.root past more) →
    ledger.accounts.filterMap Account.place? = past ++ more ∧
      ∀ place ∈ past, ∀ stage, .child place stage ∈ ledger.accounts → stage = .finished
  closed : ∀ failure, ledger.accounts[0]? = some (.closed failure) →
    (ledger.accounts.filterMap Account.place?, failure) = expected ∧
      ∀ place stage, .child place stage ∈ ledger.accounts → stage = .finished
  alone : ∀ place stage, ledger.accounts[0]? = some (.child place stage) →
    ledger.accounts.filterMap Account.place? = [place]

variable {expected : List Nat × Option Error} {ledger : Ledger Account} {world : Attendance}

namespace Roll

theorem congr {now : Attendance} (h : Roll expected ledger world) (hnow : Unattended world now) :
    Roll expected ledger now where
  begun := hnow.1 ▸ h.begun
  ended := hnow.2 ▸ h.ended
  root := h.root
  closed := h.closed
  alone := h.alone

/-- It does not matter to the roll how many strands had their first turn. -/
theorem begin (h : Roll expected ledger world) : Roll expected ledger.begin world :=
  ⟨h.begun, h.ended, h.root, h.closed, h.alone⟩

theorem openFor (h : Roll expected ledger world) : Roll expected (ledger.openFor .aside) world := by
  have hfirst : ∀ account, account ≠ .aside →
      (ledger.openFor .aside).accounts[0]? = some account → ledger.accounts[0]? = some account := by
    intro account haccount hfound
    rw [Ledger.openFor] at hfound
    cases haccounts : ledger.accounts with
    | nil => simp [haccounts, haccount.symm] at hfound
    | cons first rest => simpa [haccounts] using hfound
  have hplaces : (ledger.openFor .aside).accounts.filterMap Account.place? =
      ledger.accounts.filterMap Account.place? := filterMap_concat_of_none rfl
  have hmem : ∀ place stage, .child place stage ∈ (ledger.openFor .aside).accounts →
      .child place stage ∈ ledger.accounts := by
    simp [Ledger.openFor]
  refine ⟨?_, ?_, fun past more hroot => ?_, fun failure hclosed => ?_, fun place stage hchild => ?_⟩
  · rw [Ledger.openFor, filterMap_concat_of_none (by rfl)]
    exact h.begun
  · rw [Ledger.openFor, filterMap_concat_of_none (by rfl)]
    exact h.ended
  · obtain ⟨hall, hover⟩ := h.root past more (hfirst _ (by simp) hroot)
    exact ⟨hplaces.trans hall, fun place hplace stage hchild =>
      hover place hplace stage (hmem place stage hchild)⟩
  · obtain ⟨hall, hover⟩ := h.closed failure (hfirst _ (by simp) hclosed)
    exact ⟨hplaces ▸ hall, fun place stage hchild => hover place stage (hmem place stage hchild)⟩
  · exact hplaces.trans (h.alone place stage (hfirst _ (by simp) hchild))

/-- A child comes further. -/
theorem enter_child (h : Roll expected ledger world) {own place : Nat} {old new : Stage}
    (hown : ledger.accounts[own]? = some (.child place old)) (hold : old ≠ .finished)
    {now : Attendance}
    (hbegun : now.begun.Perm
      ((ledger.enter own (.child place new)).accounts.filterMap Account.begun?))
    (hended : now.ended.Perm
      ((ledger.enter own (.child place new)).accounts.filterMap Account.ended?)) :
    Roll expected (ledger.enter own (.child place new)) now := by
  have hmem := List.mem_of_getElem? hown
  have hplaces : (ledger.enter own (.child place new)).accounts.filterMap Account.place? =
      ledger.accounts.filterMap Account.place? := filterMap_set_of_eq hown rfl
  have hfirst : ∀ account, (∀ stage, account ≠ .child place stage) →
      (ledger.enter own (.child place new)).accounts[0]? = some account →
        ledger.accounts[0]? = some account := by
    intro account haccount hfound
    rw [Ledger.enter, List.getElem?_set] at hfound
    split at hfound
    · split at hfound
      · exact absurd (Option.some.inj hfound).symm (haccount new)
      · cases hfound
    · exact hfound
  -- Nobody comes further who was over, so nobody was to be over who is not.
  have hchild : ∀ (holds : Nat → Prop),
      (∀ place, holds place → ∀ stage, .child place stage ∈ ledger.accounts → stage = .finished) →
        ∀ other, holds other → ∀ stage,
          .child other stage ∈ (ledger.enter own (.child place new)).accounts → stage = .finished := by
    intro holds hover other hother stage hstage
    rcases List.mem_or_eq_of_mem_set hstage with hkept | heq
    · exact hover other hother stage hkept
    · cases heq
      exact absurd (hover place hother old hmem) hold
  refine ⟨hbegun, hended, fun past more hroot => ?_, fun failure hclosed => ?_,
    fun other stage hother => ?_⟩
  · obtain ⟨hall, hover⟩ := h.root past more (hfirst _ (by simp) hroot)
    exact ⟨hplaces.trans hall, hchild (· ∈ past) hover⟩
  · obtain ⟨hall, hover⟩ := h.closed failure (hfirst _ (by simp) hclosed)
    exact ⟨hplaces ▸ hall, fun other => hchild (fun _ => True) (fun place _ => hover place) other
      trivial⟩
  · rw [hplaces]
    rw [Ledger.enter, List.getElem?_set] at hother
    split at hother
    · next hzero =>
        subst hzero
        split at hother
        · cases hother
          exact h.alone place old hown
        · cases hother
    · exact h.alone other stage hother

theorem begin_child (h : Roll expected ledger world) {own place : Nat}
    (hown : ledger.accounts[own]? = some (.child place .waiting)) :
    Roll expected (ledger.enter own (.child place .working))
      { world with begun := world.begun ++ [place] } := by
  refine h.enter_child hown nofun ?_ ?_
  · exact (h.begun.append_right [place]).trans (filterMap_set_perm Account.begun? hown rfl rfl).symm
  · rw [Ledger.enter, filterMap_set_of_eq hown (by rfl)]
    exact h.ended

theorem end_child (h : Roll expected ledger world) {own place : Nat}
    (hown : ledger.accounts[own]? = some (.child place .working)) :
    Roll expected (ledger.enter own (.child place .finished))
      { world with ended := world.ended ++ [place] } := by
  refine h.enter_child hown nofun ?_ ?_
  · rw [Ledger.enter, filterMap_set_of_eq hown (by rfl)]
    exact h.begun
  · exact (h.ended.append_right [place]).trans (filterMap_set_perm Account.ended? hown rfl rfl).symm

/-- The account of the combinator changes, while those of the children stay. -/
theorem enter_root {past more : List Nat} (h : Roll expected ledger world)
    (hroot : ledger.accounts[0]? = some (.root past more)) {new : Account}
    (hseat : new.seat = some none)
    (hnew : ∀ past more, new = .root past more →
      ledger.accounts.filterMap Account.place? = past ++ more ∧
        ∀ place ∈ past, ∀ stage, .child place stage ∈ ledger.accounts → stage = .finished)
    (hclosed : ∀ failure, new = .closed failure →
      (ledger.accounts.filterMap Account.place?, failure) = expected ∧
        ∀ place stage, .child place stage ∈ ledger.accounts → stage = .finished) :
    Roll expected (ledger.enter 0 new) world := by
  have hnone : new.place? = none ∧ new.begun? = none ∧ new.ended? = none := by
    cases new with
    | child place stage => cases hseat
    | _ => exact ⟨rfl, rfl, rfl⟩
  have hfirst : (ledger.enter 0 new).accounts[0]? = some new :=
    List.getElem?_set_self (List.getElem?_eq_some_iff.1 hroot).1
  have hplaces : (ledger.enter 0 new).accounts.filterMap Account.place? =
      ledger.accounts.filterMap Account.place? := filterMap_set_of_eq hroot hnone.1
  have hmem : ∀ place stage, .child place stage ∈ (ledger.enter 0 new).accounts →
      .child place stage ∈ ledger.accounts := by
    intro place stage hchild
    rcases List.mem_or_eq_of_mem_set hchild with hkept | rfl
    · exact hkept
    · cases hseat
  refine ⟨?_, ?_, fun past more hfound => ?_, fun failure hfound => ?_, fun place stage hfound => ?_⟩
  · rw [Ledger.enter, filterMap_set_of_eq hroot hnone.2.1]
    exact h.begun
  · rw [Ledger.enter, filterMap_set_of_eq hroot hnone.2.2]
    exact h.ended
  · obtain ⟨hall, hover⟩ := hnew past more (Option.some.inj (hfirst.symm.trans hfound))
    exact ⟨hplaces.trans hall, fun place hplace stage hchild =>
      hover place hplace stage (hmem place stage hchild)⟩
  · obtain ⟨hall, hover⟩ := hclosed failure (Option.some.inj (hfirst.symm.trans hfound))
    exact ⟨hplaces ▸ hall, fun place stage hchild => hover place stage (hmem place stage hchild)⟩
  · rw [Option.some.inj (hfirst.symm.trans hfound)] at hseat
    cases hseat

/-- The combinator knows that children are over. -/
theorem gather {past more : List Nat} (h : Roll expected ledger world)
    (hroot : ledger.accounts[0]? = some (.root past more))
    (hover : ∀ place ∈ more, ∀ stage, .child place stage ∈ ledger.accounts → stage = .finished) :
    Roll expected (ledger.enter 0 (.root (past ++ more) [])) world := by
  obtain ⟨hplaces, hold⟩ := h.root past more hroot
  refine h.enter_root hroot rfl (fun _ _ heq => ?_) nofun
  cases heq
  refine ⟨by rw [List.append_nil, hplaces], fun place hplace => ?_⟩
  exact (List.mem_append.1 hplace).elim (hold place) (hover place)

/-- The combinator comes to its outcome. -/
theorem close {past : List Nat} {failure : Option Error} (h : Roll (past, failure) ledger world)
    (hroot : ledger.accounts[0]? = some (.root past [])) :
    Roll (past, failure) (ledger.enter 0 (.closed failure)) world := by
  obtain ⟨hplaces, hold⟩ := h.root past [] hroot
  rw [List.append_nil] at hplaces
  refine h.enter_root hroot rfl nofun fun _ heq => ?_
  cases heq
  refine ⟨by rw [hplaces], fun place stage hchild => hold place ?_ stage hchild⟩
  rw [← hplaces]
  exact List.mem_filterMap.2 ⟨_, hchild, rfl⟩

/-- Children begin to wait. -/
theorem openEach {past : List Nat} (h : Roll expected ledger world)
    (hroot : ledger.accounts[0]? = some (.root past [])) {places : List Nat}
    (hfresh : ∀ place ∈ places, place ∉ past) :
    Roll expected ((Triple.openEach ledger (places.map (.child · .waiting))).enter 0
      (.root past places)) world := by
  obtain ⟨hplaces, hold⟩ := h.root past [] hroot
  have hopened : (ledger.accounts ++ places.map (.child · .waiting))[0]? = some (.root past []) :=
    (List.getElem?_append_left (List.getElem?_eq_some_iff.1 hroot).1).trans hroot
  have hwaiting : ∀ f : Account → Option Nat, (∀ place, f (.child place .waiting) = none) →
      (places.map (.child · .waiting)).filterMap f = [] := by
    intro f hf
    rw [List.filterMap_map, List.filterMap_eq_nil_iff]
    exact fun place _ => hf place
  have hnew : (places.map (.child · .waiting)).filterMap Account.place? = places := by
    rw [List.filterMap_map]
    exact List.filterMap_some
  have hfirst := List.getElem?_set_self (a := .root past places)
    (List.getElem?_eq_some_iff.1 hopened).1
  refine ⟨?_, ?_, fun other more hfound => ?_, fun failure hfound => ?_,
    fun place stage hfound => ?_⟩
  · rw [Ledger.enter, Triple.openEach, filterMap_set_of_eq hopened (by rfl), List.filterMap_append,
      hwaiting _ fun _ => rfl, List.append_nil]
    exact h.begun
  · rw [Ledger.enter, Triple.openEach, filterMap_set_of_eq hopened (by rfl), List.filterMap_append,
      hwaiting _ fun _ => rfl, List.append_nil]
    exact h.ended
  · have hsame := hfirst.symm.trans hfound
    cases hsame
    refine ⟨?_, fun place hplace stage hchild => ?_⟩
    · rw [Ledger.enter, Triple.openEach, filterMap_set_of_eq hopened (by rfl),
        List.filterMap_append, hnew, hplaces, List.append_nil]
    · have hchild := (List.mem_or_eq_of_mem_set hchild).resolve_right (by simp)
      rcases List.mem_append.1 hchild with hkept | hadded
      · exact hold place hplace stage hkept
      · obtain ⟨other, hother, heq⟩ := List.mem_map.1 hadded
        cases heq
        exact absurd hplace (hfresh _ hother)
  · cases hfirst.symm.trans hfound
  · cases hfirst.symm.trans hfound

end Roll

/-! ### The strands -/

/-- The accounts tell how far each child has come, and the strand of a child ends as the child
does. -/
def charter (expected : List Nat × Option Error) (endings : Nat → Ending) :
    Charter Attendance Ending Account where
  holds := Roll expected
  settles account ending :=
    match account with
    | .aside => True
    | .child place stage => stage = .finished ∧ ending = endings place
    | .root _ _ => False
    | .closed failure => errorOf? ending = failure
  settles_mono := by
    intro account later ending h hle
    rcases hle with rfl | ⟨hopen, hseat⟩
    · exact h
    · cases account with
      | aside => cases hopen
      | child place stage =>
          rw [h.1] at hopen
          cases hopen
      | root past more => exact h.elim
      | closed failure => cases hopen

instance (expected : List Nat × Option Error) (endings : Nat → Ending) :
    (charter expected endings).Unranked := ⟨fun _ => rfl⟩

variable {endings : Nat → Ending} {own : Nat}

theorem idle_aside : Idle (charter expected endings) Unattended .aside where
  settles _ := trivial
  openFor _ _ h := h.openFor
  begin _ _ _ h := h.begin
  change _ _ _ hnow h := h.congr hnow

/-- A strand with its first turn has its account. -/
theorem at_of_begins {a : Account} (h : Begins (charter expected endings) own a ledger world) :
    At (charter expected endings) own a ledger world := by
  obtain ⟨before, rfl, _, hat⟩ := h
  exact ⟨hat.account, Roll.begin hat.holds⟩

/-- The strand that evaluates a child keeps to the charter. -/
theorem triple_child {child : Child} {place : Nat} (hwork : Within Unattended child.work) :
    Triple (charter expected endings) own
      (At (charter expected endings) own (.child place .waiting)) (child.run place)
      fun result ledger world => result = child.outcome ∧
        At (charter expected endings) own (.child place .finished) ledger world := by
  refine Triple.modify_bind
    (?_ : Triple _ own (At (charter expected endings) own (.child place .working)) _ _) ?begins
  case begins =>
    intro ledger world hat
    have hmay : ledger.MayEnter own (.child place .working) :=
      ⟨_, hat.account, Account.child_le nofun⟩
    exact ⟨_, hmay, hmay.account, Roll.begin_child hat.holds hat.account⟩
  refine (hwork.triple idle_aside own _).attempt.bind (fun _ => ?_) fun _ _ _ h => nomatch h
  refine Triple.modify_bind
    (?_ : Triple _ own (At (charter expected endings) own (.child place .finished)) _ _) ?ends
  case ends =>
    rintro ledger world ⟨_, _, hat⟩
    have hmay : ledger.MayEnter own (.child place .finished) :=
      ⟨_, hat.account, Account.child_le nofun⟩
    exact ⟨_, hmay, hmay.account, Roll.end_child hat.holds hat.account⟩
  exact .outcome fun _ _ hat => ⟨rfl, hat⟩

theorem starts_child {child : Child} {place : Nat} (hwork : Within Unattended child.work)
    (hending : endings place = child.outcome.map Parceled.pack) :
    (charter expected endings).Starts
      ((charter expected endings).Honours (child.run place).strand own) own
      (.child place .waiting) := by
  refine Triple.starts ((triple_child hwork).imp (fun _ _ => at_of_begins) ?_)
  rintro result ledger world ⟨rfl, hat⟩
  exact ⟨_, Ledger.mayEnter_self hat.account, ⟨rfl, hending.symm⟩,
    (Ledger.enter_self hat.account).symm ▸ hat.holds⟩

/-! ### Batches -/

/-- Children with their places, as a batch. -/
def batchOf (spots : List Spot) : Batch Attendance :=
  spots.map fun spot => (⟨spot.1.condition, spot.1.run spot.2⟩, spot.2)

/-- The places of children. -/
def placesOf (spots : List Spot) : List Nat := spots.map (·.2)

/-- The children do nothing to the roll but what is taken note of, and come to their endings. -/
def Sound (endings : Nat → Ending) (spots : List Spot) : Prop :=
  ∀ spot ∈ spots, Within Unattended spot.1.work ∧
    endings spot.2 = spot.1.outcome.map Parceled.pack

variable {past : List Nat} {spots : List Spot}

/-- What came out of the strands of children is what the children come to, and they are over. -/
theorem eq_of_settled (hsound : Sound endings spots) {outcomes : List (Except Error ConditionResult)}
    (h : List.Forall₂ (Triple.Settled (charter expected endings) ledger)
      (spots.map fun spot => .child spot.2 .waiting) outcomes) :
    outcomes = spots.map (·.1.outcome) ∧
      ∀ place ∈ placesOf spots, .child place .finished ∈ ledger.accounts := by
  induction spots generalizing outcomes with
  | nil =>
      cases h
      exact ⟨rfl, nofun⟩
  | cons spot rest ih =>
      obtain ⟨⟨_, hending⟩, hrest⟩ := List.forall_mem_cons.1 hsound
      rw [List.map_cons, List.forall₂_cons_left_iff] at h
      obtain ⟨outcome, others, ⟨number, c, ending, hc, hle, hsettles, rfl⟩, hothers, rfl⟩ := h
      obtain ⟨stage, rfl⟩ := Account.exists_of_child_le hle
      obtain ⟨rfl, rfl⟩ := hsettles
      obtain ⟨rfl, hover⟩ := ih hrest hothers
      refine ⟨?_, List.forall_mem_cons.2 ⟨List.mem_of_getElem? hc, hover⟩⟩
      rw [List.map_cons, hending, received_pack]

theorem triple_runBatch (hsound : Sound endings spots) (hnodup : (past ++ placesOf spots).Nodup) :
    Triple (charter expected endings) 0 (At (charter expected endings) 0 (.root past []))
      (Schedule.runBatch (batchOf spots)) fun result ledger world =>
        result = (Schedule.allOk (spots.map (·.1.outcome))).map (·.zip (placesOf spots)) ∧
          At (charter expected endings) 0 (.root (past ++ placesOf spots) []) ledger world := by
  have hfresh : ∀ place ∈ placesOf spots, place ∉ past := fun place hplace hover =>
    (List.nodup_append.1 hnodup).2.2 place hover place hplace rfl
  have hopen : ∀ ledger world, At (charter expected endings) 0 (.root past []) ledger world →
      (Triple.openEach ledger (spots.map fun spot => .child spot.2 .waiting)).MayEnter 0
          (.root past (placesOf spots)) ∧
        Roll expected ((Triple.openEach ledger (spots.map fun spot => .child spot.2 .waiting)).enter 0
          (.root past (placesOf spots))) world := by
    intro ledger world hat
    have haccounts : spots.map (fun spot => Account.child spot.2 .waiting) =
        (placesOf spots).map (.child · .waiting) := by
      rw [placesOf, List.map_map]
      rfl
    rw [haccounts]
    refine ⟨⟨.root past [], ?_, .inr ⟨rfl, rfl⟩⟩, Roll.openEach hat.holds hat.account hfresh⟩
    exact (List.getElem?_append_left (List.getElem?_eq_some_iff.1 hat.account).1).trans hat.account
  have heach : Triple (charter expected endings) 0 _
      (Eval.each (spots.map fun spot => spot.1.run spot.2)) _ :=
    Triple.each (a := .root past (placesOf spots)) (fun spot => .child spot.2 .waiting)
      (fun spot hspot number => starts_child (hsound spot hspot).1 (hsound spot hspot).2) hopen
  have hsteps : (batchOf spots).map (fun entry => entry.1.run) =
      spots.map fun spot => spot.1.run spot.2 := by
    rw [batchOf, List.map_map]
    rfl
  have hplaces : (batchOf spots).map (·.2) = placesOf spots := by
    rw [batchOf, List.map_map]
    rfl
  rw [Schedule.runBatch, hsteps, hplaces]
  refine heach.bind (fun outcomes => ?_) fun _ _ _ h => nomatch h.2
  have hresult : (Eval.outcome (Schedule.allOk outcomes) >>= fun results =>
        pure (results.zip (placesOf spots)) : Eval Attendance (List Placed)) =
      Eval.outcome ((Schedule.allOk outcomes).map (·.zip (placesOf spots))) := by
    cases Schedule.allOk outcomes <;> rfl
  rw [hresult]
  refine Triple.enter (.outcome fun _ _ h => h) (.root (past ++ placesOf spots) []) ?_
  rintro ledger world ⟨hat, _, heq, hsettled⟩
  cases heq
  obtain ⟨rfl, hdone⟩ := eq_of_settled hsound hsettled
  have hmay : ledger.MayEnter 0 (.root (past ++ placesOf spots) []) :=
    ⟨_, hat.account, .inr ⟨rfl, rfl⟩⟩
  refine ⟨hmay, rfl, hmay.account, Roll.gather hat.holds hat.account
    fun place hplace stage hchild => ?_⟩
  -- There is one account only for each child.
  rw [← (Roll.root hat.holds _ _ hat.account).1] at hnodup
  have hsame := eq_of_mem_of_nodup hnodup hchild (hdone place hplace) rfl rfl
  cases hsame
  rfl

/-- The failure of the first child that fails. -/
def failure? (spots : List Spot) : Option Error :=
  spots.findSome? fun spot => errorOf? spot.1.outcome

/-- Does one of the children decide? -/
def decided (join : Join) (spots : List Spot) : Bool :=
  spots.any fun spot => spot.1.outcome.toOption.any fun result => result.holds == join.deciding

/-- The children that a combinator evaluates, batch by batch, and the failure that it comes to. -/
def reach (join : Join) : List (List Spot) → List Nat × Option Error
  | [] => ([], none)
  | spots :: rest =>
      if (failure? spots).isSome || decided join spots then (placesOf spots, failure? spots)
      else (placesOf spots ++ (reach join rest).1, (reach join rest).2)

theorem errorOf?_allOk (spots : List Spot) :
    errorOf? (Schedule.allOk (spots.map (·.1.outcome))) = failure? spots := by
  rw [Schedule.errorOf?_allOk, List.findSome?_map]
  rfl

theorem decides_of_allOk (join : Join) {spots : List Spot} {results : List ConditionResult}
    (h : Schedule.allOk (spots.map (·.1.outcome)) = .ok results) :
    Schedule.decides join (results.zip (placesOf spots)) = decided join spots := by
  induction spots generalizing results with
  | nil =>
      cases h
      rfl
  | cons spot rest ih =>
      rw [List.map_cons] at h
      cases houtcome : spot.1.outcome with
      | error e =>
          rw [houtcome] at h
          cases h
      | ok result =>
          rw [houtcome, Schedule.allOk] at h
          cases hrest : Schedule.allOk (rest.map (·.1.outcome)) with
          | error e =>
              rw [hrest] at h
              cases h
          | ok others =>
              rw [hrest] at h
              cases h
              have hothers := ih hrest
              rw [Schedule.decides, decided] at hothers ⊢
              rw [placesOf, List.map_cons, List.zip_cons_cons, List.any_cons, ← placesOf, hothers,
                List.any_cons, houtcome]
              rfl

variable {a : Account}

/-- Something is counted while the account stays. -/
theorem triple_count_bind {α : Type} {a : Account} {counter : Counter} {label : String}
    {rest : Eval Attendance α} {post : Except Error α → Ledger Account → Attendance → Prop}
    (h : Triple (charter expected endings) own (At (charter expected endings) own a) rest post) :
    Triple (charter expected endings) own (At (charter expected endings) own a)
      (count counter label >>= fun _ => rest) post := by
  refine Triple.modify_bind h fun ledger world hat => ⟨a, Ledger.mayEnter_self hat.account, ?_⟩
  rw [Ledger.enter_self hat.account]
  exact ⟨hat.account, Roll.congr hat.holds ⟨rfl, rfl⟩⟩

theorem triple_skipEach (batch : Batch Attendance) :
    Triple (charter expected endings) 0 (At (charter expected endings) 0 a)
      (Schedule.skipEach batch) fun result ledger world => errorOf? result = none ∧
        At (charter expected endings) 0 a ledger world := by
  induction batch with
  | nil => exact .outcome fun _ _ hat => ⟨rfl, hat⟩
  | cons entry rest ih =>
      obtain ⟨branch, place⟩ := entry
      exact triple_count_bind (ih.bind (fun results => .outcome fun _ _ hat => ⟨rfl, hat.2⟩)
        fun e _ _ hat => nomatch hat.1)

/-- A combinator evaluates the children that it reaches, and comes to the failure that it reaches. -/
theorem triple_runBatches (join : Join) {batches : List (List Spot)}
    (hsound : ∀ spots ∈ batches, Sound endings spots)
    (hnodup : (past ++ placesOf batches.flatten).Nodup) :
    Triple (charter expected endings) 0 (At (charter expected endings) 0 (.root past []))
      (Schedule.runBatches join (batches.map batchOf)) fun result ledger world =>
        errorOf? result = (reach join batches).2 ∧
          At (charter expected endings) 0 (.root (past ++ (reach join batches).1) [])
            ledger world := by
  induction batches generalizing past with
  | nil => exact .outcome fun _ _ hat => ⟨rfl, by rwa [reach, List.append_nil]⟩
  | cons spots rest ih =>
      rw [List.forall_mem_cons] at hsound
      rw [List.flatten_cons, placesOf, List.map_append, ← List.append_assoc] at hnodup
      have hbatch : Triple (charter expected endings) 0 _ _ _ :=
        triple_runBatch hsound.1 (List.nodup_append.1 hnodup).1
      have hfailure := errorOf?_allOk spots
      rw [List.map_cons, Schedule.runBatches, reach]
      cases hall : Schedule.allOk (spots.map (·.1.outcome)) with
      | error e =>
          rw [hall] at hbatch hfailure
          rw [← hfailure]
          refine hbatch.bind (fun results => .of_fact nofun) fun cause ledger world h => ?_
          cases h.1
          exact ⟨rfl, h.2⟩
      | ok found =>
          rw [hall] at hbatch hfailure
          rw [← hfailure]
          refine hbatch.bind (fun results => .of_fact fun heq => ?_) fun _ _ _ h => nomatch h.1
          cases heq
          rw [decides_of_allOk join hall]
          cases decided join spots with
          | true =>
              exact (triple_skipEach _).bind (fun skipped => .outcome fun _ _ hat => ⟨rfl, hat.2⟩)
                fun _ _ _ hat => nomatch hat.1
          | false =>
              have hrest := ih hsound.2 hnodup
              rw [List.append_assoc] at hrest
              exact hrest.bind (fun others => .outcome fun _ _ h => h) fun _ _ _ h => h

/-! ### The combinator -/

/-- The children with their places in batches of one priority each. -/
def batchesIn (almanac : Almanac) (children : List Child) : List (List Spot) :=
  batchesBy (fun spot => spot.1.condition.effectivePriority almanac) children.zipIdx

theorem batches_branchesOf (almanac : Almanac) (children : List Child) :
    Schedule.batches almanac (branchesOf children) = (batchesIn almanac children).map batchOf := by
  have hzip : (branchesOf children).zipIdx = batchOf children.zipIdx := by
    refine List.ext_getElem? fun place => ?_
    simp only [branchesOf, batchOf, List.getElem?_zipIdx, List.getElem?_map, Option.map_map,
      Nat.zero_add]
    rfl
  rw [Schedule.batches, hzip, batchOf, batchesBy_map]
  rfl

/-- The ending of the strand of the child at a place. -/
def endingAt (children : List Child) (place : Nat) : Ending :=
  (children[place]?.map fun child => child.outcome.map Parceled.pack).getD (.error .stalled)

theorem sound_batchesIn {children : List Child}
    (hwork : ∀ child ∈ children, Within Unattended child.work) (almanac : Almanac) :
    ∀ spots ∈ batchesIn almanac children, Sound (endingAt children) spots := by
  intro spots hspots spot hspot
  refine ⟨hwork spot.1 (mem_of_mem_batch hspots hspot), ?_⟩
  rw [endingAt, getElem?_of_mem_batch hspots hspot]
  rfl

theorem nodup_placesOf (almanac : Almanac) (children : List Child) :
    (placesOf (batchesIn almanac children).flatten).Nodup := by
  have hperm := (batchesBy_perm (fun spot : Spot => spot.1.condition.effectivePriority almanac)
    children.zipIdx).map (·.2)
  rw [List.zipIdx_map_snd] at hperm
  exact hperm.nodup_iff.2 List.nodup_range'

theorem mayEnd_closed {result : Except Error ConditionResult} (hresult : errorOf? result = expected.2)
    (hat : At (charter expected endings) 0 (.root expected.1 []) ledger world) :
    MayEnd (charter expected endings) 0 result ledger world := by
  refine ⟨.closed expected.2, ⟨_, hat.account, .inr ⟨rfl, rfl⟩⟩, ?_, Roll.close hat.holds hat.account⟩
  rw [← hresult]
  cases result <;> rfl

/-- A combinator evaluates the children that it reaches, and comes to the failure that it reaches,
unless it has a single child. -/
theorem triple_runGiven (join : Join) {children : List Child} (hsize : children.length ≠ 1)
    (hwork : ∀ child ∈ children, Within Unattended child.work) (almanac : Almanac) :
    Triple (charter expected (endingAt children)) 0
      (At (charter expected (endingAt children)) 0 (.root [] []))
      (Schedule.runGiven join (Schedule.batches almanac (branchesOf children)) (branchesOf children))
      fun result ledger world => errorOf? result = (reach join (batchesIn almanac children)).2 ∧
        At (charter expected (endingAt children)) 0
          (.root (reach join (batchesIn almanac children)).1 []) ledger world := by
  have hbatches : Triple (charter expected (endingAt children)) 0 (At _ 0 (.root [] [])) _ _ :=
    triple_runBatches join (sound_batchesIn hwork almanac) (nodup_placesOf almanac children)
  rw [← batches_branchesOf] at hbatches
  match children with
  | [] => exact .outcome fun _ _ hat => ⟨rfl, hat⟩
  | [_] => exact absurd rfl hsize
  | _ :: _ :: _ => exact hbatches.bind (fun found => .outcome fun _ _ h => h) fun _ _ _ h => h

/-- When all of the children are over, they are those that the world took note of. -/
theorem Roll.perm_places (h : Roll expected ledger world)
    (hover : ∀ place stage, .child place stage ∈ ledger.accounts → stage = .finished) :
    world.begun.Perm (ledger.accounts.filterMap Account.place?) ∧
      world.ended.Perm (ledger.accounts.filterMap Account.place?) := by
  have hsame : ∀ account ∈ ledger.accounts,
      account.begun? = account.place? ∧ account.ended? = account.place? := by
    intro account haccount
    cases account with
    | child place stage =>
        rw [hover place stage haccount]
        exact ⟨rfl, rfl⟩
    | _ => exact ⟨rfl, rfl⟩
  refine ⟨?_, ?_⟩
  · rw [← List.filterMap_congr fun account haccount => (hsame account haccount).1]
    exact h.begun
  · rw [← List.filterMap_congr fun account haccount => (hsame account haccount).2]
    exact h.ended

variable {join : Join} {name : Option String} {priority : Priority}

/-- A combinator of several children keeps to the charter. -/
theorem triple_several {children : List Child} (hsize : children.length ≠ 1)
    (hwork : ∀ child ∈ children, Within Unattended child.work) {almanac : Almanac}
    (hreach : reach join (batchesIn almanac children) = expected) :
    Triple (charter expected (endingAt children)) 0
      (Begins (charter expected (endingAt children)) 0 (.root [] []))
      (Schedule.combineGiven join name priority (Schedule.batches almanac (branchesOf children))
        (branchesOf children)) (MayEnd (charter expected (endingAt children)) 0) := by
  have hrun : Triple (charter expected (endingAt children)) 0 _ _ _ :=
    triple_runGiven join hsize hwork almanac
  rw [hreach] at hrun
  refine Triple.imp ?_ (fun _ _ => at_of_begins) fun _ _ _ h => h
  refine triple_count_bind (hrun.bind (fun found => ?_) fun _ _ _ h => mayEnd_closed h.1 h.2)
  obtain ⟨verdict, results⟩ := found
  exact .pure fun _ _ h => mayEnd_closed h.1 h.2

/-- What a combinator has reached when it comes to its outcome, if it has several children. -/
theorem reach_of_several {children : List Child} (hsize : children.length ≠ 1)
    (hwork : ∀ child ∈ children, Within Unattended child.work) {almanac : Almanac}
    (hreach : reach join (batchesIn almanac children) = expected)
    (hbegun : world.begun = []) (hended : world.ended = [])
    {result : Except Error ConditionResult} {after : Attendance}
    (h : EndsIn world (Schedule.combineGiven join name priority
      (Schedule.batches almanac (branchesOf children)) (branchesOf children)) result after) :
    errorOf? result = expected.2 ∧ after.begun.Perm expected.1 ∧ after.ended.Perm expected.1 := by
  obtain ⟨turns, houtcome, rfl⟩ := h
  have hholds : Roll expected ⟨[.root [] []], 0⟩ world := by
    refine ⟨by rw [hbegun]; exact .refl _, by rw [hended]; exact .refl _, ?_, nofun, nofun⟩
    rintro past more hroot
    cases hroot
    exact ⟨rfl, nofun⟩
  obtain ⟨ledger, account, hroll, haccount, hle, hsettles⟩ :=
    (triple_several hsize hwork hreach).settled_of_outcome hholds houtcome
  have hseat := hle.elim (congrArg Account.seat) And.right
  cases account with
  | aside => cases hseat
  | child place stage => cases hseat
  | root past more => exact hsettles.elim
  | closed failure =>
      obtain ⟨hexpected, hover⟩ := Roll.closed hroll failure haccount
      have hfailure : errorOf? result = failure := by
        rw [← show errorOf? (result.map Parceled.pack) = failure from hsettles]
        cases result <;> rfl
      rw [← hexpected]
      exact ⟨hfailure, Roll.perm_places hroll hover⟩

/-- What a combinator of a single child comes to. -/
def soleOutcome (join : Join) (name : Option String) (priority : Priority) (child : Child) :
    Except Error ConditionResult :=
  child.outcome.map fun found => join.result ⟨some found.holds, some priority, name, none⟩ [found]

/-- A combinator of a single child keeps to the charter as the child does: the child has no strand
of its own. -/
theorem triple_single {child : Child} (hwork : Within Unattended child.work)
    {batches : List (Batch Attendance)}
    (hending : endings 0 = (soleOutcome join name priority child).map Parceled.pack) :
    Triple (charter expected endings) 0 (Begins (charter expected endings) 0 (.child 0 .waiting))
      (Schedule.combineGiven join name priority batches (branchesOf [child]))
      (MayEnd (charter expected endings) 0) := by
  have hend : ∀ ledger world, At (charter expected endings) 0 (.child 0 .finished) ledger world →
      MayEnd (charter expected endings) 0 (soleOutcome join name priority child) ledger world :=
    fun ledger world hat => ⟨_, Ledger.mayEnter_self hat.account, ⟨rfl, hending.symm⟩,
      (Ledger.enter_self hat.account).symm ▸ hat.holds⟩
  have hjoin : ∀ found : ConditionResult, Triple (charter expected endings) 0
      (fun ledger world => .ok found = child.outcome ∧
        At (charter expected endings) 0 (.child 0 .finished) ledger world)
      (Eval.outcome (.ok (join.result ⟨some found.holds, some priority, name, none⟩ [found])))
      (MayEnd (charter expected endings) 0) := by
    refine fun found => .outcome fun ledger world h => ?_
    rw [← show soleOutcome join name priority child = .ok _ by rw [soleOutcome, ← h.1]; rfl]
    exact hend ledger world h.2
  refine Triple.imp (triple_count_bind ((triple_child hwork).bind hjoin fun e ledger world h => ?_))
    (fun _ _ => at_of_begins) fun _ _ _ h => h
  rw [← show soleOutcome join name priority child = .error e by rw [soleOutcome, ← h.1]; rfl]
  exact hend ledger world h.2

/-- What a combinator has reached when it comes to its outcome, if it has a single child. -/
theorem reach_of_single {child : Child} (hwork : Within Unattended child.work)
    {batches : List (Batch Attendance)} (hbegun : world.begun = []) (hended : world.ended = [])
    {result : Except Error ConditionResult} {after : Attendance}
    (h : EndsIn world (Schedule.combineGiven join name priority batches (branchesOf [child]))
      result after) :
    errorOf? result = errorOf? child.outcome ∧ after.begun.Perm [0] ∧ after.ended.Perm [0] := by
  obtain ⟨turns, houtcome, rfl⟩ := h
  have hholds : Roll ([], none) ⟨[.child 0 .waiting], 0⟩ world := by
    refine ⟨by rw [hbegun]; exact .refl _, by rw [hended]; exact .refl _, nofun, nofun, ?_⟩
    rintro place stage hchild
    cases hchild
    rfl
  have hnode : Triple (charter ([], none) fun _ =>
      (soleOutcome join name priority child).map Parceled.pack) 0 _
      (Schedule.combineGiven join name priority batches (branchesOf [child])) _ :=
    triple_single hwork rfl
  obtain ⟨ledger, account, hroll, haccount, hle, hsettles⟩ :=
    hnode.settled_of_outcome hholds houtcome
  obtain ⟨stage, rfl⟩ := Account.exists_of_child_le hle
  obtain ⟨rfl, hending⟩ := hsettles
  have hplaces := Roll.alone hroll 0 .finished haccount
  have hperm := Roll.perm_places hroll fun place stage hchild => by
    have hplace : place = 0 := List.mem_singleton.1
      (hplaces ▸ List.mem_filterMap.2 ⟨_, hchild, rfl⟩)
    have hsame := eq_of_mem_of_nodup (f := Account.place?) (b := 0)
      (hplaces ▸ List.nodup_singleton 0) hchild (List.mem_of_getElem? haccount)
      (congrArg some hplace) rfl
    cases hsame
    rfl
  rw [hplaces] at hperm
  refine ⟨?_, hperm⟩
  rw [pack_injective hending, soleOutcome]
  cases child.outcome <;> rfl

theorem reach_singleton (almanac : Almanac) (child : Child) :
    reach join (batchesIn almanac [child]) = ([0], errorOf? child.outcome) := by
  have hfailure : failure? [(child, 0)] = errorOf? child.outcome := by
    rw [failure?, List.findSome?_cons]
    cases errorOf? child.outcome <;> rfl
  have hbatches : batchesIn almanac [child] = [[(child, 0)]] := batchesBy_singleton _ _
  rw [hbatches, reach, hfailure]
  split
  · rfl
  · next hopen =>
      rw [Bool.or_eq_true, not_or, Bool.not_eq_true, Option.isSome_eq_false_iff,
        Option.isNone_iff_eq_none] at hopen
      rw [hopen.1]
      rfl

/-- A combinator evaluates the children that it reaches, and comes to the failure that it reaches. -/
theorem reach_of_endsIn {children : List Child}
    (hwork : ∀ child ∈ children, Within Unattended child.work)
    (hbegun : world.begun = []) (hended : world.ended = [])
    {result : Except Error ConditionResult} {after : Attendance}
    (h : EndsIn world (Schedule.combine join name priority (branchesOf children)) result after) :
    errorOf? result = (reach join (batchesIn world.session.almanac children)).2 ∧
      after.begun.Perm (reach join (batchesIn world.session.almanac children)).1 ∧
        after.ended.Perm (reach join (batchesIn world.session.almanac children)).1 := by
  have hgiven := Schedule.endsIn_combineGiven h
  by_cases hsize : children.length = 1
  · obtain ⟨child, rfl⟩ := List.length_eq_one_iff.1 hsize
    rw [reach_singleton]
    exact reach_of_single (hwork child List.mem_cons_self) hbegun hended hgiven
  · exact reach_of_several hsize hwork rfl hbegun hended hgiven

end Attendance

end Rulebook
