import Rulebook.Proofs.Condition.Attendance

/-!
Which failure a combinator reports.

A combinator breaks at the lowest level at which a child fails or decides, if one fails there
(`Breaks`).  It reports the failure of the first of these children in the order of the definition;
all the children up to that level are evaluated, and none above it (`raises_iff`).  So a failure is
reported although a child beside it decides, and one behind a child that decides is not.
-/

namespace Rulebook.Attendance

open Session Eval Strand

variable {join : Join} {almanac : Almanac} {children : List Child} {spots : List Spot}

/-- The level at which a child is evaluated. -/
def Child.level (almanac : Almanac) (child : Child) : Nat :=
  child.condition.effectivePriority almanac

/-- No child fails or decides below the level, and one fails there. -/
structure Breaks (join : Join) (almanac : Almanac) (children : List Child) (level : Nat) :
    Prop where
  fails : ∃ child ∈ children, child.level almanac = level ∧ child.Fails
  before : ∀ child ∈ children, child.level almanac < level →
    ¬ child.Fails ∧ ¬ child.Decides join

/-- The child at a place is the first one that fails at a level. -/
structure FirstToFail (almanac : Almanac) (children : List Child) (level place : Nat) (e : Error) :
    Prop where
  fails : ∃ child, children[place]? = some child ∧ child.level almanac = level ∧
    child.outcome = .error e
  before : ∀ earlier < place, ∀ other, children[earlier]? = some other →
    other.level almanac = level → ¬ other.Fails

/-! ### Where a combinator stops -/

/-- A child that fails or decides. -/
def Stops (join : Join) (spot : Spot) : Prop := spot.1.Fails ∨ spot.1.Decides join

theorem isSome_failure? : (failure? spots).isSome = true ↔ ∃ spot ∈ spots, spot.1.Fails := by
  rw [failure?, List.findSome?_isSome_iff]
  refine exists_congr fun spot => and_congr_right fun _ => ?_
  rw [Option.isSome_iff_exists]
  exact exists_congr fun e => errorOf?_eq_some

theorem decided_iff : decided join spots = true ↔ ∃ spot ∈ spots, spot.1.Decides join := by
  rw [decided, List.any_eq_true]
  refine exists_congr fun spot => and_congr_right fun _ => ?_
  cases houtcome : spot.1.outcome with
  | error e => simp [Child.Decides, houtcome, Except.toOption]
  | ok result => simp [Child.Decides, houtcome, Except.toOption]

theorem stops_iff : ((failure? spots).isSome || decided join spots) = true ↔
    ∃ spot ∈ spots, Stops join spot := by
  rw [Bool.or_eq_true, isSome_failure?, decided_iff, ← exists_or]
  exact exists_congr fun spot => and_or_left.symm

/-- The combinator stops at a batch, with its first failure, if it has one. -/
structure StopsAt (join : Join) (batches before : List (List Spot)) (spots : List Spot)
    (after : List (List Spot)) : Prop where
  split : batches = before ++ spots :: after
  passed : ∀ spot ∈ before.flatten, ¬ Stops join spot
  stops : ∃ spot ∈ spots, Stops join spot
  reach : reach join batches = (placesOf (before.flatten ++ spots), failure? spots)

theorem placesOf_append (spots more : List Spot) :
    placesOf (spots ++ more) = placesOf spots ++ placesOf more :=
  List.map_append

/-- A combinator stops at the first batch with a child that fails or decides, if there is one. -/
theorem stopsAt_or (join : Join) (batches : List (List Spot)) :
    (∃ before spots after, StopsAt join batches before spots after) ∨
      (∀ spot ∈ batches.flatten, ¬ Stops join spot) ∧ (reach join batches).2 = none := by
  induction batches with
  | nil => exact .inr ⟨nofun, rfl⟩
  | cons spots rest ih =>
      by_cases hstops : ∃ spot ∈ spots, Stops join spot
      · refine .inl ⟨[], spots, rest, rfl, nofun, hstops, ?_⟩
        rw [Attendance.reach, if_pos (stops_iff.2 hstops)]
        rfl
      · have hopen : ∀ spot ∈ spots, ¬ Stops join spot := fun spot hspot hspots =>
          hstops ⟨spot, hspot, hspots⟩
        have hreach : reach join (spots :: rest) =
            (placesOf spots ++ (reach join rest).1, (reach join rest).2) := by
          rw [Attendance.reach, if_neg (mt stops_iff.1 hstops)]
        rcases ih with ⟨before, stop, after, h⟩ | ⟨hrest, hnone⟩
        · refine .inl ⟨spots :: before, stop, after, by rw [h.split]; rfl, ?_, h.stops, ?_⟩
          · rw [List.flatten_cons]
            exact List.forall_mem_append.2 ⟨hopen, h.passed⟩
          · rw [hreach, h.reach, List.flatten_cons, List.append_assoc, placesOf_append spots]
        · refine .inr ⟨?_, by rw [hreach, hnone]⟩
          rw [List.flatten_cons]
          exact List.forall_mem_append.2 ⟨hopen, hrest⟩

/-! ### Levels -/

theorem mem_batchesIn (almanac : Almanac) {spot : Spot} :
    spot ∈ (batchesIn almanac children).flatten ↔ children[spot.2]? = some spot.1 :=
  (batchesBy_perm _ children.zipIdx).mem_iff.trans List.mem_zipIdx_iff_getElem?

theorem exists_mem_batchesIn {child : Child} (h : child ∈ children) :
    ∃ place, (child, place) ∈ (batchesIn almanac children).flatten := by
  obtain ⟨place, hplace⟩ := List.mem_iff_getElem?.1 h
  exact ⟨place, (mem_batchesIn almanac).2 hplace⟩

section Stop

variable {before after : List (List Spot)} {level : Nat}

/-- The children before the batch at which a combinator stops are of lower levels, and those after
it of higher ones. -/
theorem StopsAt.levels (h : StopsAt join (batchesIn almanac children) before spots after)
    {stop : Spot} (hstop : stop ∈ spots) :
    (∀ spot ∈ before.flatten, spot.1.level almanac < stop.1.level almanac) ∧
      (∀ spot ∈ spots, spot.1.level almanac = stop.1.level almanac) ∧
        ∀ spot ∈ after.flatten, stop.1.level almanac < spot.1.level almanac := by
  have hascending := batchesBy_ascending (fun spot : Spot => spot.1.condition.effectivePriority
    almanac) children.zipIdx
  have hbatch : spots ∈ batchesIn almanac children := by
    rw [h.split]
    exact List.mem_append_right _ List.mem_cons_self
  rw [← batchesIn, h.split, List.pairwise_append, List.pairwise_cons] at hascending
  refine ⟨fun spot hspot => ?_, fun spot hspot => batchesBy_level hbatch hspot hstop,
    fun spot hspot => ?_⟩
  · obtain ⟨batch, hmem, hin⟩ := List.mem_flatten.1 hspot
    exact hascending.2.2 batch hmem spots List.mem_cons_self spot hin stop hstop
  · obtain ⟨batch, hmem, hin⟩ := List.mem_flatten.1 hspot
    exact hascending.2.1.1 batch hmem stop hstop spot hin

theorem StopsAt.mem_iff (h : StopsAt join (batchesIn almanac children) before spots after)
    {spot : Spot} : children[spot.2]? = some spot.1 ↔
      spot ∈ before.flatten ∨ spot ∈ spots ∨ spot ∈ after.flatten := by
  rw [← mem_batchesIn almanac, h.split, List.flatten_append, List.mem_append,
    List.flatten_cons, List.mem_append]

/-- A combinator breaks at the level of the batch at which it stops, if a child fails there. -/
theorem StopsAt.breaks (h : StopsAt join (batchesIn almanac children) before spots after)
    {stop : Spot} (hstop : stop ∈ spots) (hfails : stop.1.Fails) :
    Breaks join almanac children (stop.1.level almanac) := by
  obtain ⟨_, hsame, habove⟩ := h.levels hstop
  refine ⟨⟨stop.1, List.mem_of_getElem? (h.mem_iff.2 (.inr (.inl hstop))), rfl, hfails⟩,
    fun child hchild hlower => ?_⟩
  obtain ⟨place, hplace⟩ := List.mem_iff_getElem?.1 hchild
  rcases h.mem_iff.1 (show children[(child, place).2]? = some (child, place).1 from hplace) with
    hpassed | hmem | hmem
  · exact not_or.1 (h.passed _ hpassed)
  · exact absurd (hsame _ hmem) (Nat.ne_of_lt hlower)
  · exact absurd (habove _ hmem) (Nat.lt_asymm hlower)

/-- A combinator that breaks stops at the batch of that level, and a child fails there. -/
theorem StopsAt.of_breaks (h : StopsAt join (batchesIn almanac children) before spots after)
    (hbreaks : Breaks join almanac children level) :
    ∃ stop ∈ spots, stop.1.Fails ∧ stop.1.level almanac = level := by
  obtain ⟨stop, hstop, hstops⟩ := h.stops
  obtain ⟨_, hsame, habove⟩ := h.levels hstop
  obtain ⟨child, hchild, rfl, hfails⟩ := hbreaks.fails
  have hle : child.level almanac ≤ stop.1.level almanac := by
    refine Nat.le_of_not_lt fun hlt => ?_
    have hmem := List.mem_of_getElem? (h.mem_iff.2 (.inr (.inl hstop)))
    exact not_or.2 (hbreaks.before stop.1 hmem hlt) hstops
  obtain ⟨place, hplace⟩ := List.mem_iff_getElem?.1 hchild
  rcases h.mem_iff.1 (show children[(child, place).2]? = some (child, place).1 from hplace) with
    hpassed | hmem | hmem
  · exact absurd (.inl hfails) (h.passed _ hpassed)
  · exact ⟨_, hmem, hfails, rfl⟩
  · exact absurd (habove _ hmem) (Nat.not_lt.2 hle)

/-- The failure of the batch at which a combinator stops is that of its first child to fail. -/
theorem StopsAt.firstToFail (h : StopsAt join (batchesIn almanac children) before spots after)
    {e : Error} (hfailure : failure? spots = some e) {stop : Spot} (hstop : stop ∈ spots) :
    ∃ place, FirstToFail almanac children (stop.1.level almanac) place e := by
  obtain ⟨earlier, spot, later, rfl, hspot, hearlier⟩ := List.findSome?_eq_some_iff.1 hfailure
  obtain ⟨hbelow, hsame, habove⟩ := h.levels hstop
  have hmem : spot ∈ earlier ++ spot :: later := List.mem_append_right _ List.mem_cons_self
  have hbatch : earlier ++ spot :: later ∈ batchesIn almanac children := by
    rw [h.split]
    exact List.mem_append_right _ List.mem_cons_self
  have hplaces : (earlier ++ spot :: later).Pairwise fun first second => first.2 < second.2 := by
    refine List.Pairwise.sublist (batchesBy_sublist hbatch) (List.pairwise_map.1 ?_)
    rw [List.zipIdx_map_snd]
    exact List.pairwise_lt_range'
  refine ⟨spot.2, ⟨spot.1, h.mem_iff.2 (.inr (.inl hmem)), hsame spot hmem,
    errorOf?_eq_some.1 hspot⟩, ?_⟩
  rintro place hplace other hother hlevel ⟨cause, hcause⟩
  have hin : (other, place) ∈ earlier ++ spot :: later := by
    rcases h.mem_iff.1 (show children[(other, place).2]? = some (other, place).1 from hother) with
      hpassed | hin | hlater
    · exact absurd hlevel (Nat.ne_of_lt (hbelow _ hpassed))
    · exact hin
    · exact absurd hlevel (Nat.ne_of_gt (habove _ hlater))
  rcases List.mem_append.1 hin with hbefore | hafter
  · exact nomatch (hearlier _ hbefore).symm.trans (errorOf?_eq_some.2 hcause)
  · rw [List.pairwise_append, List.pairwise_cons] at hplaces
    rcases List.mem_cons.1 hafter with rfl | hlater
    · exact Nat.lt_irrefl _ hplace
    · exact Nat.lt_asymm hplace (hplaces.2.1.1 _ hlater)

/-- The children up to the batch at which a combinator stops are those up to its level. -/
theorem StopsAt.mem_places_iff (h : StopsAt join (batchesIn almanac children) before spots after)
    {stop : Spot} (hstop : stop ∈ spots) {place : Nat} {child : Child}
    (hchild : children[place]? = some child) :
    place ∈ placesOf (before.flatten ++ spots) ↔
      child.level almanac ≤ stop.1.level almanac := by
  obtain ⟨hbelow, hsame, habove⟩ := h.levels hstop
  constructor
  · intro hplace
    obtain ⟨spot, hspot, rfl⟩ := List.mem_map.1 hplace
    have hfound := h.mem_iff.2 ((List.mem_append.1 hspot).imp_right .inl)
    obtain rfl := Option.some.inj (hchild.symm.trans hfound)
    rcases List.mem_append.1 hspot with hpassed | hin
    · exact Nat.le_of_lt (hbelow spot hpassed)
    · exact Nat.le_of_eq (hsame spot hin)
  · intro hle
    refine List.mem_map.2 ⟨(child, place), ?_, rfl⟩
    rcases h.mem_iff.1 (show children[(child, place).2]? = some (child, place).1 from hchild) with
      hpassed | hin | hlater
    · exact List.mem_append_left _ hpassed
    · exact List.mem_append_right _ hin
    · exact absurd (habove _ hlater) (Nat.not_lt.2 hle)

theorem StopsAt.nodup_places (h : StopsAt join (batchesIn almanac children) before spots after) :
    (placesOf (before.flatten ++ spots)).Nodup := by
  have hnodup := nodup_placesOf almanac children
  rw [h.split, List.flatten_append, List.flatten_cons, ← List.append_assoc, placesOf_append] at hnodup
  exact (List.nodup_append.1 hnodup).1

end Stop

/-! ### What a combinator reports -/

/-- The work of the children comes to an end, whatever is counted and taken note of meanwhile. -/
structure Finite (inv : Invariant Attendance Ending) (rank : ℕ∞) (children : List Child)
    (world : Attendance) : Prop where
  counts : TallyFree inv
  marks : ∀ pledges world begun ended, inv pledges world →
    inv pledges { world with begun := begun, ended := ended }
  bounded : rank ≠ ⊤
  ends : ∀ child ∈ children, Ensures inv rank child.work fun _ => True
  holds : ∀ pledges, inv pledges world

variable {name : Option String} {priority : Priority} {world : Attendance}

/-- A combinator comes to an end, if the work of its children does. -/
theorem Finite.exists_endsIn {inv : Invariant Attendance Ending} {rank : ℕ∞}
    (h : Finite inv rank children world) (join : Join) (name : Option String) (priority : Priority) :
    ∃ result after,
      EndsIn world (Schedule.combine join name priority (branchesOf children)) result after := by
  have hrun : ∀ branch ∈ branchesOf children, Ensures inv rank branch.run fun result =>
      ∀ found, result = .ok found → found.isSkipped = false := by
    intro branch hbranch
    obtain ⟨⟨child, place⟩, hspot, rfl⟩ := List.mem_map.1 hbranch
    have hchild := List.mem_of_getElem? (List.mem_zipIdx_iff_getElem?.1 hspot)
    refine (Ensures.modify fun pledges world => h.marks pledges world _ _).bind (fun _ _ => ?_)
      fun _ he => nomatch he
    refine (h.ends child hchild).attempt.bind (fun _ _ => ?_) fun _ he => nomatch he
    refine (Ensures.modify fun pledges world => h.marks pledges world _ _).bind (fun _ _ => ?_)
      fun _ he => nomatch he
    exact Ensures.outcome child.evaluated
  have hnode : Ensures inv (rank + 1)
      (Schedule.combine join name priority (branchesOf children)) fun _ => True := by
    refine ensures_count_bind h.counts rfl ((Schedule.ensures_run h.counts join
      (fun _ result hpost => hpost result rfl) hrun).bind (fun _ _ => ?_) fun _ _ => trivial)
    exact Ensures.pure trivial
  obtain ⟨result, hyields, _⟩ := hnode.exists_yields
    (by simpa using h.bounded) (h.holds _)
  exact ⟨result, hyields.exists_endsIn⟩

/-- A combinator comes to an end; it fails if and only if it breaks at a level, with the failure of
the first child to fail there, after each child up to that level was evaluated once and none above
it. -/
theorem raises_iff {inv : Invariant Attendance Ending} {rank : ℕ∞}
    (hfinite : Finite inv rank children world)
    (hwork : ∀ child ∈ children, Within Unattended child.work)
    (hbegun : world.begun = []) (hended : world.ended = []) (join : Join) (name : Option String)
    (priority : Priority) :
    (∃ result after,
      EndsIn world (Schedule.combine join name priority (branchesOf children)) result after) ∧
    ∀ result after,
      EndsIn world (Schedule.combine join name priority (branchesOf children)) result after →
      ((∃ e, result = .error e) ↔ ∃ level, Breaks join world.session.almanac children level) ∧
      ∀ level, Breaks join world.session.almanac children level →
        (∃ place e, FirstToFail world.session.almanac children level place e ∧
          result = .error e) ∧
        ∀ place child, children[place]? = some child →
          (child.level world.session.almanac ≤ level →
            after.begun.count place = 1 ∧ after.ended.count place = 1) ∧
          (level < child.level world.session.almanac → place ∉ after.begun) := by
  refine ⟨hfinite.exists_endsIn join name priority, fun result after hends => ?_⟩
  obtain ⟨hresult, hbegun, hended⟩ := reach_of_endsIn hwork hbegun hended hends
  rcases stopsAt_or join (batchesIn world.session.almanac children) with
    ⟨before, spots, later, hstops⟩ | ⟨hopen, hreach⟩
  · rw [hstops.reach] at hresult hbegun hended
    have hfailed : ∀ stop ∈ spots, stop.1.Fails →
        ∃ e, failure? spots = some e ∧ result = .error e := by
      intro stop hstop hfails
      obtain ⟨e, he⟩ := Option.isSome_iff_exists.1 (isSome_failure?.2 ⟨stop, hstop, hfails⟩)
      exact ⟨e, he, errorOf?_eq_some.1 (hresult.trans he)⟩
    refine ⟨⟨?_, ?_⟩, fun level hbreaks => ?_⟩
    · rintro ⟨e, he⟩
      have hfailure : failure? spots = some e := hresult.symm.trans (errorOf?_eq_some.2 he)
      obtain ⟨stop, hstop, hfails⟩ := isSome_failure?.1 (Option.isSome_iff_exists.2 ⟨e, hfailure⟩)
      exact ⟨_, hstops.breaks hstop hfails⟩
    · rintro ⟨level, hbreaks⟩
      obtain ⟨stop, hstop, hfails, _⟩ := hstops.of_breaks hbreaks
      obtain ⟨e, _, he⟩ := hfailed stop hstop hfails
      exact ⟨e, he⟩
    · obtain ⟨stop, hstop, hfails, rfl⟩ := hstops.of_breaks hbreaks
      obtain ⟨e, hfailure, he⟩ := hfailed stop hstop hfails
      obtain ⟨place, hfirst⟩ := hstops.firstToFail hfailure hstop
      refine ⟨⟨place, e, hfirst, he⟩, fun place child hchild => ⟨fun hle => ?_, fun hlt hmem => ?_⟩⟩
      · have hplace := (hstops.mem_places_iff hstop hchild).2 hle
        rw [hbegun.count_eq, hended.count_eq, List.count_eq_one_of_mem hstops.nodup_places hplace]
        exact ⟨rfl, rfl⟩
      · exact Nat.not_lt.2 ((hstops.mem_places_iff hstop hchild).1 (hbegun.mem_iff.1 hmem)) hlt
  · have hnever : ∀ level, ¬ Breaks join world.session.almanac children level := by
      rintro level ⟨⟨child, hchild, _, hfails⟩, _⟩
      obtain ⟨place, hplace⟩ := exists_mem_batchesIn hchild
      exact hopen _ hplace (.inl hfails)
    refine ⟨⟨?_, fun ⟨level, hbreaks⟩ => absurd hbreaks (hnever level)⟩,
      fun level hbreaks => absurd hbreaks (hnever level)⟩
    rintro ⟨e, rfl⟩
    exact nomatch hresult.trans hreach

/-! ### A child that fails beside one that decides -/

/-- A child that is a reference, and waits for a turn. -/
def waiting (target : String) (priority : Priority) (outcome : Except Error Bool) : Child where
  condition := .reference target none (some priority)
  work := Eval.pause
  outcome := outcome.map fun verdict => .reference ⟨some verdict, some priority, none, some target⟩
  evaluated result h := by
    cases outcome with
    | error e => cases h
    | ok verdict =>
        cases h
        rfl

/-- A child that decides for `any`, one beside it that fails, and one behind them that fails. -/
def trio : List Child :=
  [waiting "decisive" Priority.first (.ok true),
    waiting "faulty" Priority.first (.error (.undefinedFact (.str "ghost"))),
    waiting "late" ⟨4, by decide⟩ (.error (.undefinedFact (.str "shade")))]

/-- Nobody has begun. -/
def opening : Attendance := ⟨⟨Almanac.empty, Registry.empty, none, []⟩, [], []⟩

theorem forall_trio {holds : Child → Prop}
    (h : ∀ target priority outcome, holds (waiting target priority outcome)) :
    ∀ child ∈ trio, holds child :=
  List.forall_mem_cons.2 ⟨h _ _ _, List.forall_mem_cons.2 ⟨h _ _ _,
    List.forall_mem_singleton.2 (h _ _ _)⟩⟩

theorem finite_trio : Finite (Invariant.ofWorld fun _ => True) 0 trio opening where
  counts _ _ _ _ _ _ := trivial
  marks _ _ _ _ _ := trivial
  bounded := ENat.zero_ne_top
  ends := forall_trio fun _ _ _ => Ensures.pause.imp fun _ _ => trivial
  holds _ := trivial

theorem breaks_trio : Breaks .any opening.session.almanac trio 1 where
  fails := ⟨trio[1], List.mem_cons_of_mem _ List.mem_cons_self, rfl, _, rfl⟩
  before := forall_trio fun _ priority _ hlower =>
    absurd priority.one_le (Nat.not_le.2 hlower)

theorem firstToFail_trio {place : Nat} {e : Error}
    (h : FirstToFail opening.session.almanac trio 1 place e) :
    e = .undefinedFact (.str "ghost") := by
  obtain ⟨child, hchild, hlevel, houtcome⟩ := h.fails
  match place with
  | 0 =>
      cases hchild
      cases houtcome
  | 1 =>
      cases hchild
      cases houtcome
      rfl
  | 2 =>
      cases hchild
      cases hlevel
  | _ + 3 => cases hchild

theorem raises_iff_trio :
    (∃ result after, EndsIn opening
      (Schedule.combine .any none Priority.first (branchesOf trio)) result after) ∧
    ∀ result after, EndsIn opening
      (Schedule.combine .any none Priority.first (branchesOf trio)) result after →
        result = .error (.undefinedFact (.str "ghost")) ∧ after.ended.count 0 = 1 ∧
          2 ∉ after.begun := by
  obtain ⟨hends, hall⟩ := raises_iff finite_trio
    (forall_trio fun _ _ _ => Within.pause) rfl rfl .any none Priority.first
  refine ⟨hends, fun result after hafter => ?_⟩
  obtain ⟨_, hbreaks⟩ := hall result after hafter
  obtain ⟨⟨place, e, hfirst, rfl⟩, hchildren⟩ := hbreaks 1 breaks_trio
  refine ⟨congrArg Except.error (firstToFail_trio hfirst), ?_, ?_⟩
  · exact ((hchildren 0 _ rfl).1 (Nat.le_refl 1)).2
  · exact (hchildren 2 _ rfl).2 (by decide)

end Rulebook.Attendance
