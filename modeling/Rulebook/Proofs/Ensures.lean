import Rulebook.Eval
import Rulebook.Proofs.Strand.Soundness

/-!
What a step ensures.

`Ensures inv rank step post` says that a step keeps the invariant whenever it gives others a turn,
and that its result satisfies `post`, in any strand of at least the given rank and whatever else
goes on beside it.  Steps of infinite rank may wait for ever; a step of finite rank comes to a
result (`Ensures.exists_yields`).  There is one rule for each way to make a step from others.
-/

namespace Rulebook.Eval

open Strand

variable {σ α β : Type} {inv : Invariant σ Ending} {rank : ℕ∞}

/-- A step keeps the invariant, and what comes out of it satisfies `post`. -/
def Ensures (inv : Invariant σ Ending) (rank : ℕ∞) (step : Eval σ α)
    (post : Except Error α → Prop) : Prop :=
  ∀ own next pledges world, rank ≤ own.rank → inv pledges world →
    (∀ result, post result → Lasting inv pledges (Keeps inv (next result) own)) →
      Keeps inv (step next) own pledges world

/-- The pledge of a strand that makes a step. -/
def pledge [Parceled α] (rank : ℕ∞) (post : Except Error α → Prop) : Pledge Ending where
  rank := rank
  holds ending := ∃ result, ending = result.map Parceled.pack ∧ post result

namespace Ensures

variable {step : Eval σ α} {post : Except Error α → Prop}

theorem imp (h : Ensures inv rank step post) {weaker : Except Error α → Prop}
    (hpost : ∀ result, post result → weaker result) : Ensures inv rank step weaker :=
  fun own next pledges world hrank hinv hnext =>
    h own next pledges world hrank hinv fun result hresult => hnext result (hpost result hresult)

theorem raise (h : Ensures inv rank step post) {higher : ℕ∞} (hle : rank ≤ higher) :
    Ensures inv higher step post :=
  fun own next pledges world hrank => h own next pledges world (hle.trans hrank)

theorem outcome {result : Except Error α} (h : post result) :
    Ensures inv rank (Eval.outcome result) post :=
  fun _ _ pledges world _ hinv hnext => hnext result h pledges world List.prefix_rfl hinv

theorem pure {a : α} (h : post (.ok a)) : Ensures inv rank (Pure.pure a : Eval σ α) post :=
  outcome h

theorem throw {e : Error} (h : post (.error e)) :
    Ensures inv rank (MonadExcept.throw e : Eval σ α) post :=
  outcome h

/-- A step and, unless it fails, another one. -/
theorem bind {rest : α → Eval σ β} {last : Except Error β → Prop}
    (h : Ensures inv rank step post) (hok : ∀ a, post (.ok a) → Ensures inv rank (rest a) last)
    (herror : ∀ e, post (.error e) → last (.error e)) :
    Ensures inv rank (step >>= rest) last := by
  intro own next pledges world hrank hinv hnext
  apply h own _ pledges world hrank hinv
  intro result hresult later world hlater hworld
  cases result with
  | ok a =>
      exact hok a hresult own next later world hrank hworld fun result hlast =>
        (hnext result hlast).mono hlater
  | error e => exact hnext (.error e) (herror e hresult) later world hlater hworld

theorem attempt (h : Ensures inv rank step post) :
    Ensures inv rank step.attempt fun outcome => ∃ result, outcome = .ok result ∧ post result :=
  fun own _ pledges world hrank hinv hnext =>
    h own _ pledges world hrank hinv fun result hresult => hnext _ ⟨result, rfl, hresult⟩

/-- A step that looks at the world first. -/
theorem get_bind {rest : σ → Eval σ α} (holds : σ → Prop)
    (hget : ∀ pledges world, inv pledges world → holds world)
    (hrest : ∀ world, holds world → Ensures inv rank (rest world) post) :
    Ensures inv rank (MonadState.get >>= rest) post :=
  fun own next pledges world hrank hinv hnext =>
    hrest world (hget pledges world hinv) own next pledges world hrank hinv hnext

theorem modify {change : σ → σ}
    (h : ∀ pledges world, inv pledges world → inv pledges (change world)) :
    Ensures inv rank (modify change : Eval σ Unit) (· = .ok ()) :=
  fun _ _ pledges world _ hinv hnext =>
    hnext (.ok ()) rfl pledges (change world) List.prefix_rfl (h pledges world hinv)

theorem pause : Ensures inv rank (Eval.pause : Eval σ Unit) (· = .ok ()) :=
  fun _ _ _ _ _ hinv hnext => ⟨hinv, hnext (.ok ()) rfl⟩

variable [Parceled α] [Parceled β]

/-- A strand that makes the step keeps the pledge of it. -/
theorem strand (h : Ensures inv rank step post) (pledges : Pledges Ending) :
    Lasting inv pledges (Keeps inv step.strand (pledge rank post)) :=
  fun later world _ hinv => h _ _ later world le_rfl hinv fun result hresult _ _ _ hworld =>
    ⟨⟨result, rfl, hresult⟩, hworld⟩

/-- A step in a strand of its own, of whose ending the world hears. -/
theorem spawn (h : Ensures inv rank step post) {change : Ending → σ → σ} {own : ℕ∞}
    (hchange : ∀ ending pledges world, inv pledges world → inv pledges (change ending world)) :
    Ensures inv own (Eval.spawn step change) fun result => ∃ number, result = .ok number := by
  intro owner next pledges world _ hinv hnext
  have hmore : pledges <+: pledges ++ [pledge rank post] := List.prefix_append _ _
  refine ⟨pledge rank post, h.strand _, ?_, ?_⟩
  · intro ending _ later world _
    exact hchange ending later world
  · exact hnext _ ⟨_, rfl⟩ _ world hmore (inv.mono hmore hinv)

/-- A strand that may wait for ever may wait for any strand. -/
theorem join (number : Nat) : Ensures inv ⊤ (Eval.join number : Eval σ α) fun _ => True :=
  fun _ _ _ _ hrank hinv hnext =>
    ⟨hinv, .inl (top_le_iff.1 hrank), fun _ _ later world hlater hworld _ =>
      hnext _ trivial later world hlater hworld⟩

/-- Steps side by side, started one after the other. -/
theorem keeps_spawnEach {own : Pledge Ending} {children : List (Strand σ Ending)}
    {childPledges : List (Pledge Ending)}
    (hchildren : List.Forall₂ (fun child pledge => ∀ pledges, Lasting inv pledges
      (Keeps inv child pledge)) children childPledges)
    {next : List Nat → Strand σ Ending} {pledges : Pledges Ending} {world : σ}
    (hnext : Keeps inv (next (List.range' pledges.length children.length)) own
      (pledges ++ childPledges) world) :
    Keeps inv (Strand.spawnEach children next) own pledges world := by
  induction hchildren generalizing next pledges with
  | nil => simpa [Strand.spawnEach] using hnext
  | @cons child pledge children childPledges hchild _ ih =>
      refine ⟨pledge, hchild _, ih ?_⟩
      simpa [List.range'_succ] using hnext

/-- What comes out of the strands that made steps. -/
theorem forall₂_received {ι : Type} {items : List ι} {post : ι → Except Error α → Prop}
    {pledges later : Pledges Ending}
    (hlater : pledges ++ items.map (fun item => pledge rank (post item)) <+: later)
    {known : List (Option Ending)}
    (hadmits : AdmitsEach later (List.range' pledges.length items.length) known)
    (hall : known.all Option.isSome = true) :
    List.Forall₂ post items (known.map received) := by
  induction items generalizing pledges known with
  | nil =>
      cases hadmits
      exact .nil
  | cons item items ih =>
      rw [List.length_cons, List.range'_succ] at hadmits
      cases hadmits with
      | @cons _ first _ rest hfirst hrest =>
          rw [List.all_cons, Bool.and_eq_true] at hall
          obtain ⟨ending, rfl⟩ := Option.isSome_iff_exists.1 hall.1
          obtain ⟨found, hfound, hholds⟩ := hfirst ending rfl
          have hpledge : later[pledges.length]? = some (pledge rank (post item)) :=
            getElem?_mono hlater (by simp)
          obtain rfl := Option.some.inj (hfound.symm.trans hpledge)
          obtain ⟨result, rfl, hresult⟩ := hholds
          have hrest' : AdmitsEach later
              (List.range' (pledges ++ [pledge rank (post item)]).length items.length) rest := by
            rw [List.length_append, List.length_singleton]
            exact hrest
          exact .cons (by rwa [received_pack]) (ih (by simpa using hlater) hrest' hall.2)

/-- Whoever waits for all of the strands that make steps waits for strands of their rank. -/
theorem mayAwait_range' {own : Pledge Ending} (pledges more : Pledges Ending)
    (hrank : rank + 1 ≤ own.rank) (hmore : ∀ pledge ∈ more, pledge.rank = rank)
    {enough : List (Option Ending) → Bool}
    (henough : ∀ known, known.length = more.length → known.all Option.isSome = true →
      enough known = true) :
    MayAwait own (pledges ++ more) (List.range' pledges.length more.length) enough := by
  by_cases htop : own.rank = ⊤
  · exact .inl htop
  · refine .inr ⟨fun strand hstrand => ?_, ?_⟩
    · obtain ⟨place, hplace, rfl⟩ := List.mem_range'.1 hstrand
      refine ⟨more[place], by simp [hplace], ?_⟩
      rw [hmore _ (List.getElem_mem hplace)]
      exact (ENat.add_one_le_iff fun h => htop (top_le_iff.1 (by simpa [h] using hrank))).1 hrank
    · simpa using henough

/-- Steps side by side, each of which comes to an outcome. -/
theorem each {ι : Type} {items : List ι} {make : ι → Eval σ α} {post : ι → Except Error α → Prop}
    (h : ∀ item ∈ items, Ensures inv rank (make item) (post item)) :
    Ensures inv (rank + 1) (Eval.each (items.map make)) fun result =>
      ∃ outcomes, result = .ok outcomes ∧ List.Forall₂ post items outcomes := by
  intro own next pledges world hrank hinv hnext
  have hchildren : List.Forall₂ (fun child pledge => ∀ pledges, Lasting inv pledges
      (Keeps inv child pledge)) ((items.map make).map Eval.strand)
      (items.map fun item => pledge rank (post item)) := by
    rw [List.map_map, List.forall₂_map_left_iff, List.forall₂_map_right_iff, List.forall₂_same]
    exact fun item hitem pledges => (h item hitem).strand pledges
  apply keeps_spawnEach hchildren
  rw [List.length_map, List.length_map]
  have hawait : MayAwait own (pledges ++ items.map fun item => pledge rank (post item))
      (List.range' pledges.length items.length) fun known => known.all Option.isSome := by
    have hranks : ∀ found ∈ items.map fun item => pledge rank (post item), found.rank = rank := by
      intro found hfound
      obtain ⟨item, _, rfl⟩ := List.mem_map.1 hfound
      rfl
    simpa using mayAwait_range' pledges _ hrank hranks fun known _ hknown => hknown
  refine ⟨inv.mono (List.prefix_append _ _) hinv, hawait, fun known hknown later world hlater hworld
    hadmits => ?_⟩
  exact hnext _ ⟨_, rfl, forall₂_received hlater hadmits hknown⟩ later world
    ((List.prefix_append _ _).trans hlater) hworld

/-- What comes out of two steps side by side: a failure of one of them, or what came out of both. -/
def Both (first : Except Error α → Prop) (second : Except Error β → Prop) :
    Except Error (α × β) → Prop
  | .ok (a, b) => first (.ok a) ∧ second (.ok b)
  | .error e => first (.error e) ∨ second (.error e)

theorem exists_of_admits {pledges : Pledges Ending} {number : Nat}
    (hpledge : pledges[number]? = some (pledge rank post)) {ending : Ending}
    (h : Admits pledges number ending) :
    ∃ outcome, ending = outcome.map Parceled.pack ∧ post outcome := by
  obtain ⟨found, hfound, hholds⟩ := h
  rw [hpledge, Option.some.injEq] at hfound
  rw [← hfound] at hholds
  exact hholds

/-- Of two strands that made steps, either one has failed or both have succeeded. -/
theorem both_paired {first : Except Error α → Prop} {second : Except Error β → Prop}
    {left right : Option Ending}
    (hleft : ∀ ending, left = some ending →
      ∃ outcome, ending = outcome.map Parceled.pack ∧ first outcome)
    (hright : ∀ ending, right = some ending →
      ∃ outcome, ending = outcome.map Parceled.pack ∧ second outcome)
    (henough : ([left, right].any (fun ending => (failure? ending).isSome) ||
      [left, right].all Option.isSome) = true) :
    Both first second (paired [left, right]) := by
  cases left with
  | none =>
      cases right with
      | none => simp [failure?] at henough
      | some ending =>
          obtain ⟨outcome, rfl, houtcome⟩ := hright ending rfl
          cases outcome with
          | ok b => simp [failure?, Except.map] at henough
          | error e => exact .inr houtcome
  | some ending =>
      obtain ⟨outcome, rfl, houtcome⟩ := hleft ending rfl
      cases outcome with
      | error e => exact .inl houtcome
      | ok a =>
          cases right with
          | none => simp [failure?, Except.map] at henough
          | some ending =>
              obtain ⟨other, rfl, hother⟩ := hright ending rfl
              cases other with
              | error e => exact .inr hother
              | ok b =>
                  have hpaired : paired [some ((Except.ok a : Except Error α).map Parceled.pack),
                      some ((Except.ok b : Except Error β).map Parceled.pack)] = .ok (a, b) := by
                    change (do return (← received _, ← received _)) = _
                    rw [received_pack, received_pack]
                    rfl
                  rw [hpaired]
                  exact ⟨houtcome, hother⟩

/-- Two steps side by side. -/
theorem both {other : Eval σ β} {last : Except Error β → Prop} (h : Ensures inv rank step post)
    (hother : Ensures inv rank other last) :
    Ensures inv (rank + 1) (Eval.both step other) (Both post last) := by
  intro own next pledges world hrank hinv hnext
  have hchildren : List.Forall₂ (fun child pledge => ∀ pledges, Lasting inv pledges
      (Keeps inv child pledge)) [step.strand, other.strand] [pledge rank post, pledge rank last] :=
    .cons (fun pledges => h.strand pledges) (.cons (fun pledges => hother.strand pledges) .nil)
  apply keeps_spawnEach hchildren
  refine ⟨inv.mono (List.prefix_append _ _) hinv, ?_, ?_⟩
  · refine mayAwait_range' pledges [pledge rank post, pledge rank last] hrank (by simp [pledge])
      fun known _ hknown => ?_
    rw [hknown, Bool.or_true]
  · intro known hknown later world hlater hworld hadmits
    cases hadmits with
    | @cons _ left _ _ hleft hrest =>
        cases hrest with
        | @cons _ right _ _ hright hnil =>
            cases hnil
            have hfirst : later[pledges.length]? = some (pledge rank post) :=
              getElem?_mono hlater (by simp)
            have hsecond : later[pledges.length + 1]? = some (pledge rank last) :=
              getElem?_mono hlater (by simp)
            have hpaired : Both post last (paired [left, right]) := by
              apply both_paired _ _ hknown
              · intro ending hending
                exact exists_of_admits hfirst (hleft ending hending)
              · intro ending hending
                exact exists_of_admits hsecond (hright ending hending)
            exact hnext _ hpaired later world ((List.prefix_append _ _).trans hlater) hworld

end Ensures

/-! ### What comes out in the end -/

/-- A step that is made in a world, with whatever it starts, comes to this result. -/
def Yields [Parceled α] (world : σ) (step : Eval σ α) (result : Except Error α) : Prop :=
  ∃ turns, ((Loop.start world step.strand).run turns).outcome? 0 =
    some (result.map Parceled.pack)

/-- A step that is made in a world, with whatever it starts, has come to this result when the world
is this one. -/
def EndsIn [Parceled α] (world : σ) (step : Eval σ α) (result : Except Error α) (after : σ) : Prop :=
  ∃ turns, ((Loop.start world step.strand).run turns).outcome? 0 =
      some (result.map Parceled.pack) ∧
    ((Loop.start world step.strand).run turns).world = after

section Yields

variable [Parceled α] {world : σ} {step : Eval σ α} {post : Except Error α → Prop}

theorem pack_injective {first second : Except Error α}
    (h : first.map Parceled.pack = second.map Parceled.pack) : first = second := by
  rw [← received_pack first, h, received_pack]

/-- Steps of which the first turn is the same come to the same. -/
theorem EndsIn.congr {other : Eval σ α} {result : Except Error α} {after : σ}
    (h : EndsIn world step result after)
    (hfirst : ∀ loop : Loop σ Ending, loop.world = world →
      Loop.follow 0 step.strand loop = Loop.follow 0 other.strand loop) :
    EndsIn world other result after := by
  obtain ⟨turns, hresult, hafter⟩ := h
  cases turns with
  | zero => cases hresult
  | succ turns =>
      have hsame : (Loop.start world step.strand).run (turns + 1) =
          (Loop.start world other.strand).run (turns + 1) :=
        congrArg (Loop.run turns) (hfirst ⟨world, [], [⟨none, []⟩], []⟩ rfl)
      exact ⟨turns + 1, hsame ▸ hresult, hsame ▸ hafter⟩

theorem Yields.exists_endsIn {result : Except Error α} (h : Yields world step result) :
    ∃ after, EndsIn world step result after := by
  obtain ⟨turns, hturns⟩ := h
  exact ⟨_, turns, hturns, rfl⟩

/-- Whatever a step comes to is as it ensures. -/
theorem Ensures.post_of_yields (h : Ensures inv rank step post)
    (hinv : inv [pledge rank post] world) {result : Except Error α}
    (hresult : Yields world step result) : post result := by
  obtain ⟨turns, hturns⟩ := hresult
  obtain ⟨found, hfound, hpost⟩ := Loop.holds_of_outcome? hinv (h.strand _) hturns
  rwa [pack_injective hfound]

/-- A step of finite rank comes to a result. -/
theorem Ensures.exists_yields (h : Ensures inv rank step post) (hrank : rank ≠ ⊤)
    (hinv : inv [pledge rank post] world) : ∃ result, Yields world step result ∧ post result := by
  obtain ⟨turns, ending, hturns⟩ := Loop.exists_outcome? hinv (h.strand _) hrank
  obtain ⟨result, rfl, hpost⟩ := Loop.holds_of_outcome? hinv (h.strand _) hturns
  exact ⟨result, ⟨turns, hturns⟩, hpost⟩

/-- A run that yields something tells what the step comes to. -/
theorem yields_of_run {a : α} (hinv : inv [pledge rank post] world) (h : Ensures inv rank step post)
    (hrun : (Eval.run world step).1 = .ok a) : Yields world step (.ok a) := by
  refine ⟨turnLimit, ?_⟩
  rw [run] at hrun
  cases houtcome : ((Loop.start world step.strand).run turnLimit).outcome? 0 with
  | none => simp [houtcome, received] at hrun
  | some ending =>
      obtain ⟨result, rfl, _⟩ := Loop.holds_of_outcome? hinv (h.strand _) houtcome
      simp only [houtcome, received_pack] at hrun
      rw [hrun]

end Yields

end Rulebook.Eval
