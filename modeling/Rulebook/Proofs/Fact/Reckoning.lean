import Rulebook.Proofs.Fact.Signature
import Rulebook.Session

/-!
What facts are worth, whatever is remembered.

A reckoning says which value a computed fact has for which parameters; `Reckoning.answer` is the
answer to a request according to it, without a cache and without anything being computed.  It is
sound for an almanac if every computation returns the value that is reckoned, given that its own
requests are answered so.
-/

namespace Rulebook

/-- A computation returns a value and never fails, if its requests are answered like this.  All of
them are permitted ones, and the value does not depend on how many calls were noted before. -/
inductive Program.Returns (answer : FactRequest → Except Error Value)
    (permitted : FactRequest → Prop) : Program → Value → Prop where
  | done (value : Value) : Returns answer permitted (.done value) value
  | ask {request : FactRequest} {next : Except Error Value → Program} {value : Value}
      (asks : permitted request) (goesOn : Returns answer permitted (next (answer request)) value) :
      Returns answer permitted (.ask request next) value
  | note {label : String} {params : Value} {next : Nat → Program} {value : Value}
      (goesOn : ∀ n, Returns answer permitted (next n) value) :
      Returns answer permitted (.note label params next) value
  | pause {next : Program} {value : Value} (goesOn : Returns answer permitted next value) :
      Returns answer permitted (.pause next) value

/-- The requests that a computation makes, if they are answered like this. -/
inductive Program.Asks (answer : FactRequest → Except Error Value) :
    Program → List FactRequest → Prop where
  | done (value : Value) : Asks answer (.done value) []
  | ask {request : FactRequest} {next : Except Error Value → Program} {asked : List FactRequest}
      (goesOn : Asks answer (next (answer request)) asked) :
      Asks answer (.ask request next) (request :: asked)
  | note {label : String} {params : Value} {next : Nat → Program} {asked : List FactRequest}
      (n : Nat) (goesOn : Asks answer (next n) asked) : Asks answer (.note label params next) asked
  | pause {next : Program} {asked : List FactRequest} (goesOn : Asks answer next asked) :
      Asks answer (.pause next) asked

/-- All requests that a computation makes are permitted ones. -/
theorem Program.Returns.forall_asks {answer : FactRequest → Except Error Value}
    {permitted : FactRequest → Prop} {program : Program} {value : Value} {asked : List FactRequest}
    (h : program.Returns answer permitted value) (hasks : program.Asks answer asked) :
    ∀ request ∈ asked, permitted request := by
  induction hasks with
  | done value => exact fun request hrequest => nomatch hrequest
  | ask _ ih =>
      cases h with
      | ask hpermitted hgoesOn => exact List.forall_mem_cons.2 ⟨hpermitted, ih hgoesOn⟩
  | note n _ ih =>
      cases h with
      | note hgoesOn => exact ih (hgoesOn n)
  | pause _ ih =>
      cases h with
      | pause hgoesOn => exact ih hgoesOn

/-- Which parameters a computed fact accepts, its value for them, and how deep its computation asks
for other computed facts. -/
structure Reckoning where
  accepts : String → Value → Prop
  value : String → Value → Value
  depth : String → Value → Nat

namespace Reckoning

variable {reckoning : Reckoning} {almanac : Almanac} {request : FactRequest} {fact : Fact}
  {program : Value → Program}

/-- The answer to a request: the value given for the occasion if there is one, else that of the
definition, which for a computed fact is the one that is reckoned; then the path. -/
def answer (reckoning : Reckoning) (almanac : Almanac) (request : FactRequest) :
    Except Error Value :=
  if request.fact.hashable = false then .error .type
  else
    match almanac.runtime.find? request.fact, almanac.facts.find? request.fact with
    | some value, _ => almanac.applyPath value request.path
    | none, none =>
        if almanac.allowUndefinedFacts then .ok .null else .error (.undefinedFact request.fact)
    | none, some fact =>
        match fact.source with
        | .constant value => almanac.applyPath value request.path
        | .computed _ =>
            almanac.applyPath (reckoning.value fact.label (Fact.normalParams request.params))
              request.path

/-- The id stands for a computed fact, and not for a value given for the occasion. -/
def Computes (almanac : Almanac) (id : Value) (fact : Fact) (program : Value → Program) : Prop :=
  almanac.lookup id = .ok (.computed fact program)

/-- If the request is for a computed fact, the fact accepts the parameters. -/
def Permits (reckoning : Reckoning) (almanac : Almanac) (request : FactRequest) : Prop :=
  ∀ fact program, Computes almanac request.fact fact program →
    reckoning.accepts fact.label (Fact.normalParams request.params)

/-- The request can be answered where requests are followed this deep. -/
def Within (reckoning : Reckoning) (almanac : Almanac) (limit : Nat) (request : FactRequest) :
    Prop :=
  0 < limit ∧ ∀ fact program, Computes almanac request.fact fact program →
    reckoning.depth fact.label (Fact.normalParams request.params) < limit

theorem Within.mono {limit more : Nat} (h : reckoning.Within almanac limit request)
    (hle : limit ≤ more) : reckoning.Within almanac more request :=
  ⟨Nat.lt_of_lt_of_le h.1 hle, fun fact program hcomputes =>
    Nat.lt_of_lt_of_le (h.2 fact program hcomputes) hle⟩

/-- What the reckoning says of an almanac is so: facts stand under their own ids, which are texts,
and computations return what is reckoned and ask only for what is less deep.  Parameters are JSON
values; those that are alike have one value, and so they count as one request when it comes to how
deep computations go. -/
structure Sound (reckoning : Reckoning) (almanac : Almanac) : Prop where
  own : ∀ entry ∈ almanac.facts, ∃ name, entry.1 = .str name ∧ entry.2.id = .str name
  json : ∀ name params, reckoning.accepts name params → params.isJson = true
  alike : ∀ name params params', reckoning.accepts name params → reckoning.accepts name params' →
    params.alike params' = true → reckoning.value name params = reckoning.value name params' ∧
      reckoning.depth name params = reckoning.depth name params'
  returns : ∀ id fact program, Computes almanac id fact program →
    ∀ params, reckoning.accepts fact.label params →
      (program params).Returns (reckoning.answer almanac)
        (fun asked => reckoning.Permits almanac asked ∧
          reckoning.Within almanac (reckoning.depth fact.label params) asked)
        (reckoning.value fact.label params)

/-! ### What is computed -/

theorem computes_iff {id : Value} : Computes almanac id fact program ↔
    id.hashable = true ∧ almanac.runtime.find? id = none ∧ almanac.facts.find? id = some fact ∧
      fact.source = .computed program := by
  unfold Computes Almanac.lookup
  cases id.hashable with
  | false => simp
  | true =>
      cases almanac.runtime.find? id with
      | some value => simp
      | none =>
          cases almanac.facts.find? id with
          | none => simp
          | some found =>
              cases hsource : found.source with
              | constant value =>
                  simp only [Bool.not_true, Bool.false_eq_true, if_false, hsource, true_and,
                    Option.some.injEq]
                  refine iff_of_false (fun h => nomatch Except.ok.inj h) ?_
                  rintro ⟨rfl, hcomputed⟩
                  rw [hsource] at hcomputed
                  cases hcomputed
              | computed program' =>
                  simp only [Bool.not_true, Bool.false_eq_true, if_false, hsource, true_and,
                    Option.some.injEq, Except.ok.injEq, Almanac.Entry.computed.injEq]
                  refine and_congr_right fun hfound => ?_
                  rw [← hfound, hsource, FactSource.computed.injEq]

/-- The answer by what the id stands for. -/
theorem answer_eq : reckoning.answer almanac request =
    match almanac.lookup request.fact with
    | .error e => .error e
    | .ok .undefined =>
        if almanac.allowUndefinedFacts then .ok .null else .error (.undefinedFact request.fact)
    | .ok (.value value) => almanac.applyPath value request.path
    | .ok (.computed fact _) =>
        almanac.applyPath (reckoning.value fact.label (Fact.normalParams request.params))
          request.path := by
  unfold answer Almanac.lookup
  cases request.fact.hashable with
  | false => rfl
  | true =>
      cases almanac.runtime.find? request.fact with
      | some value => rfl
      | none =>
          cases almanac.facts.find? request.fact with
          | none => rfl
          | some found =>
              cases hsource : found.source with
              | constant value => simp [hsource]
              | computed program => simp [hsource]

theorem answer_of_computes (h : Computes almanac request.fact fact program) :
    reckoning.answer almanac request =
      almanac.applyPath (reckoning.value fact.label (Fact.normalParams request.params))
        request.path := by
  rw [answer_eq, h]

/-- A computed fact has a text for its id and stands under it. -/
theorem Sound.named (hsound : reckoning.Sound almanac) {id : Value}
    (h : Computes almanac id fact program) :
    ∃ name, id = .str name ∧ fact.id = .str name ∧ fact.label = name := by
  obtain ⟨key, hkey, hmem⟩ := Table.exists_mem_of_find? (computes_iff.1 h).2.2.1
  obtain ⟨name, hname, hid⟩ := hsound.own _ hmem
  dsimp only at hname hid
  subst hname
  exact ⟨name, Value.str_beq_iff.1 hkey, hid, by rw [Fact.label, hid]; rfl⟩

/-- There is one computed fact for an id. -/
theorem Computes.unique {id : Value} {other : Fact} {program' : Value → Program}
    (h : Computes almanac id fact program) (hother : Computes almanac id other program') :
    fact = other ∧ program = program' := by
  rw [Computes, h, Except.ok.injEq, Almanac.Entry.computed.injEq] at hother
  exact hother

end Reckoning

end Rulebook
