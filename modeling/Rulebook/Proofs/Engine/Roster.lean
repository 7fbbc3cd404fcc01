import Rulebook.Proofs.Condition.Checking
import Rulebook.Proofs.Condition.Schedule
import Rulebook.Proofs.Engine.Run
import Rulebook.Proofs.Priority

/-!
The list of rules.

An engine keeps its rules in groups until they change, so whatever was added, replaced or removed, and
whatever was refused, the groups that it gives are those of the rules that it has
(`grouped_afterCalls`).  They are the rules in the order of their priorities, each once
(`Current`).  What each call makes of the rules, and what it answers, is told by `RuleCall.Effect`
(`effect_perform`); what is refused leaves the rules alone.
-/

namespace Rulebook.Engine

open Registry

variable {η : Type} {engine : Engine η} {rule : Rule}

/-! ### Groups -/

/-- The groups are the rules in the order of their priorities, each once; rules of one priority, which keep
their order, form a group. -/
structure Current (rules : List Rule) (groups : List (List Rule)) : Prop where
  nonempty : ∀ group ∈ groups, group ≠ []
  level : ∀ group ∈ groups, ∀ rule ∈ group, ∀ other ∈ group,
    rule.priority.level = other.priority.level
  ascending : groups.Pairwise fun group later => ∀ rule ∈ group, ∀ other ∈ later,
    rule.priority.level < other.priority.level
  sorted : groups.flatten = sortBy (precedes fun rule : Rule => rule.priority.level) rules
  once : groups.flatten.Perm rules
  stable : ∀ level, groups.flatten.filter (fun rule => rule.priority.level = level) =
    rules.filter fun rule => rule.priority.level = level

theorem current_groupsOf (rules : List Rule) : Current rules (groupsOf rules) where
  nonempty _ hgroup := batchesBy_ne_nil hgroup
  level _ hgroup _ hrule _ hother := batchesBy_level hgroup hrule hother
  ascending := batchesBy_ascending _ rules
  sorted := batchesBy_flatten _ rules
  once := batchesBy_perm _ rules
  stable level := by rw [groupsOf, batchesBy_flatten, filter_sortBy]

theorem rules_prioritize (engine : Engine η) : engine.prioritize.2.rules = engine.rules := by
  unfold prioritize
  split <;> rfl

theorem Grouped.of_eq {other : Engine η} (h : Grouped engine) (hrules : other.rules = engine.rules)
    (hgrouping : other.grouping = engine.grouping) : Grouped other := by
  intro groups hgroups
  rw [hrules]
  exact h groups (hgrouping ▸ hgroups)

/-! ### Replacing rules -/

/-- Whether a rule takes the place of another one, and the rules that there are then. -/
inductive Updates (rule : Rule) : List Rule → Bool → List Rule → Prop where
  /-- It takes the place of the first rule with its name. -/
  | first {before after : List Rule} {existing : Rule} {name : String}
      (hname : rule.name = some name) (hexisting : existing.name = some name)
      (hbefore : ∀ other ∈ before, other.name ≠ some name) :
      Updates rule (before ++ existing :: after) true (before ++ rule :: after)
  /-- It has no name, or no other rule has its name. -/
  | none {rules : List Rule} (hnone : ∀ name, rule.name = some name →
      ∀ other ∈ rules, other.name ≠ some name) : Updates rule rules false rules

theorem replaceFirst_iff (existing : Rule) : (existing.name.isSome && existing.name == rule.name) =
    true ↔ ∃ name, rule.name = some name ∧ existing.name = some name := by
  rw [Bool.and_eq_true, Option.isSome_iff_exists, beq_iff_eq]
  constructor
  · rintro ⟨⟨name, hname⟩, hsame⟩
    exact ⟨name, hsame ▸ hname, hname⟩
  · rintro ⟨name, hname, hexisting⟩
    exact ⟨⟨name, hexisting⟩, hexisting.trans hname.symm⟩

theorem updates_replaceFirst (rule : Rule) (rules : List Rule) :
    Updates rule rules (replaceFirst rule rules).isSome ((replaceFirst rule rules).getD rules) := by
  induction rules with
  | nil => exact .none fun _ _ _ hother => nomatch hother
  | cons existing rest ih =>
      by_cases hexisting : (existing.name.isSome && existing.name == rule.name) = true
      · rw [replaceFirst, if_pos hexisting]
        obtain ⟨name, hname, hsame⟩ := (replaceFirst_iff existing).1 hexisting
        have hfirst : Updates rule ([] ++ existing :: rest) true ([] ++ rule :: rest) :=
          .first hname hsame fun _ hother => nomatch hother
        exact hfirst
      · rw [replaceFirst, if_neg hexisting]
        have hdiffers : ∀ name, rule.name = some name → existing.name ≠ some name :=
          fun name hname hsame => hexisting ((replaceFirst_iff existing).2 ⟨name, hname, hsame⟩)
        generalize replaceFirst rule rest = replaced at ih
        cases replaced with
        | none =>
            cases ih with
            | none hnone =>
                exact .none fun name hname =>
                  List.forall_mem_cons.2 ⟨hdiffers name hname, hnone name hname⟩
        | some rules =>
            cases ih with
            | @first before after other _ hname hsame hbefore =>
                have hlater : Updates rule ((existing :: before) ++ other :: after) true
                    ((existing :: before) ++ rule :: after) :=
                  .first hname hsame (List.forall_mem_cons.2 ⟨hdiffers _ hname, hbefore⟩)
                exact hlater

theorem updates_updateRule (engine : Engine η) (rule : Rule) :
    Updates rule engine.rules (engine.updateRule rule).1 (engine.updateRule rule).2.rules := by
  have hupdates := updates_replaceFirst rule engine.rules
  unfold updateRule
  cases hreplaced : replaceFirst rule engine.rules with
  | none => rwa [hreplaced] at hupdates
  | some rules => rwa [hreplaced] at hupdates

theorem updateRule_of_false (h : (engine.updateRule rule).1 = false) :
    (engine.updateRule rule).2 = engine := by
  unfold updateRule at h ⊢
  cases hreplaced : replaceFirst rule engine.rules with
  | none => rfl
  | some rules =>
      rw [hreplaced] at h
      cases h

/-! ### Removing rules -/

/-- The rules that are not at these places. -/
def besides (rules : List Rule) (places : List Nat) : List Rule :=
  (rules.zipIdx.filter fun entry => !places.contains entry.2).map Prod.fst

/-- Keep only some of the rules; tells whether others go. -/
def keepOnly (engine : Engine η) (kept : List Rule) : Bool × Engine η :=
  if kept.length = engine.rules.length then (false, engine) else (true, engine.withRules kept)

theorem removeRule_eq (engine : Engine η) (name : Value) :
    engine.removeRule name = engine.keepOnly (engine.rules.filter fun rule => !isNamed name rule) :=
  rfl

theorem removeRulesAt_eq (engine : Engine η) (places : List Nat) :
    engine.removeRulesAt places = engine.keepOnly (besides engine.rules places) :=
  rfl

theorem rules_keepOnly (engine : Engine η) {kept : List Rule}
    (hkept : kept.Sublist engine.rules) :
    (engine.keepOnly kept).2.rules = kept ∧
      ((engine.keepOnly kept).1 = true ↔ kept ≠ engine.rules) ∧
      ((engine.keepOnly kept).1 = false → (engine.keepOnly kept).2 = engine) := by
  by_cases hlength : kept.length = engine.rules.length
  · have hsame := hkept.eq_of_length hlength
    rw [keepOnly, if_pos hlength]
    exact ⟨hsame.symm, by simp [hsame], fun _ => rfl⟩
  · rw [keepOnly, if_neg hlength]
    exact ⟨rfl, ⟨fun _ hsame => hlength (congrArg List.length hsame), fun _ => rfl⟩, nofun⟩

theorem grouped_keepOnly (h : Grouped engine) (kept : List Rule) :
    Grouped (engine.keepOnly kept).2 := by
  unfold keepOnly
  split
  · exact h
  · exact grouped_withRules engine kept

theorem removed_removeRule (engine : Engine η) (name : Value) :
    (engine.removeRule name).2.rules = engine.rules.filter (fun rule => !isNamed name rule) ∧
      ((engine.removeRule name).1 = true ↔ ∃ rule ∈ engine.rules, isNamed name rule = true) ∧
      ((engine.removeRule name).1 = false → (engine.removeRule name).2 = engine) := by
  rw [removeRule_eq]
  obtain ⟨hrules, htold, hsame⟩ := rules_keepOnly engine
    (List.filter_sublist (p := fun rule => !isNamed name rule))
  refine ⟨hrules, htold.trans ?_, hsame⟩
  rw [Ne, List.filter_eq_self]
  simp

theorem besides_sublist (rules : List Rule) (places : List Nat) :
    (besides rules places).Sublist rules := by
  have hsublist : (besides rules places).Sublist (rules.zipIdx.map Prod.fst) :=
    List.filter_sublist.map Prod.fst
  rwa [List.zipIdx_map_fst] at hsublist

/-- There is nothing to go if and only if none of the places is one of the list. -/
theorem besides_eq_iff (rules : List Rule) (places : List Nat) :
    besides rules places = rules ↔ ∀ place ∈ places, ¬ place < rules.length := by
  have hfilter : besides rules places = rules ↔
      ∀ entry ∈ rules.zipIdx, entry.2 ∉ places := by
    rw [← (besides_sublist rules places).length_eq, besides, List.length_map]
    have hlength : rules.length = rules.zipIdx.length := List.length_zipIdx.symm
    rw [hlength, List.filter_sublist.length_eq, List.filter_eq_self]
    simp
  rw [hfilter]
  constructor
  · intro hall place hplace hlt
    exact hall (rules[place], place) (List.mk_mem_zipIdx_iff_getElem?.2
      (List.getElem?_eq_getElem hlt)) hplace
  · intro hall entry hentry hplace
    exact hall entry.2 hplace
      (List.getElem?_eq_some_iff.1 (List.mk_mem_zipIdx_iff_getElem?.1 hentry)).1

theorem removed_removeRulesAt (engine : Engine η) (places : List Nat) :
    (engine.removeRulesAt places).2.rules = besides engine.rules places ∧
      ((engine.removeRulesAt places).1 = true ↔ ∃ place ∈ places, place < engine.rules.length) ∧
      ((engine.removeRulesAt places).1 = false → (engine.removeRulesAt places).2 = engine) := by
  rw [removeRulesAt_eq]
  obtain ⟨hrules, htold, hsame⟩ := rules_keepOnly engine (besides_sublist engine.rules places)
  refine ⟨hrules, htold.trans ?_, hsame⟩
  rw [Ne, besides_eq_iff]
  simp

/-- To remove the rule at one place is the case of one place. -/
theorem removeRuleAt_eq (engine : Engine η) (place : Nat) :
    engine.removeRuleAt place = engine.removeRulesAt [place] := by
  have hbesides : ∀ (rules : List Rule) (place first : Nat),
      ((rules.zipIdx first).filter fun entry => !([first + place].contains entry.2)).map Prod.fst =
        rules.eraseIdx place := by
    intro rules
    induction rules with
    | nil => exact fun _ _ => rfl
    | cons rule rest ih =>
        intro place first
        cases place with
        | zero =>
            have hlater : ∀ entry ∈ rest.zipIdx (first + 1), !([first + 0].contains entry.2) := by
              intro entry hentry
              have hle := List.le_snd_of_mem_zipIdx hentry
              simp
              omega
            rw [List.zipIdx_cons, List.filter_cons, if_neg (by simp), List.filter_eq_self.2 hlater,
              List.zipIdx_map_fst, List.eraseIdx_cons_zero]
        | succ place =>
            have hsame := ih place (first + 1)
            rw [Nat.add_right_comm, Nat.add_assoc] at hsame
            rw [List.zipIdx_cons, List.filter_cons, if_pos (by simp), List.map_cons, hsame,
              List.eraseIdx_cons_succ]
  have hremaining := hbesides engine.rules place 0
  rw [Nat.zero_add] at hremaining
  rw [removeRulesAt_eq, besides, hremaining, removeRuleAt, keepOnly, List.length_eraseIdx]
  by_cases hlt : place < engine.rules.length
  · rw [if_pos hlt, if_pos hlt, if_neg (by omega)]
  · rw [if_neg hlt, if_neg hlt, if_pos rfl]

/-! ### Calls -/

/-- A call that concerns the rules of an engine.  Rules are given as objects or as definitions; an object
that is to be removed is given by the places at which it stands. -/
inductive RuleCall where
  | add (rule : Rule)
  | addOf (definition : Value)
  | update (rule : Rule)
  | updateOf (definition : Value)
  | remove (name : Value)
  | removeAt (places : List Nat)
  | prioritize

/-- What such a call returns. -/
inductive RuleReply where
  | rule (rule : Rule)
  | told (told : Bool)
  | groups (groups : List (List Rule))

namespace RuleCall

/-- The reply to a call, and the engine then. -/
def perform (engine : Engine η) : RuleCall → Except Error RuleReply × Engine η
  | .add rule => (.ok (.rule rule), engine.addRule rule)
  | .addOf definition =>
      let (built, engine) := engine.addRuleOf definition
      (built.map .rule, engine)
  | .update rule =>
      let (told, engine) := engine.updateRule rule
      (.ok (.told told), engine)
  | .updateOf definition =>
      let (told, engine) := engine.updateRuleOf definition
      (told.map .told, engine)
  | .remove name =>
      let (told, engine) := engine.removeRule name
      (.ok (.told told), engine)
  | .removeAt places =>
      let (told, engine) := engine.removeRulesAt places
      (.ok (.told told), engine)
  | .prioritize =>
      let (groups, engine) := engine.prioritize
      (.ok (.groups groups), engine)

/-- What a call returns, and the rules then. -/
inductive Effect (engine : Engine η) : RuleCall → Except Error RuleReply → List Rule → Prop where
  | added (rule : Rule) : Effect engine (.add rule) (.ok (.rule rule)) (engine.rules ++ [rule])
  | built {definition : Value} {rule : Rule} (hbuilt : (engine.buildRule definition).1 = .ok rule) :
      Effect engine (.addOf definition) (.ok (.rule rule)) (engine.rules ++ [rule])
  | refused {definition : Value} {e : Error}
      (hrefused : definition = .null ∨ (engine.buildRule definition).1 = .error e) :
      Effect engine (.addOf definition) (.error e) engine.rules
  | updated {rule : Rule} {told : Bool} {rules : List Rule}
      (hupdates : Updates rule engine.rules told rules) :
      Effect engine (.update rule) (.ok (.told told)) rules
  | rebuilt {definition : Value} {rule : Rule} {told : Bool} {rules : List Rule}
      (hbuilt : (engine.buildRule definition).1 = .ok rule)
      (hupdates : Updates rule engine.rules told rules) :
      Effect engine (.updateOf definition) (.ok (.told told)) rules
  | notRebuilt {definition : Value} {e : Error}
      (hrefused : (engine.buildRule definition).1 = .error e) :
      Effect engine (.updateOf definition) (.error e) engine.rules
  | removed {name : Value} {told : Bool}
      (htold : told = true ↔ ∃ rule ∈ engine.rules, isNamed name rule = true) :
      Effect engine (.remove name) (.ok (.told told))
        (engine.rules.filter fun rule => !isNamed name rule)
  | removedAt {places : List Nat} {told : Bool}
      (htold : told = true ↔ ∃ place ∈ places, place < engine.rules.length) :
      Effect engine (.removeAt places) (.ok (.told told)) (besides engine.rules places)
  | grouped {groups : List (List Rule)} (hcurrent : Current engine.rules groups) :
      Effect engine .prioritize (.ok (.groups groups)) engine.rules

/-- Nothing came of a call: it was refused, or there was no such rule. -/
def Vain : Except Error RuleReply → Prop
  | .ok (.told told) => told = false
  | .ok (.rule _) => False
  | .ok (.groups _) => False
  | .error _ => True

instance (reply : Except Error RuleReply) : Decidable (Vain reply) :=
  match reply with
  | .ok (.told told) => inferInstanceAs (Decidable (told = false))
  | .ok (.rule _) => inferInstanceAs (Decidable False)
  | .ok (.groups _) => inferInstanceAs (Decidable False)
  | .error _ => inferInstanceAs (Decidable True)

end RuleCall

theorem buildRule_of_construct {definition : Value} {result : Except Error Rule}
    {registry : Registry}
    (h : Rule.construct (some engine.registry) definition = (result, some registry)) :
    engine.buildRule definition = (result, engine.withRegistry registry) := by
  unfold buildRule
  rw [h]
  rfl

/-- An engine that has built a rule, or has refused to, is as it was, but for what its operators are
composed of. -/
theorem buildRule_cases (engine : Engine η) (definition : Value) :
    ∃ result registry, Consulted (some engine.registry) (some registry) ∧
      engine.buildRule definition = (result, engine.withRegistry registry) := by
  obtain ⟨registry, hregistry, hconsulted⟩ := Rule.consulted_construct engine.registry definition
  exact ⟨_, registry, hconsulted, buildRule_of_construct (Prod.ext rfl hregistry)⟩

/-- A rule is built and added, or refused. -/
theorem addRuleOf_cases (engine : Engine η) (definition : Value) :
    ∃ registry, Consulted (some engine.registry) (some registry) ∧
      ((∃ e, (definition = .null ∨ (engine.buildRule definition).1 = .error e) ∧
        engine.addRuleOf definition = (.error e, engine.withRegistry registry)) ∨
      ∃ rule, (engine.buildRule definition).1 = .ok rule ∧
        engine.addRuleOf definition =
          (.ok rule, (engine.withRegistry registry).addRule rule)) := by
  unfold addRuleOf
  split
  · exact ⟨engine.registry, .refl _, .inl ⟨_, .inl rfl, rfl⟩⟩
  · obtain ⟨result, registry, hconsulted, hbuilt⟩ := buildRule_cases engine definition
    rw [hbuilt]
    cases result with
    | error e => exact ⟨registry, hconsulted, .inl ⟨e, .inr rfl, rfl⟩⟩
    | ok rule => exact ⟨registry, hconsulted, .inr ⟨rule, rfl, rfl⟩⟩

/-- A rule is built and takes the place of another one, or it is refused. -/
theorem updateRuleOf_cases (engine : Engine η) (definition : Value) :
    ∃ registry, Consulted (some engine.registry) (some registry) ∧
      ((∃ e, (engine.buildRule definition).1 = .error e ∧
        engine.updateRuleOf definition = (.error e, engine.withRegistry registry)) ∨
      ∃ rule, (engine.buildRule definition).1 = .ok rule ∧
        engine.updateRuleOf definition =
          (.ok ((engine.withRegistry registry).updateRule rule).1,
            ((engine.withRegistry registry).updateRule rule).2)) := by
  obtain ⟨result, registry, hconsulted, hbuilt⟩ := buildRule_cases engine definition
  unfold updateRuleOf
  rw [hbuilt]
  cases result with
  | error e => exact ⟨registry, hconsulted, .inl ⟨e, rfl, rfl⟩⟩
  | ok rule => exact ⟨registry, hconsulted, .inr ⟨rule, rfl, rfl⟩⟩

namespace RuleCall

theorem perform_addOf (engine : Engine η) (definition : Value) :
    (addOf definition).perform engine =
      ((engine.addRuleOf definition).1.map .rule, (engine.addRuleOf definition).2) :=
  rfl

theorem perform_updateOf (engine : Engine η) (definition : Value) :
    (updateOf definition).perform engine =
      ((engine.updateRuleOf definition).1.map .told, (engine.updateRuleOf definition).2) :=
  rfl

/-- A call that came to nothing leaves the engine as it was, but for what its operators are composed
of. -/
theorem perform_of_vain {call : RuleCall} (h : Vain (call.perform engine).1) :
    ∃ registry, Consulted (some engine.registry) (some registry) ∧
      (call.perform engine).2 = engine.withRegistry registry := by
  have hsame : ∀ {after : Engine η}, after = engine → ∃ registry,
      Consulted (some engine.registry) (some registry) ∧ after = engine.withRegistry registry :=
    fun hafter => ⟨engine.registry, .refl _, hafter⟩
  cases call with
  | add rule => exact h.elim
  | addOf definition =>
      rw [perform_addOf] at h ⊢
      obtain ⟨registry, hconsulted, ⟨e, _, heq⟩ | ⟨rule, _, heq⟩⟩ :=
        addRuleOf_cases engine definition
      · exact ⟨registry, hconsulted, by rw [heq]⟩
      · rw [heq] at h
        exact h.elim
  | update rule => exact hsame (updateRule_of_false h)
  | updateOf definition =>
      rw [perform_updateOf] at h ⊢
      obtain ⟨registry, hconsulted, ⟨e, _, heq⟩ | ⟨rule, _, heq⟩⟩ :=
        updateRuleOf_cases engine definition
      · exact ⟨registry, hconsulted, by rw [heq]⟩
      · rw [heq] at h ⊢
        exact ⟨registry, hconsulted, updateRule_of_false h⟩
  | remove name => exact hsame ((removed_removeRule engine name).2.2 h)
  | removeAt places => exact hsame ((removed_removeRulesAt engine places).2.2 h)
  | prioritize => exact h.elim

end RuleCall

/-! ### What holds after every call -/

theorem grouped_withRegistry (h : Grouped engine) (registry : Registry) :
    Grouped (engine.withRegistry registry) :=
  h

theorem Grouped.updateRule (h : Grouped engine) (rule : Rule) :
    Grouped (engine.updateRule rule).2 := by
  unfold Engine.updateRule
  split
  · exact grouped_withRules engine _
  · exact h

theorem Grouped.perform (h : Grouped engine) (call : RuleCall) :
    Grouped (call.perform engine).2 := by
  cases call with
  | add rule => exact grouped_withRules engine _
  | addOf definition =>
      rw [RuleCall.perform_addOf]
      obtain ⟨registry, _, ⟨e, _, heq⟩ | ⟨rule, _, heq⟩⟩ := addRuleOf_cases engine definition
      · exact heq ▸ grouped_withRegistry h registry
      · exact heq ▸ grouped_withRules _ _
  | update rule => exact h.updateRule rule
  | updateOf definition =>
      rw [RuleCall.perform_updateOf]
      obtain ⟨registry, _, ⟨e, _, heq⟩ | ⟨rule, _, heq⟩⟩ := updateRuleOf_cases engine definition
      · exact heq ▸ grouped_withRegistry h registry
      · exact heq ▸ (grouped_withRegistry h registry).updateRule rule
  | remove name => exact grouped_keepOnly h _
  | removeAt places => exact grouped_keepOnly h _
  | prioritize => exact h.prioritize_snd

/-- What a call returns and what it makes of the rules. -/
theorem effect_perform (h : Grouped engine) (call : RuleCall) :
    call.Effect engine (call.perform engine).1 (call.perform engine).2.rules := by
  cases call with
  | add rule => exact .added rule
  | addOf definition =>
      rw [RuleCall.perform_addOf]
      obtain ⟨registry, _, ⟨e, hrefused, heq⟩ | ⟨rule, hbuilt, heq⟩⟩ :=
        addRuleOf_cases engine definition
      · exact heq ▸ .refused hrefused
      · exact heq ▸ .built hbuilt
  | update rule => exact .updated (updates_updateRule engine rule)
  | updateOf definition =>
      rw [RuleCall.perform_updateOf]
      obtain ⟨registry, _, ⟨e, hrefused, heq⟩ | ⟨rule, hbuilt, heq⟩⟩ :=
        updateRuleOf_cases engine definition
      · exact heq ▸ .notRebuilt hrefused
      · exact heq ▸ .rebuilt hbuilt (updates_updateRule (engine.withRegistry registry) rule)
  | remove name =>
      obtain ⟨hrules, htold, _⟩ := removed_removeRule engine name
      exact hrules ▸ .removed htold
  | removeAt places =>
      obtain ⟨hrules, htold, _⟩ := removed_removeRulesAt engine places
      exact hrules ▸ .removedAt htold
  | prioritize =>
      change RuleCall.Effect engine _ (.ok (.groups engine.prioritize.1)) engine.prioritize.2.rules
      rw [rules_prioritize, h.prioritize_fst]
      exact .grouped (current_groupsOf engine.rules)

/-- The engine after some calls. -/
def afterCalls (calls : List RuleCall) (engine : Engine η) : Engine η :=
  calls.foldl (fun engine call => (call.perform engine).2) engine

theorem Grouped.afterCalls (h : Grouped engine) (calls : List RuleCall) :
    Grouped (engine.afterCalls calls) := by
  induction calls generalizing engine with
  | nil => exact h
  | cons call rest ih => exact ih (h.perform call)

/-- Whatever calls there were before, each call returns what it should and makes of the rules what it
should; a call that comes to nothing leaves the engine as it was, but for what its operators are
composed of. -/
theorem effect_afterCalls (config : Config) (calls : List RuleCall) (call : RuleCall) :
    let engine : Engine η := (create config).afterCalls calls
    call.Effect engine (call.perform engine).1 (call.perform engine).2.rules ∧
      (RuleCall.Vain (call.perform engine).1 → ∃ registry,
        SameRegistered registry engine.registry ∧
          (call.perform engine).2 = engine.withRegistry registry) :=
  ⟨effect_perform ((grouped_create config).afterCalls calls) call, fun hvain =>
    let ⟨registry, hconsulted, hsame⟩ := RuleCall.perform_of_vain hvain
    ⟨registry, hconsulted.sameRegistered, hsame⟩⟩

/-- The definition of a rule that has no conditions. -/
def unconditional (name : String) (level : Int) : Value :=
  .object [("name", .str name), ("priority", .int level),
    ("conditions", .object [("all", .list [])]), ("event", .object [("type", .str "x")])]

/-- Rules are added and put in groups; then one is given another priority, and one is refused. -/
def regrouping : List RuleCall := [
  .addOf (unconditional "a" 2), .addOf (unconditional "b" 1), .addOf (unconditional "c" 2),
  .prioritize, .updateOf (unconditional "c" 1), .addOf (unconditional "d" 0)]

/-- The names of the rules in each group that is returned. -/
def RuleReply.names : RuleReply → List (List (Option String))
  | .groups found => found.map fun group => group.map Rule.name
  | _ => []

theorem effect_afterCalls_regrouping :
    let engine : Engine Catalogue.Handler := (create []).afterCalls regrouping
    (engine.rules.map Rule.name = [some "a", some "b", some "c"] ∧
      ((RuleCall.prioritize.perform engine).1.map RuleReply.names).toOption =
        some [[some "b", some "c"], [some "a"]]) ∧
      RuleCall.prioritize.Effect engine (RuleCall.prioritize.perform engine).1
        (RuleCall.prioritize.perform engine).2.rules ∧
      RuleCall.Vain ((RuleCall.updateOf (unconditional "e" 1)).perform engine).1 ∧
      ∃ registry, SameRegistered registry engine.registry ∧
        ((RuleCall.updateOf (unconditional "e" 1)).perform engine).2 =
          engine.withRegistry registry := by
  have hvain : RuleCall.Vain ((RuleCall.updateOf (unconditional "e" 1)).perform
      ((create [] : Engine Catalogue.Handler).afterCalls regrouping)).1 := by
    decide +kernel
  exact ⟨by decide +kernel, (effect_afterCalls [] regrouping .prioritize).1, hvain,
    (effect_afterCalls [] regrouping (.updateOf (unconditional "e" 1))).2 hvain⟩

end Rulebook.Engine
