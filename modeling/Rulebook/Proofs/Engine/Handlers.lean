import Rulebook.Catalogue.Handler
import Rulebook.Proofs.Engine.Answers
import Rulebook.Proofs.Engine.Process
import Rulebook.Proofs.Engine.Twins

/-!
What the handlers of the catalogue do to a run.

Whatever they change, they neither take results away nor add any; just those with the deed `stop`
stop the engine (`polite_handle`).  None of them subscribes handlers or takes calls back
(`mild_handle`).  Those that keep to the run for which they are called leave the engine as it is
(`heedful_handle`).
-/

namespace Rulebook.Catalogue

open Eval Engine

/-- Does the handler stop the engine? -/
def Handler.stops (handler : Handler) : Bool :=
  match handler.deed with
  | .stop => true
  | _ => false

variable {free : Prop} {number : Nat} {α : Type}

/-- The engine is left with its runs, its status and its counts. -/
structure Leaves (engine later : Engine Handler) : Prop where
  runs : later.runs = engine.runs
  status : later.status = engine.status
  tally : later.tally = engine.tally

/-- The engine is left with its handlers, too. -/
structure Keeps (engine later : Engine Handler) : Prop extends Leaves engine later where
  handlers : later.handlers = engine.handlers

/-- An event with the mark of a handler, in itself or in its payload. -/
def Marks (event now : Members) : Prop := now = marked event ∨ now = markedPayload event

/-- What the handlers of the catalogue change between the calls. -/
structure Modest (free : Prop) (number : Nat) (scene now : Scene Handler) : Prop where
  discreet : Discreet free number scene now
  mild : Mild Marks scene now
  tally : now.engine.tally = scene.engine.tally

theorem Keeps.modest {scene : Scene Handler} {engine : Engine Handler}
    (h : Keeps scene.engine engine) : Modest free number scene { scene with engine } where
  discreet := ⟨rfl, h.runs, rfl, .inl h.status, congrArg (Option.map _) h.tally, .inl rfl⟩
  mild := ⟨h.handlers, rfl, .inl rfl⟩
  tally := h.tally

theorem modest_withEngine {change : Engine Handler → Except Error α × Engine Handler}
    (h : ∀ engine, Keeps engine (change engine).2) :
    Within (Modest free number) (Act.withEngine change) :=
  let revised : Scene Handler → Scene Handler → Scene Handler :=
    fun seen scene => { scene with engine := (change seen.engine).2 }
  have hrevised : ∀ scene, Modest free number scene (revised scene scene) :=
    fun scene => (h scene.engine).modest
  .revise hrevised fun _ => .outcome _

theorem keeps_addRuleOf (engine : Engine Handler) (definition : Value) :
    Keeps engine (engine.addRuleOf definition).2 := by
  unfold addRuleOf buildRule
  split
  · exact ⟨⟨rfl, rfl, rfl⟩, rfl⟩
  · dsimp only
    cases (Rule.construct (some engine.registry) definition).1 <;> exact ⟨⟨rfl, rfl, rfl⟩, rfl⟩

theorem keeps_updateRuleOf (engine : Engine Handler) (definition : Value) :
    Keeps engine (engine.updateRuleOf definition).2 := by
  unfold updateRuleOf buildRule
  dsimp only
  cases (Rule.construct (some engine.registry) definition).1 with
  | error e => exact ⟨⟨rfl, rfl, rfl⟩, rfl⟩
  | ok rule =>
      dsimp only [updateRule]
      cases replaceFirst rule engine.rules <;> exact ⟨⟨rfl, rfl, rfl⟩, rfl⟩

theorem keeps_removeRule (engine : Engine Handler) (name : Value) :
    Keeps engine (engine.removeRule name).2 := by
  unfold removeRule
  dsimp only
  split <;> exact ⟨⟨rfl, rfl, rfl⟩, rfl⟩

theorem keeps_setCondition (engine : Engine Handler) (name definition : Value) :
    Keeps engine (engine.setCondition name definition).2 := by
  unfold setCondition
  split
  · exact ⟨⟨rfl, rfl, rfl⟩, rfl⟩
  · split
    · exact ⟨⟨rfl, rfl, rfl⟩, rfl⟩
    · dsimp only
      cases (Condition.construct (some engine.registry) definition).1 with
      | error e => exact ⟨⟨rfl, rfl, rfl⟩, rfl⟩
      | ok condition =>
          dsimp only
          split <;> exact ⟨⟨rfl, rfl, rfl⟩, rfl⟩

theorem modest_onAlmanac (change : Almanac → Except Error Almanac) :
    Within (Modest free number) (Act.onAlmanac change : Act Handler Unit) :=
  .get_bind fun seen => .bind (.outcome (change seen.run.almanac)) fun _ =>
    .modify fun _ => ⟨⟨rfl, rfl, rfl, .inl rfl, rfl, .inl rfl⟩, ⟨rfl, rfl, .inl rfl⟩, rfl⟩

theorem modest_changeEvent (stamp : Stamp) {change : Members → Members}
    (hchange : ∀ event, Marks event (change event)) :
    Within (Modest free stamp.run)
      (Act.onRun fun run => run.changeEvent stamp change : Act Handler Unit) :=
  .modify fun _ => ⟨⟨rfl, rfl, rfl, .inl rfl, rfl, .inr ⟨stamp, change, rfl, rfl⟩⟩,
    ⟨rfl, rfl, .inr ⟨stamp, change, hchange, rfl⟩⟩, rfl⟩

theorem modest_leaveMark (call : Call Handler) :
    Within (Modest free call.stamp.run) (leaveMark call) := by
  unfold leaveMark
  split
  · exact .outcome _
  · exact modest_changeEvent call.stamp fun _ => .inl rfl
  · exact modest_changeEvent call.stamp fun _ => .inr rfl

theorem modest_perform (call : Call Handler) (deed : Deed) (hstop : deed = .stop → free) :
    Within (Modest free call.stamp.run) (deed.perform call) := by
  cases deed with
  | nothing => exact .outcome _
  | stop =>
      exact .modify fun _ => ⟨⟨rfl, rfl, rfl, .inr ⟨hstop rfl, nofun⟩, rfl, .inl rfl⟩,
        ⟨rfl, rfl, .inl rfl⟩, rfl⟩
  | addRuntimeFact id value => exact modest_onAlmanac fun almanac => almanac.addRuntimeFact id value
  | addFact fact => exact modest_onAlmanac fun almanac => fact.bind almanac.addFact
  | fail message => exact .outcome _
  | addRule definition =>
      exact .bind (modest_withEngine fun engine => keeps_addRuleOf engine definition)
        fun _ => .outcome _
  | updateRule definition =>
      exact .bind (modest_withEngine fun engine => keeps_updateRuleOf engine definition)
        fun _ => .outcome _
  | removeRule name => exact .modify fun scene => (keeps_removeRule scene.engine name).modest
  | setCondition name definition =>
      exact .bind (modest_withEngine fun engine => keeps_setCondition engine name definition)
        fun _ => .outcome _
  | mark => exact modest_leaveMark call

theorem modest_handle (call : Call Handler) (hstop : call.handler.deed = .stop → free) :
    Within (Modest free call.stamp.run) (handle call) := by
  have hperform := modest_perform call call.handler.deed hstop
  unfold handle
  split
  · exact .bind .pause fun _ => hperform
  · exact hperform

theorem within_handle (call : Call Handler) (hstop : call.handler.deed = .stop → free) :
    Within (Discreet free call.stamp.run) (handle call) :=
  (modest_handle call hstop).mono fun _ _ => Modest.discreet

theorem unfailing_handle {call : Call Handler} (h : call.handler.deed = .nothing) :
    (handle call).Unfailing := by
  intro next other hsame
  unfold handle
  rw [h]
  split
  · exact congrArg Strand.pause (hsame ())
  · exact hsame ()

/-- The handlers of the catalogue are as is asked of handlers. -/
theorem polite_handle : Polite Handler.stops False handle where
  quiet call hstops := within_handle call fun hstop => by
    simp [Handler.stops, hstop] at hstops
  stopping call hstops := by
    have hdeed : call.handler.deed = .stop := by
      unfold Handler.stops at hstops
      split at hstops
      · assumption
      · cases hstops
    refine ⟨if call.handler.yields then Eval.pause else pure (), pure (), ?_, ?_, .outcome _⟩
    · unfold handle
      rw [hdeed]
      split <;> rfl
    · split
      · exact .pause
      · exact .outcome _

/-! ### Handlers that keep to their run -/

/-- The deed leaves the engine as it is, and no facts but pure ones come from it. -/
def Deed.Reserved : Deed → Prop
  | .nothing | .addRuntimeFact _ _ | .fail _ | .mark => True
  | .addFact fact => ∀ given, fact = .ok given → given.Pure
  | .stop | .addRule _ | .updateRule _ | .removeRule _ | .setCondition _ _ => False

variable {engine : Engine Handler} {asked : Engine Handler → Prop} {other : Nat → Nat}

theorem twins_leaveMark (hother : Function.Injective other) (call : Call Handler) :
    Twins (Beside asked other) (leaveMark call) (leaveMark (call.renumber other)) := by
  have hchanged : ∀ change, Twins (Beside asked other)
      (Act.onRun fun run => run.changeEvent call.stamp change)
      (Act.onRun fun run => run.changeEvent (call.stamp.renumber other) change) := fun change =>
    twins_onRun (fun run => run.renumber_changeEvent hother call.stamp change) fun _ hpure => hpure
  unfold leaveMark
  rw [Call.renumber]
  dsimp only
  split
  · exact .outcome _
  · exact hchanged marked
  · exact hchanged markedPayload

theorem Deed.Reserved.twins_perform {deed : Deed} (h : deed.Reserved)
    (hother : Function.Injective other) (call : Call Handler) :
    Twins (Beside asked other) (deed.perform call) (deed.perform (call.renumber other)) := by
  cases deed with
  | nothing => exact .outcome _
  | addRuntimeFact id value =>
      exact twins_onAlmanac fun _ _ hpure hadded => hpure.addRuntimeFact hadded
  | addFact fact =>
      rw [Deed.perform]
      refine twins_onAlmanac fun almanac later hpure hadded => ?_
      cases fact with
      | error e => cases hadded
      | ok given => exact hpure.addFact (h given rfl) hadded
  | fail message => exact .outcome _
  | mark => exact twins_leaveMark hother call
  | stop => exact h.elim
  | addRule definition => exact h.elim
  | updateRule definition => exact h.elim
  | removeRule name => exact h.elim
  | setCondition name definition => exact h.elim

/-- Handlers that keep to their run do in it what they do in one with another number. -/
theorem heedful_handle (hother : Function.Injective other)
    (h : ∀ event, ∀ handler ∈ engine.handlersOf event, handler.deed.Reserved) :
    Heedful handle engine asked other := by
  intro event call hcall
  have hperform : Twins (Beside asked other) _ _ := (h event _ hcall).twins_perform hother call
  obtain ⟨⟨tag, deed, yields⟩, stamp, subject, argument, rule, result⟩ := call
  cases yields with
  | false => exact hperform
  | true => exact Twins.pause.bind fun _ => hperform

/-- Handlers that keep to their run are as is asked of handlers of overlapping calls. -/
theorem considerate_handle
    (h : ∀ event, ∀ handler ∈ engine.handlersOf event, handler.deed.Reserved) :
    Considerate handle engine :=
  considerate_iff.2 (heedful_handle Function.injective_id h)

end Rulebook.Catalogue
