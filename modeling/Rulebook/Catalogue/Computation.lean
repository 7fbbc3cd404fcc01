import Rulebook.Almanac
import Rulebook.Value.Equality
import Rulebook.Value.Sum

/-!
A catalogue of computations.  Each of them notes its call, under the id of its fact, before it does
anything else.
-/

namespace Rulebook.Catalogue

/-- A computation. -/
inductive Computation where
  /-- A value, whatever the parameters are. -/
  | value (value : Value)
  /-- A value for parameters that can be copied into an object. -/
  | copying (value : Value)
  /-- The number of calls so far. -/
  | count
  /-- The parameters. -/
  | params
  /-- One of the parameters, or a value in its place. -/
  | param (key default : Value)
  | fail (message : String)
  /-- Some failures, then a value. -/
  | failFirst (times : Int) (value : Value)
  /-- The value of another fact, to which a value may be added. -/
  | fact (request : FactRequest) (add : Option Value)
  /-- The Fibonacci number of the parameter `n`, by way of those before it. -/
  | fibonacci

/-- The entry that an item makes when an object is copied from a list of pairs. -/
def pairFault? (item : Value) : Option Misuse :=
  match item.items? with
  | none => some .type
  | some [key, _] => if key.hashable then none else some .type
  | some _ => some .value

/-- What keeps parameters from being copied into an object. -/
def copyFault? (params : Value) : Option Misuse :=
  match params with
  | .object _ => none
  | params =>
      match params.items? with
      | none => some .type
      | some items => items.findSome? pairFault?

/-- Go on with the outcome of a request. -/
def withAnswer (answer : Except Error Value) (next : Value → Program) : Program :=
  match answer with
  | .ok value => next value
  | .error e => .fail e

/-- The outcome of a computation without further requests. -/
def ended : Except Error Value → Program
  | .ok value => .done value
  | .error e => .fail e

/-- One of the parameters. -/
def parameter (params key default : Value) : Except Error Value :=
  match params with
  | .object members =>
      if !key.hashable then .error .type
      else
        match key with
        | .str name => .ok ((Table.find? members name).getD default)
        | _ => .ok default
  | _ => .error (.misuse .attribute)

/-- The parameter `n`, which there has to be. -/
def countParameter : Value → Except Error Value
  | .object members =>
      match Table.find? members "n" with
      | some n => .ok n
      | none => .error (.misuse .key)
  | _ => .error .type

/-- Is a number less than two? -/
def belowTwo (value : Value) : Except Error Bool :=
  match value.number? with
  | some number => .ok (number.less (.int 2))
  | none => .error .type

/-- The request for the Fibonacci number that is some places before `k`. -/
def earlier (id k : Value) (places : Int) : Except Error FactRequest := do
  let n ← k.sum (.int (-places))
  return { fact := id, params := .object [("n", n)], path := .null }

/-- The Fibonacci number of `k`. -/
def fibonacciOf (id k : Value) : Program :=
  match belowTwo k with
  | .error e => .fail e
  | .ok true => .done k
  | .ok false =>
      match earlier id k 1, earlier id k 2 with
      | .ok first, .ok second =>
          .ask first fun answer => withAnswer answer fun a =>
            .ask second fun answer => withAnswer answer fun b => ended (a.sum b)
      | .error e, _ => .fail e
      | _, .error e => .fail e

/-- What a computation does after it noted the `n`-th call for the fact `id`. -/
def Computation.outcome (id params : Value) (n : Nat) : Computation → Program
  | .value given => .done given
  | .copying given =>
      match copyFault? params with
      | some misuse => .fail (.misuse misuse)
      | none => .done given
  | .count => .done (.nat n)
  | .params => .done params
  | .param key default => ended (parameter params key default)
  | .fail message => .fail (.raised message)
  | .failFirst times given =>
      if (n : Int) ≤ times then .fail (.raised s!"failure {n}") else .done given
  | .fact request add =>
      .ask request fun answer => withAnswer answer fun found =>
        match add with
        | some addend => ended (found.sum addend)
        | none => .done found
  | .fibonacci =>
      match countParameter params with
      | .error e => .fail e
      | .ok k => fibonacciOf id k

/-- A computation as the source of a fact's values.  It lets others go first some number of times
after it noted its call. -/
def Computation.source (computation : Computation) (delay : Nat) (id : Value) : FactSource :=
  .computed fun params => .note id.display params fun n =>
    .delay delay (computation.outcome id params n)

end Rulebook.Catalogue
