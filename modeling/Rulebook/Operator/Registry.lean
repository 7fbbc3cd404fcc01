import Rulebook.Operator.Builtin
import Rulebook.Table

/-!
A registry holds the operators and decorators that conditions may name.

A name such as `not:someFact:equal` is read from the left: as long as the whole is not the name of
an operator, the part before the first separator is taken off and must name a decorator.  Looking a
decorated name up puts the operator together, and the registry remembers it under its name, with
every part of it that was put together on the way, until one of its parts is replaced or removed.
-/

namespace Rulebook

/-- An operator with the number of its entry: two look-ups gave the same entry exactly when the
numbers agree. -/
structure RegistryEntry where
  operator : Operator
  serial : Nat

/-- Operators and decorators by name, and the operators put together so far. -/
structure Registry where
  operators : Table String RegistryEntry
  decorators : Table String Decorator
  composed : Table String RegistryEntry
  nextSerial : Nat

namespace Registry

/-- Nothing registered. -/
def empty : Registry := ⟨[], [], [], 0⟩

/-- The parts of a name between separators. -/
def segmentsOf : List Char → List (List Char)
  | [] => [[]]
  | c :: rest =>
      if c = ':' then [] :: segmentsOf rest
      else match segmentsOf rest with
        | [] => [[c]]
        | segment :: others => (c :: segment) :: others

/-- The parts of a name between separators; there is always at least one. -/
def segments (name : String) : List String :=
  (segmentsOf name.toList).map String.ofList

/-- Put the parts of a name together. -/
def join (segments : List String) : String := Decorator.separator.intercalate segments

/-- The last part of a name. -/
def lastSegment (name : String) : String := ((segments name).getLast?).getD ""

/-- The parts of a name before the last. -/
def leadingSegments (name : String) : List String := (segments name).dropLast

/-- Forget the compositions whose names satisfy a test. -/
def forget (registry : Registry) (stale : String → Bool) : Registry :=
  { registry with composed := registry.composed.filter fun entry => !stale entry.1 }

/-- Register an operator in place of one with the same name, and forget the compositions that end
in that name. -/
def addOperator (registry : Registry) (operator : Operator) : Registry :=
  let entry := ⟨operator, registry.nextSerial⟩
  let registry := { registry with
    operators := registry.operators.insert operator.name entry
    nextSerial := registry.nextSerial + 1 }
  registry.forget fun name => lastSegment name == operator.name

/-- Register a decorator in place of one with the same name, and forget the compositions that it
may be part of. -/
def addDecorator (registry : Registry) (decorator : Decorator) : Registry :=
  let registry := { registry with
    decorators := registry.decorators.insert decorator.name decorator }
  registry.forget fun name => (leadingSegments name).contains decorator.name

/-- Remove an operator, and the compositions built on it; tells whether there was one. -/
def removeOperator (registry : Registry) (name : String) : Bool × Registry :=
  let registry := registry.forget fun composed =>
    (Decorator.separator ++ name).toList.isSuffixOf composed.toList
  (registry.operators.has name, { registry with operators := registry.operators.erase name })

/-- Remove a decorator, and the compositions that use it; tells whether there was one. -/
def removeDecorator (registry : Registry) (name : String) : Bool × Registry :=
  let registry := registry.forget fun composed => (leadingSegments composed).contains name
  (registry.decorators.has name, { registry with decorators := registry.decorators.erase name })

/-- The built-in operators and decorators. -/
def withDefaults : Registry :=
  Builtin.decorators.foldl addDecorator (Builtin.operators.foldl addOperator empty)

/-- What a name is made of: the decorators from the outermost inward, and the base operator. -/
structure Resolution where
  decorators : List Decorator
  base : RegistryEntry

/-- Read the parts of a name from the left. -/
def resolveSegments (registry : Registry) (name : String) : List String → Except Error Resolution
  | [] => .error (.unknownOperator name)
  | segment :: rest =>
      match registry.operators.find? (join (segment :: rest)) with
      | some base => .ok ⟨[], base⟩
      | none =>
          if rest.isEmpty || segment.isEmpty then .error (.unknownOperator name)
          else
            match registry.decorators.find? segment with
            | none => .error (.unknownDecorator name (.str segment))
            | some decorator =>
                match resolveSegments registry name rest with
                | .error e => .error e
                | .ok found => .ok { found with decorators := decorator :: found.decorators }

/-- What a name is made of, composition cache aside. -/
def resolve (registry : Registry) (name : String) : Except Error Resolution :=
  resolveSegments registry name (segments name)

/-- The operator that a resolved name stands for. -/
def Resolution.operator (found : Resolution) : Operator :=
  found.decorators.foldr Decorator.decorate found.base.operator

/-- Wrap an entry in decorators, the last one first, remembering each composition under its name
unless one is remembered there already. -/
def compose (registry : Registry) (base : RegistryEntry) :
    List Decorator → RegistryEntry × Registry
  | [] => (base, registry)
  | decorator :: rest =>
      let (inner, registry) := compose registry base rest
      let operator := decorator.decorate inner.operator
      let entry := ⟨operator, registry.nextSerial⟩
      (entry, { registry with
        composed := registry.composed.insertNew operator.name entry
        nextSerial := registry.nextSerial + 1 })

/-- Look a name up: a registered operator, a remembered composition, or a new composition. -/
def lookup (registry : Registry) (name : String) : Except Error RegistryEntry × Registry :=
  match registry.operators.find? name with
  | some entry => (.ok entry, registry)
  | none =>
      match registry.composed.find? name with
      | some entry => (.ok entry, registry)
      | none =>
          match registry.resolve name with
          | .error e => (.error e, registry)
          | .ok found =>
              let (entry, registry) := registry.compose found.base found.decorators
              (.ok entry, registry)

/-- The operator of a name. -/
def get (registry : Registry) (name : String) : Except Error Operator × Registry :=
  let (entry, registry) := registry.lookup name
  (entry.map RegistryEntry.operator, registry)

/-- Does the name stand for an operator? -/
def has (registry : Registry) (name : String) : Bool × Registry :=
  let (entry, registry) := registry.lookup name
  (entry.toOption.isSome, registry)

/-- Look a name up and compare two values with it. -/
def evaluate (registry : Registry) (name : String) (fact value : Value) :
    Except Error Bool × Registry :=
  let (operator, registry) := registry.get name
  (operator.bind fun operator => operator.evaluate fact value, registry)

/-- The error of wrapping an operator in a decorator that is not registered. -/
def notDecorator (decorator : Value) (operator : Operator) : Error :=
  .unknownDecorator (decorator.display ++ Decorator.separator ++ operator.name) decorator

/-- Wrap an operator in the decorator of a name. -/
def apply (registry : Registry) (decorator : String) (operator : Operator) :
    Except Error Operator :=
  match registry.decorators.find? decorator with
  | none => .error (notDecorator (.str decorator) operator)
  | some found => .ok (found.decorate operator)

/-! ### Names given as values

Only texts are names.  A value that cannot be a key is of the wrong type, and any other value has no
parts that could be read. -/

/-- Look up a name given as a value. -/
def lookupValue (registry : Registry) (name : Value) : Except Error RegistryEntry × Registry :=
  match name with
  | .str name => registry.lookup name
  | name => (.error (if name.hashable then .misuse .attribute else .type), registry)

/-- The operator of a name given as a value. -/
def getValue (registry : Registry) (name : Value) : Except Error Operator × Registry :=
  let (entry, registry) := registry.lookupValue name
  (entry.map RegistryEntry.operator, registry)

/-- Does a name given as a value stand for an operator? -/
def hasValue (registry : Registry) (name : Value) : Except Error Bool × Registry :=
  match registry.lookupValue name with
  | (.ok _, registry) => (.ok true, registry)
  | (.error (.unknownOperator _), registry) => (.ok false, registry)
  | (.error (.unknownDecorator _ _), registry) => (.ok false, registry)
  | (.error e, registry) => (.error e, registry)

/-- Compare two values with the operator of a name given as a value. -/
def evaluateValue (registry : Registry) (name fact value : Value) :
    Except Error Bool × Registry :=
  let (operator, registry) := registry.getValue name
  (operator.bind fun operator => operator.evaluate fact value, registry)

/-- Wrap an operator in the decorator of a name given as a value. -/
def applyValue (registry : Registry) (decorator : Value) (operator : Operator) :
    Except Error Operator :=
  match decorator with
  | .str decorator => registry.apply decorator operator
  | decorator => .error (if decorator.hashable then notDecorator decorator operator else .type)

/-- Remove the operator of a name given as a value. -/
def removeOperatorValue (registry : Registry) (name : Value) : Except Error Bool × Registry :=
  match name with
  | .str name =>
      let (removed, registry) := registry.removeOperator name
      (.ok removed, registry)
  | name =>
      if name.hashable && registry.composed.isEmpty then (.ok false, registry)
      else (.error .type, registry)

/-- Remove the decorator of a name given as a value. -/
def removeDecoratorValue (registry : Registry) (name : Value) : Except Error Bool × Registry :=
  match name with
  | .str name =>
      let (removed, registry) := registry.removeDecorator name
      (.ok removed, registry)
  | name => (if name.hashable then .ok false else .error .type, registry)

end Registry

end Rulebook
