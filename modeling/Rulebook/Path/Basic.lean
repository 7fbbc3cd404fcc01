import Rulebook.Value.Equality

/-!
Paths into values.  A path is a list of steps from the root; each step takes every value reached so
far to the values it selects there, in order.
-/

namespace Rulebook

namespace Path

/-- The bounds of a run of list items; missing bounds are the ends, a missing stride is one. -/
structure Slice where
  start : Option Int
  stop : Option Int
  stride : Option Int
  deriving DecidableEq, Repr

/-- What is picked from one value. -/
inductive Pick where
  /-- The members with these names, of an object. -/
  | names (wanted : List String)
  /-- All items of an array, all members of an object. -/
  | all
  /-- The items at these places of an array, negative ones counted from its end. -/
  | indices (wanted : List Int)
  /-- A run of the items of an array. -/
  | slice (bounds : Slice)
  deriving DecidableEq, Repr

/-- A pick from a value itself, or from it and everything below it. -/
inductive Move where
  | child (pick : Pick)
  | descend (pick : Pick)
  deriving DecidableEq, Repr

/-- A comparison inside a filter. -/
inductive Relation where
  | equal
  | unequal
  | less
  | lessEqual
  | greater
  | greaterEqual
  deriving DecidableEq, Repr

/-- A filter: what is asked of an item. -/
inductive Test where
  /-- There is something at the end of these moves. -/
  | present (moves : List Move)
  /-- What is there stands in a relation to a constant. -/
  | compare (moves : List Move) (relation : Relation) (constant : Value)
  | both (left right : Test)
  | either (left right : Test)
  deriving Repr

/-- One step of a path. -/
inductive Step where
  | move (m : Move)
  | filter (test : Test)
  | descendFilter (test : Test)
  deriving Repr

end Path

/-- A path is a list of steps from the root. -/
abbrev Path := List Path.Step

end Rulebook
