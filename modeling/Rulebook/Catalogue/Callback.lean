import Rulebook.Almanac
import Rulebook.Operator.Builtin
import Rulebook.Text.Lower

/-!
A catalogue of comparisons, wrappings, guards and path resolvers by name.  What is no name in the
catalogue is no callback.
-/

namespace Rulebook.Catalogue

/-- Does a text start with another, or with one of the texts in a tuple? -/
def startsWith : Comparison := fun fact value =>
  match fact with
  | .str text =>
      match value with
      | .str start => .ok (start.toList.isPrefixOf text.toList)
      | .tuple starts =>
          Builtin.someItem
            (fun start => match start with
              | .str start => .ok (start.toList.isPrefixOf text.toList)
              | _ => .error .type)
            starts
      | _ => .error .type
  | _ => .error (.misuse .attribute)

/-- The comparison of a name. -/
def comparison? : Value → Option Comparison
  | .str "startsWith" => some startsWith
  | .str "true" => some fun _ _ => .ok true
  | .str "false" => some fun _ _ => .ok false
  | .str "fact" => some fun fact _ => .ok fact.truthy
  | .str "value" => some fun _ value => .ok value.truthy
  | .str "equal" => some fun fact value => .ok (fact == value)
  | _ => none

/-- How many parts a value has. -/
def size : Value → Except Error Nat
  | .str text => .ok text.length
  | .list items => .ok items.length
  | .tuple items => .ok items.length
  | .set items => .ok items.length
  | .object members => .ok members.length
  | _ => .error .type

/-- The lower case of a text. -/
def lowered : Value → Except Error Value
  | .str text => .ok (.str (Text.lower text))
  | _ => .error (.misuse .attribute)

/-- The wrapping of a name. -/
def wrapping? : Value → Option Wrapping
  | .str "length" => some fun next fact value => do next (.nat (← size fact)) value
  | .str "lower" => some fun next fact value => do next (← lowered fact) value
  | .str "same" => some fun next fact value => next fact value
  | .str "wrap" => some fun next fact value => next (.list [fact]) value
  | .str "twice" => some fun next fact value => do
      if ← next fact value then next value fact else return false
  | .str "true" => some fun _ _ _ => .ok true
  | _ => none

/-- The guard of a name; anything else accepts every value. -/
def guard : Value → Guard
  | .str "string" => fun value => .ok value.text?.isSome
  | .str "array" => Builtin.isArray
  | .str "number" => Builtin.isNumber
  | .str "reject" => fun _ => .ok false
  | _ => Guard.none

/-- The item of a list at a place, which may be counted from the end. -/
def itemAt (items : List Value) (place : Int) : Except Error Value :=
  match Path.itemAt? items place with
  | some item => .ok item
  | none => .error (.misuse .index)

/-- The path is the name of a member, or the place of an item. -/
def resolveKey : PathResolver := fun value path =>
  match value with
  | .object members =>
      match path with
      | .str name =>
          match Table.find? members name with
          | some value => .ok value
          | none => .error (.misuse .key)
      | path => if path.hashable then .error (.misuse .key) else .error .type
  | .list items =>
      match path with
      | .int place => itemAt items place
      | .bool place => itemAt items (if place then 1 else 0)
      | _ => .error .type
  | _ => .error .type

/-- The path together with the value. -/
def resolveTag : PathResolver := fun value path => .ok (.list [path, value])

/-- The path resolver of a name; anything else is the standard one. -/
def resolver : Value → PathResolver
  | .str "key" => resolveKey
  | .str "tag" => resolveTag
  | _ => PathResolver.standard

end Rulebook.Catalogue
