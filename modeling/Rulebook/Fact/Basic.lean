import Rulebook.Validation
import Rulebook.Json.Writer
import Rulebook.Digest

/-!
Facts are named sources of values: a constant, or a computation from parameters.  A computation may
ask for other facts and may be remembered per parameters.
-/

namespace Rulebook

/-- How a fact is scheduled, and whether its computed values are remembered. -/
structure FactOptions where
  priority : Priority
  cache : Bool
  deriving DecidableEq, Repr

/-- A request for the value of a fact, with parameters and a path into the value. -/
structure FactRequest where
  fact : Value
  params : Value
  path : Value

/-- The request that a value is: an object that names a fact, with optional parameters and path. -/
def FactRequest.ofValue? (value : Value) : Option FactRequest :=
  match value with
  | .object members =>
      (Table.find? members "fact").map fun fact =>
        { fact
          params := (Table.find? members "params").getD .null
          path := (Table.find? members "path").getD .null }
  | _ => none

/-- A computation in progress: it is done, it fails, it asks for a fact and goes on with what comes
back, it notes that it was called and goes on with the number of notes so far, or it lets others go
first. -/
inductive Program where
  | done (value : Value)
  | fail (error : Error)
  | ask (request : FactRequest) (next : Except Error Value → Program)
  | note (label : String) (params : Value) (next : Nat → Program)
  | pause (next : Program)

/-- Let others go first some number of times. -/
def Program.delay : Nat → Program → Program
  | 0, program => program
  | times + 1, program => .pause (delay times program)

/-- Where the value of a fact comes from. -/
inductive FactSource where
  | constant (value : Value)
  | computed (program : Value → Program)

/-- A named source of values. -/
structure Fact where
  id : Value
  options : FactOptions
  source : FactSource

namespace FactOptions

/-- First priority, and computed values are remembered. -/
def default : FactOptions := ⟨Priority.first, true⟩

/-- Read options from the members of an object. -/
def ofMembers (members : Members) : Validation.Reading FactOptions :=
  Validation.both FactOptions.mk
    (Validation.field members "priority" Validation.priority (some Priority.first))
    (Validation.field members "cache" Validation.bool (some true))

/-- Read options that stand on their own, which are an object even when it is empty. -/
def read (value : Value) : Except Error FactOptions :=
  match value with
  | .object members => (ofMembers members).mapError Error.invalid
  | _ => .error .type

end FactOptions

namespace Fact

/-- Define a fact.  It needs an id that counts as true; options that count as false are none. -/
def define (id : Value) (source : FactSource) (options : Value) : Except Error Fact :=
  if !id.truthy then .error (.factDefinition .noId)
  else if !options.truthy then .ok ⟨id, FactOptions.default, source⟩
  else
    match options with
    | .object members =>
        match FactOptions.ofMembers members with
        | .ok options => .ok ⟨id, options, source⟩
        | .error faults => .error (.factDefinition (.badOptions id faults))
    | _ => .error .type

/-- Define a fact with options that were read before. -/
def defineWith (id : Value) (source : FactSource) (options : FactOptions) : Except Error Fact :=
  if id.truthy then .ok ⟨id, options, source⟩ else .error (.factDefinition .noId)

/-- The text under which a fact is counted. -/
def label (fact : Fact) : String := fact.id.display

/-- Is the value of the fact given and not computed? -/
def isConstant (fact : Fact) : Bool :=
  match fact.source with
  | .constant _ => true
  | .computed _ => false

/-- The given value of a fact. -/
def constant? (fact : Fact) : Option Value :=
  match fact.source with
  | .constant value => some value
  | .computed _ => none

/-- Are computed values of the fact remembered? -/
def cacheable (fact : Fact) : Bool := fact.options.cache && !fact.isConstant

/-- Parameters that count as false are no parameters. -/
def normalParams (params : Value) : Value := if params.truthy then params else .empty

/-- The text that tells a remembered computation from others: the canonical text of the id with the
parameters. -/
def signatureText (id params : Value) : String :=
  Json.canonical (.object [("id", id), ("params", normalParams params)])

/-- The signature text of a fact whose values are remembered. -/
def signatureText? (fact : Fact) (params : Value) : Option String :=
  if fact.cacheable then some (signatureText fact.id params) else none

/-- The signature: the digest of the signature text. -/
def signature? (fact : Fact) (params : Value) : Option String :=
  (fact.signatureText? params).map Digest.ofText

/-- The literal form of a fact. -/
def literal (fact : Fact) : String :=
  s!"Fact({fact.id.literal}, priority={fact.options.priority.level}, " ++
    s!"cache={(Value.bool fact.options.cache).literal})"

end Fact

end Rulebook
