import Rulebook.Pattern.Fill
import Rulebook.Value.Equality

/-!
Structured logging.  Log lines are objects.  A line is written when its level is at least that of
the log, which the first configuration fixes.  It is made of the fields and the event that are
logged: the positional values are put into the event, and the line is completed with its logger and
its level, with the service that the logger's name starts with, and with the run and the rule that
are going on.
-/

namespace Rulebook

/-- How grave a line is. -/
inductive Level where
  | debug
  | info
  | warning
  | error
  | critical
  deriving DecidableEq, Repr

namespace Level

/-- The rank of a level; the graver, the greater. -/
def rank : Level → Nat
  | .debug => 10
  | .info => 20
  | .warning => 30
  | .error => 40
  | .critical => 50

/-- The name of a level as lines show it. -/
def word : Level → String
  | .debug => "debug"
  | .info => "info"
  | .warning => "warning"
  | .error => "error"
  | .critical => "critical"

/-- The level of the lines that are logged under a word. -/
def ofWord? : String → Option Level
  | "debug" => some .debug
  | "info" => some .info
  | "warning" => some .warning
  | "warn" => some .warning
  | "error" => some .error
  | "exception" => some .error
  | "critical" => some .critical
  | "fatal" => some .critical
  | _ => none

theorem ofWord?_word (level : Level) : ofWord? level.word = some level := by
  cases level <;> rfl

end Level

/-- The state of logging: whether it was configured, whether lines are written, the least rank of
those that are, and the run and the rule that are going on. -/
structure Log where
  configured : Bool
  writes : Bool
  leastRank : Nat
  run : Value
  rule : Option String

namespace Log

/-- Not configured, nothing going on. -/
def empty : Log := ⟨false, false, Level.warning.rank, .null, none⟩

/-! ### Configuration -/

/-- What a name of the configuration stands for: a rank, or something that is refused as one. -/
inductive Threshold where
  | rank (n : Nat)
  | refused (error : Error)

/-- The capital of a letter, where it is one of ASCII; two letters beyond ASCII have such a one. -/
def capital (c : Char) : Char :=
  if c.toNat = 0x131 then 'I' else if c.toNat = 0x17F then 'S' else c.toUpper

/-- What a name stands for, in whichever case it is written.  Besides the levels there are two names
of other things. -/
def threshold? (name : String) : Option Threshold :=
  match String.ofList (name.toList.map capital) with
  | "NOTSET" => some (.rank 0)
  | "DEBUG" => some (.rank Level.debug.rank)
  | "INFO" => some (.rank Level.info.rank)
  | "WARN" => some (.rank Level.warning.rank)
  | "WARNING" => some (.rank Level.warning.rank)
  | "ERROR" => some (.rank Level.error.rank)
  | "CRITICAL" => some (.rank Level.critical.rank)
  | "FATAL" => some (.rank Level.critical.rank)
  | "BASIC_FORMAT" => some (.refused (.misuse .value))
  | "_STYLES" => some (.refused .type)
  | _ => none

/-- Configure the log.  Once lines are written, the least rank stays what it is. -/
def configure (log : Log) (level : Value) : Except Error Unit × Log :=
  let log := { log with configured := true }
  match level.text?.bind threshold? with
  | none => (.error (.misuse .attribute), log)
  | some threshold =>
      if log.writes then (.ok (), log)
      else
        let log := { log with writes := true }
        match threshold with
        | .rank n => (.ok (), { log with leastRank := n })
        | .refused e => (.error e, log)

/-- Configure the log unless it was configured before. -/
def ensure (log : Log) (level : Value) : Except Error Unit × Log :=
  if log.configured then (.ok (), log) else log.configure level

/-- Tell which run is going on. -/
def setRun (log : Log) (id : Value) : Log := { log with run := id }

/-- Tell which rule is going on. -/
def setRule (log : Log) (name : Value) : Log :=
  { log with rule := match name with
    | .null => none
    | name => some name.display }

/-- Nothing is going on. -/
def clear (log : Log) : Log := { log with run := .null, rule := none }

/-! ### Lines -/

/-- The name of a logger; one that counts as false is the root. -/
def loggerName (name : Value) : Except Error String :=
  if !name.truthy then .ok "root"
  else match name with
    | .str name => .ok name
    | _ => .error .type

/-- The level of the lines that are logged under a word given as a value. -/
def levelOf (word : Value) : Except Error Level :=
  match word with
  | .str word =>
      match Level.ofWord? word with
      | some level => .ok level
      | none => .error (.misuse .attribute)
  | _ => .error .type

/-- The names that no field may have, as what is logged besides fields goes by them. -/
def reserved : List String := ["self", "method_name", "event"]

/-- The values for the places of an event.  They must have a length; an object alone in a list or a
tuple stands for itself, unless it is empty. -/
def positionsOf : Value → Except Error Value
  | .tuple [.object (member :: rest)] => .ok (.object (member :: rest))
  | .list [.object (member :: rest)] => .ok (.object (member :: rest))
  | .object [_] => .error (.misuse .key)
  | .set [_] => .error .type
  | .str text => .ok (.str text)
  | .tuple items => .ok (.tuple items)
  | .list items => .ok (.list items)
  | .object members => .ok (.object members)
  | .set items => .ok (.set items)
  | _ => .error .type

/-- Put values into the places of the event of a line. -/
def fillEvent (line : Members) (positions : Value) : Except Error Members := do
  let values ← positionsOf positions
  match Table.find? line "event" with
  | none => .error (.misuse .key)
  | some (.str pattern) => return Table.insert line "event" (.str (← Pattern.fill pattern values))
  | some _ => .error .type

/-- Put the positional values of a line into its event and take them away; those that count as
false are only taken away, and null stays. -/
def withPositions (line : Members) : Except Error Members :=
  match (Table.find? line "positional_args").getD .null with
  | .null => .ok line
  | positions =>
      let line := Table.erase line "positional_args"
      if positions.truthy then fillEvent line positions else .ok line

/-- The part of a text before its first point. -/
def untilPoint (text : String) : String :=
  String.ofList (text.toList.takeWhile (· != '.'))

/-- Complete a line with the service of its logger, if the logger's name has parts. -/
def withService (line : Members) : Except Error Members :=
  match (Table.find? line "logger").getD (.str "") with
  | .str name =>
      if name.toList.contains '.' then .ok (Table.insert line "service" (.str (untilPoint name)))
      else .ok line
  | other =>
      match other.items? with
      | some items =>
          if (Value.str ".").among items then .error (.misuse .attribute) else .ok line
      | none => .error .type

/-- Complete a line with the run and the rule that are going on. -/
def withCorrelation (log : Log) (line : Members) : Members :=
  let line := if log.run.truthy then Table.insert line "run_id" log.run else line
  match log.rule with
  | some rule => if rule.isEmpty then line else Table.insert line "rule_name" (.str rule)
  | none => line

mutual

/-- A value as it comes back from a line: tuples are lists, and sets are shown in literal form. -/
def plain : Value → Value
  | .set items => .str (Value.set items).literal
  | .list items => .list (plainAll items)
  | .tuple items => .list (plainAll items)
  | .object members => .object (plainMembers members)
  | value => value

/-- Items as they come back from a line. -/
def plainAll : List Value → List Value
  | [] => []
  | item :: rest => plain item :: plainAll rest

/-- Members as they come back from a line. -/
def plainMembers : List (String × Value) → List (String × Value)
  | [] => []
  | (name, value) :: rest => (name, plain value) :: plainMembers rest

end

/-- Complete a line of fields.  The time of a line stands in it as what kind of value it is. -/
def compose (log : Log) (logger : String) (level : Level) (event : Value) (fields : Members) :
    Except Error Members := do
  let line := match event with
    | .null => fields
    | event => Table.insert fields "event" event
  if (Table.find? line "_record").getD .null != .null then
    throw (.misuse .attribute)
  let line := Table.insert line "logger" (.str logger)
  let line := Table.insert line "level" (.str level.word)
  let line ← withPositions line
  let line := Table.erase (Table.erase line "stack_info") "exc_info"
  let line := log.withCorrelation (← withService line)
  return plainMembers (Table.insert line "timestamp" (.str "float"))

/-- The lines that logging an event under a word writes: one, or none. -/
def lines (log : Log) (logger word event : Value) (fields : Members) :
    Except Error (List Members) := do
  let logger ← loggerName logger
  let level ← levelOf word
  if fields.any fun field => reserved.contains field.1 then
    throw .type
  if !log.configured || level.rank < log.leastRank then
    return []
  let line ← log.compose logger level event fields
  return if log.writes then [line] else []

/-- An event below the least rank writes nothing. -/
theorem lines_of_rank_lt {log : Log} {level : Level} {name : String} {event : Value}
    {fields : Members} (named : name ≠ "")
    (free : ∀ field ∈ fields, field.1 ∉ reserved) (low : level.rank < log.leastRank) :
    log.lines (.str name) (.str level.word) event fields = .ok [] := by
  simpa [lines, loggerName, levelOf, Level.ofWord?_word, Value.truthy, bind, Except.bind, pure,
    Except.pure, low, named] using fun name value member => free (name, value) member

end Log

end Rulebook
