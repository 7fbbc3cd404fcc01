import Rulebook.Validation

/-!
The configuration of an engine: six settings, each a text or a flag.  A setting comes from the
overrides, else from the environment, else it has its default.  The names of overrides and of
environment variables are matched in any case, and names that belong to no setting are ignored.
Of overrides with one name the first counts, of variables with one name the last.
-/

namespace Rulebook

/-- What a setting is. -/
inductive SettingKind where
  | text
  | flag
  deriving DecidableEq, Repr

/-- A setting with its default. -/
structure Setting where
  name : String
  kind : SettingKind
  default : Value

/-- Read the value of a setting. -/
def Setting.read (setting : Setting) (value : Value) : Except FieldCause Value :=
  match setting.kind with
  | .text => (Validation.text value).map .str
  | .flag => (Validation.bool value).map .bool

/-- The settings of an engine by name. -/
abbrev Config := Members

namespace Config

/-- Every setting. -/
def settings : List Setting := [
  ⟨"env", .text, .str "local"⟩,
  ⟨"log_level", .text, .str "info"⟩,
  ⟨"enable_metrics", .flag, .bool true⟩,
  ⟨"engine_name", .text, .str "rules_engine"⟩,
  ⟨"allow_undefined_facts", .flag, .bool false⟩,
  ⟨"allow_undefined_conditions", .flag, .bool false⟩]

/-- What the names of environment variables start with. -/
def variableStart : String := "rules_engine_"

/-- A name with the case of its letters forgotten. -/
def anyCase (name : String) : String := String.ofList (name.toList.map Char.toLower)

/-- The first of the entries whose name is the given one in some case. -/
def findAnyCase (entries : List (String × Value)) (name : String) : Option Value :=
  (entries.find? fun entry => anyCase entry.1 == name).map (·.2)

/-- The value of one setting, or what is wrong with it. -/
def setting (environment overrides : List (String × Value)) (setting : Setting) :
    Validation.Reading Config :=
  let given := match findAnyCase overrides setting.name with
    | some value => some value
    | none => findAnyCase environment.reverse (variableStart ++ setting.name)
  match given with
  | none => .ok [(setting.name, setting.default)]
  | some value =>
      match setting.read value with
      | .ok value => .ok [(setting.name, value)]
      | .error cause => .error [⟨[setting.name], cause⟩]

/-- The configuration for an environment and overrides; every setting that is at fault is told. -/
def read (environment overrides : List (String × Value)) : Except Error Config :=
  let readings := settings.map (setting environment overrides)
  (readings.foldr (Validation.both (· ++ ·)) (.ok [])).mapError Error.invalid

/-- Put values in the place of settings, whatever they are. -/
def override (config : Config) (overrides : List (String × Value)) : Config :=
  config.map fun (name, value) => (name, (Table.find? (Table.ofList overrides) name).getD value)

/-- The names of what an engine is made from apart from settings; no override may have one. -/
def reserved : List String := ["self", "rules", "config"]

/-- Refuse overrides with a reserved name. -/
def refuseReserved (overrides : List (String × Value)) : Except Error Unit :=
  if overrides.any fun entry => reserved.contains entry.1 then .error .type else .ok ()

/-- The configuration of an engine.  Overrides are read like settings, unless settings are given
apart; these are read first, and overrides are then put in their place unread. -/
def forEngine (given : Option (List (String × Value))) (overrides : List (String × Value)) :
    Except Error Config := do
  match given with
  | some given =>
      let config ← read [] given
      refuseReserved overrides
      return config.override overrides
  | none =>
      refuseReserved overrides
      read [] overrides

/-- Is a flag on?  What was put in the place of a flag is on when it counts as true. -/
def flag (config : Config) (name : String) : Bool :=
  ((Table.find? config name).getD .null).truthy

end Config

end Rulebook
