import StarlarkLint.Check.Arguments
import StarlarkLint.Dialect
import StarlarkLint.Disk
import StarlarkLint.Log
import StarlarkLint.Text.Blank
import StarlarkLint.Value

/-!
# Settings

What to check is settled by four layers: defaults, a YAML file, two environment variables, and what
the caller states.  A later layer wins, key by key; a value that the caller leaves open does not
count.  The layers may hold any values, so that what they come to is checked before it is used.

The file is read by any reader of documents.  What is wrong with settings is told; but some things
are not expected to go wrong, and if they do, the program itself fails.

## Main definitions

* `Layers`, `Layers.merged`, `Layers.effective` — the layers, the mapping that they come to, and the
  value that a key has in the end.
* `Settings`, `Layers.settle` — settings that were checked.
* `SettingsError`, `SettingsFault`, `SettingsFailure` — why there are no settings.
* `Settings.load`, `Settings.log` — the settings of a run, and what is logged about them.
-/

namespace StarlarkLint

/-- The environment variables that count, where they are set. -/
structure Environment where
  /-- Categories to check. -/
  warnings : Option String := none
  /-- Categories not to check. -/
  disabled : Option String := none
  deriving DecidableEq, Repr, Inhabited

/-- The layers above the defaults. -/
structure Layers where
  /-- The mapping of the file; a mapping without keys if there is no file. -/
  document : List (Value × Value) := []
  /-- The environment. -/
  environment : Environment := {}
  /-- What the caller states. -/
  overrides : List (String × Value) := []
  deriving Repr, Inhabited

/-- What is wrong with the settings. -/
inductive SettingsError
  /-- The file that was asked for does not exist. -/
  | notFound (path : Path)
  /-- The file cannot be read. -/
  | unreadable (path : Path) (reason : DiskError)
  /-- The text of the file is malformed, for a reason that its reader gives. -/
  | malformed (path : Path) (reason : String)
  /-- The file holds something else than a mapping. -/
  | notMapping (path : Path)
  /-- A key has a value that is no list of names. -/
  | notNames (key : String)
  /-- Categories that no check has. -/
  | unknown (names : UnknownCategories)
  /-- A value that is no dialect. -/
  | notDialect (value : Value)
  deriving Inhabited

/-- The reason in words. -/
def SettingsError.message : SettingsError → String
  | notFound path => "Config file not found: " ++ path.text
  | unreadable path reason => "Failed to load config from " ++ path.text ++ ": " ++ reason.message
  | malformed path reason => "Failed to load config from " ++ path.text ++ ": " ++ reason
  | notMapping path => path.text ++ ": expected a mapping at top level"
  | notNames key => "'" ++ key ++ "' must be a list of strings"
  | unknown names => names.message
  | notDialect value =>
    "Invalid file_type " ++ value.shown ++ ", expected one of: "
      ++ ", ".intercalate (Dialect.all.map Dialect.name)

/-- What is not expected to go wrong with settings, and makes the program fail. -/
inductive SettingsFault
  /-- A file is asked for, but not which. -/
  | unnamed
  /-- The bytes of the file are not UTF-8. -/
  | notUtf8 (path : Path)
  /-- The reader of the file fails otherwise. -/
  | unexpected (path : Path)
  /-- The value of a key cannot be converted to a text. -/
  | noText (key : String)
  deriving DecidableEq, Repr, Inhabited

/-- Why there are no settings. -/
inductive SettingsFailure
  /-- It is told what is wrong. -/
  | refused (reason : SettingsError)
  /-- The program fails. -/
  | failed (fault : SettingsFault)
  deriving Inhabited

/-- Settings that were checked. -/
structure Settings where
  /-- The checks to run, in their order. -/
  checks : List Check
  /-- The functions that may take positional arguments, in order. -/
  exempt : List String
  /-- The dialect of every file; without one, the name of each file tells it. -/
  dialect : Option Dialect
  /-- The file that settings were read from. -/
  source : Option Path := none
  deriving DecidableEq, Repr, Inhabited

/-! ### Settling the layers -/

/-- The keys that count. -/
inductive SettingKey
  /-- Categories to check. -/
  | warnings
  /-- Categories not to check. -/
  | disabled
  /-- More functions that may take positional arguments. -/
  | exempt
  /-- The dialect of every file. -/
  | dialect
  deriving DecidableEq, Repr

namespace SettingKey

/-- The keys in the order in which they are listed. -/
def all : List SettingKey := [warnings, disabled, exempt, dialect]

/-- The name of a key. -/
def name : SettingKey → String
  | warnings => "warnings"
  | disabled => "disabled"
  | exempt => "positional_exempt"
  | dialect => "file_type"

/-- The value of a key that no layer sets. -/
def default : SettingKey → Value
  | warnings => .list (Check.defaults.map fun check => .text check.name)
  | disabled => .list []
  | exempt => .list []
  | dialect => .null

end SettingKey

/-- The mapping that no layer has changed. -/
def SettingKey.defaults : List (Value × Value) := all.map fun key => (.text key.name, key.default)

/-- The entries that the environment sets, each to the names in a comma list. -/
def Environment.entries (environment : Environment) : List (Value × Value) :=
  [(SettingKey.warnings, environment.warnings), (.disabled, environment.disabled)].filterMap
    fun (key, names?) => names?.map fun names =>
      (.text key.name, .list ((Text.commaList names).map .text))

namespace Layers

/-- What the caller states, but for what is left open. -/
def stated (layers : Layers) : List (Value × Value) :=
  (layers.overrides.filter fun (_, value) => !value.isNull).map fun (key, value) =>
    (.text key, value)

/-- The mapping that the layers come to, each put on those below it. -/
def merged (layers : Layers) : List (Value × Value) :=
  let config := Value.update SettingKey.defaults layers.document
  let config := Value.update config layers.environment.entries
  Value.update config layers.stated

/-- The value that a key has in the end. -/
def effective (layers : Layers) (key : SettingKey) : Value :=
  (Value.lookup? layers.merged key.name).getD .null

/-- The texts of a list, if it holds nothing else. -/
def texts? : List Value → Option (List String)
  | [] => some []
  | .text s :: values => (texts? values).map (s :: ·)
  | _ :: _ => none

/-- The names that a value lists: a comma list, or a list of texts. -/
def names? : Value → Option (List String)
  | .text names => some (Text.commaList names)
  | .list values => texts? values
  | _ => none

/-- The names that a key lists in the end. -/
def names (layers : Layers) (key : SettingKey) : Except SettingsFailure (List String) :=
  match names? (layers.effective key) with
  | some names => .ok names
  | none => .error (.refused (.notNames key.name))

/-- The dialect that is asked for in the end, if one is. -/
def dialect (layers : Layers) : Except SettingsFailure (Option Dialect) :=
  match layers.effective .dialect with
  | .null => .ok none
  | .dialect dialect => .ok (some dialect)
  | value =>
    match value.spelled? with
    -- the message that the value is no dialect could not be written either
    | none => .error (.failed (.noText SettingKey.dialect.name))
    | some text =>
      -- case does not matter: no letter beyond ASCII has a lower case that is part of a name, since
      -- that of the Kelvin sign is a k, and that of the I with a dot is an i with a dot behind it
      match Dialect.ofName? text.toLower with
      | some dialect => .ok (some dialect)
      | none => .error (.refused (.notDialect value))

/-- Names in order, each once. -/
def sortNames (names : List String) : List String :=
  names.eraseDups.mergeSort fun a b => decide (a ≤ b)

/-- Check what the layers come to. -/
def settle (layers : Layers) : Except SettingsFailure Settings := do
  let warnings ← layers.names .warnings
  let disabled ← layers.names .disabled
  let exempt ← layers.names .exempt
  let unknown := (warnings ++ disabled).filter fun name => (Check.ofName? name).isNone
  if unknown ≠ [] then .error (.refused (.unknown (.ofNames unknown.eraseDups)))
  else do
    let dialect ← layers.dialect
    .ok
      -- the checks run in their own order, not in that of the list
      { checks := Check.all.filter fun c => c.name ∈ warnings ∧ c.name ∉ disabled
        exempt := sortNames (PositionalArgs.exempt ++ exempt)
        dialect }

end Layers

/-! ### Loading settings -/

namespace Settings

/-- The name of the file that settings are read from, in the working directory or else at home. -/
def fileName : String := ".buildlint.yaml"

section

variable (loader : Loader)

/-- The mapping that a file holds; an empty file holds a mapping without keys. -/
def readFile (disk : Disk) (path : Path) : Except SettingsFailure (List (Value × Value)) := do
  let bytes ← (disk.read path).mapError (.refused ∘ .unreadable path)
  match loader bytes with
  | .error (.malformed reason) => .error (.refused (.malformed path reason))
  | .error .notUtf8 => .error (.failed (.notUtf8 path))
  | .error .unexpected => .error (.failed (.unexpected path))
  | .ok (.map entries) => .ok entries
  -- what counts as nothing is as good as an empty mapping
  | .ok value => if value.isEmpty then .ok [] else .error (.refused (.notMapping path))

/-- The file to read: the one that was asked for, which has to exist, or the first that exists of
those looked for. -/
def findFile (disk : Disk) (search : List Path) (asked : Option Path) :
    Except SettingsFailure (Option Path) :=
  match asked with
  | some path => if disk.exists? path then .ok (some path) else .error (.refused (.notFound path))
  | none => .ok (search.find? disk.exists?)

/-- The settings of a run. -/
def load (disk : Disk) (search : List Path) (environment : Environment) (asked : Option Path)
    (overrides : List (String × Value)) : Except SettingsFailure Settings := do
  match ← findFile disk search asked with
  | none => Layers.settle { environment, overrides }
  | some path => do
    let document ← readFile loader disk path
    let settings ← Layers.settle { document, environment, overrides }
    .ok { settings with source := some path }

/-- What is logged about settings: the file that they were read from, be they of use or not. -/
def log (disk : Disk) (search : List Path) (asked : Option Path) : List LogEntry :=
  match findFile disk search asked with
  | .ok (some path) =>
    match readFile loader disk path with
    | .ok _ => [{ level := .debug, message := "Loaded config from " ++ path.text }]
    | .error _ => []
  | _ => []

end

end Settings

end StarlarkLint
