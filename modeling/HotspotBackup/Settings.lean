import HotspotBackup.Asking
import HotspotBackup.Files
import HotspotBackup.Report
import HotspotBackup.Settings.Environment
import HotspotBackup.Toml.Document

/-!
# Settings

What the program is told about the device and about its own output. Values
come in layers, of which a later one wins: the defaults, a file, the
environment (`Settings.load`). A layer that cannot be read, or a value of
the wrong kind in the outcome, makes the settings unreadable; unknown names
are passed over.

`Settings.document` writes settings as a file, and `Settings.report` shows
them.
-/

namespace HotspotBackup

/-! ## Output formats -/

/-- How reports are shown. -/
inductive OutputFormat where
  | json
  | jsonCompact
  | yaml
  deriving DecidableEq, Repr

namespace OutputFormat

/-- Every format. -/
def all : List OutputFormat :=
  [json, jsonCompact, yaml]

/-- The name of a format. -/
def name : OutputFormat → String
  | json => "json"
  | jsonCompact => "json-compact"
  | yaml => "yaml"

/-- The format of a name. -/
def ofName? (name : String) : Option OutputFormat :=
  all.find? (·.name = name)

@[simp] theorem ofName?_name (f : OutputFormat) : ofName? f.name = some f := by
  cases f <;> decide

end OutputFormat

/-! ## Settings -/

/-- The settings of the program. -/
structure Settings where
  /-- Whether the device shuts its hotspot down by itself, for backups that do
  not say. -/
  autoShutdownEnabled : Bool := true
  /-- The name of the format of reports. -/
  output : String := "json"
  /-- Whether payloads are hexadecimal text. -/
  hex : Bool := false
  deriving DecidableEq, Repr

/-- Why there are no settings. -/
inductive SettingsFault where
  /-- A layer cannot be read, or a value is of the wrong kind. -/
  | unreadable
  | unknownOutput (name : String)
  deriving DecidableEq, Repr

/-- The wording of a fault; `words` is what the reader of the layers says of
those that it cannot read. -/
def SettingsFault.message (words : String) : SettingsFault → String
  | unreadable => s!"config loading failed: {words}"
  | unknownOutput name =>
    s!"invalid defaults.output: expected 'json', 'json-compact' or 'yaml', got '{name}'"

namespace Settings

/-- The settings, if they name a format. -/
def validate (s : Settings) : Except SettingsFault Settings :=
  if (OutputFormat.ofName? s.output).isSome then .ok s else .error (.unknownOutput s.output)

/-- The format of reports; an unknown name stands for the first one. -/
def format (s : Settings) : OutputFormat :=
  (OutputFormat.ofName? s.output).getD .json

/-- The layer that holds the settings. -/
def layer (s : Settings) : SettingTable :=
  [("device", .table [("auto_shutdown_enabled", .flag s.autoShutdownEnabled)]),
    ("defaults", .table [("output", .text s.output), ("hex", .flag s.hex)])]

/-! ## Reading -/

/-- The value of a flag. -/
def flag? : Setting → Option Bool
  | .flag b => some b
  | _ => none

/-- The value of a text. -/
def text? : Setting → Option String
  | .text s => some s
  | _ => none

/-- What a reader finds, or a default where nothing is. -/
def orDefault (default : α) (read : Setting → Option α) : Option Setting → Option α
  | none => some default
  | some v => read v

/-- A member of a part of the settings: by its name in a table, by its place
in a list. Nothing else is a part. -/
def member? (place : Nat) (name : String) : Option Setting → Option (Option Setting)
  | none => some none
  | some (.table members) => some (SettingTable.get? name members)
  | some (.list items) => some items[place]?
  | some _ => none

/-- The settings of merged layers. -/
def ofLayer? (t : SettingTable) : Option Settings := do
  let device := t.get? "device"
  let defaults := t.get? "defaults"
  return {
    autoShutdownEnabled :=
      ← orDefault true flag? (← member? 0 "auto_shutdown_enabled" device)
    output := ← orDefault "json" text? (← member? 0 "output" defaults)
    hex := ← orDefault false flag? (← member? 1 "hex" defaults) }

/-- The layer of a file, which may be missing. -/
def fileLayer? : Option Bytes → Option SettingTable
  | none => some []
  | some content => Toml.read? content

/-- The layers under one another: defaults, file and environment. -/
def layers (file : SettingTable) (e : Environment) : SettingTable :=
  ((layer {}).merge file).merge e.layer

/-- The settings of a file, which may be missing, and an environment. -/
def load (content : Option Bytes) (e : Environment) : Except SettingsFault Settings :=
  match (do ofLayer? (layers (← fileLayer? content) e) : Option Settings) with
  | some s => s.validate
  | none => .error .unreadable

/-- The settings of a file and an environment, or the defaults where there
are none. -/
def loadOrDefault (content : Option Bytes) (e : Environment) : Settings :=
  match load content e with
  | .ok s => s
  | .error _ => {}

/-- The device that answers as the settings say. -/
def provider (words : String) (content : Option Bytes) (e : Environment) : Provider :=
  match load content e with
  | .ok s => .ok s.autoShutdownEnabled
  | .error fault => .error (.unavailable "auto_shutdown_enabled" (fault.message words))

/-! ## The path of the file -/

/-- The directory of the file where the system has none for settings: below the
one that the environment names as the user's, else below the start. -/
def fallbackDirectory (e : Environment) : String :=
  Path.join (Path.join ((e.get? "HOME").getD ".") ".config") "softap"

/-- The path of the file of settings, in the directory that the system has for
the settings of the program, if any. -/
def defaultPath (directory? : Option String) (e : Environment) : String :=
  Path.join (directory?.getD (fallbackDirectory e)) "config.toml"

/-- The directory for the settings of the program on a system that goes by two
variables: below the absolute path of one of them, else below the user's home,
which is the other one or, if that is empty, `home?`. -/
def directoryOfVariables? (home? : Option String) (e : Environment) : Option String := do
  let home ← (e.get? "HOME").filter (!·.isEmpty) <|> home?
  let directory := ((e.get? "XDG_CONFIG_HOME").filter Path.isAbsolute).getD
    (Path.join home ".config")
  return Path.join directory "softap"

/-! ## Writing -/

/-- A line that assigns a value to a key. -/
def line (key : String) (value : List Char) : List Char :=
  key.toList ++ " = ".toList ++ value ++ ['\n']

/-- The settings as a file. -/
def document (s : Settings) : Bytes :=
  Utf8.encode <| String.ofList <|
    "[device]\n".toList ++ line "auto_shutdown_enabled" (Scalar.word s.autoShutdownEnabled) ++
      "\n[defaults]\n".toList ++ line "output" (Toml.Quotation.write s.output) ++
        line "hex" (Scalar.word s.hex)

/-- The settings as a report. -/
def report (s : Settings) : Report :=
  [("device", .record [(.name "auto_shutdown_enabled", .flag s.autoShutdownEnabled)]),
    ("defaults", .record [(.name "output", .text s.output), (.name "hex", .flag s.hex)])]

end Settings

end HotspotBackup
