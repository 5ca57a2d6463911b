import HotspotBackup.Settings

/-!
# Editing settings

One setting is replaced by the text of its new value. Settings have names
of two parts, and short names of one.
-/

namespace HotspotBackup.Settings

/-- A setting that can be edited. -/
inductive Key where
  | autoShutdownEnabled
  | output
  | hex
  deriving DecidableEq, Repr

/-- The setting of a name. -/
def Key.ofName? (name : String) : Option Key :=
  if name = "device.auto_shutdown_enabled" ∨ name = "auto_shutdown_enabled" ∨
      name = "auto-shutdown" then some .autoShutdownEnabled
  else if name = "defaults.output" ∨ name = "output" then some .output
  else if name = "defaults.hex" ∨ name = "hex" then some .hex
  else none

/-- Why an edit cannot be made. -/
inductive EditFault where
  | unknownKey (name : String)
  | notFlag
  deriving DecidableEq, Repr

/-- The wording of a fault. -/
def EditFault.message : EditFault → String
  | unknownKey name =>
    s!"unknown config key '{name}'. Valid keys: device.auto_shutdown_enabled, " ++
      "defaults.output, defaults.hex"
  | notFlag => "must be 'true' or 'false'"

/-- The flag of a text. -/
def flagOfText? (text : String) : Option Bool :=
  if text = "true" then some true else if text = "false" then some false else none

/-- The settings with one replaced. -/
def set (s : Settings) (value : String) : Key → Except EditFault Settings
  | .output => .ok { s with output := value }
  | .autoShutdownEnabled =>
    match flagOfText? value with
    | some b => .ok { s with autoShutdownEnabled := b }
    | none => .error .notFlag
  | .hex =>
    match flagOfText? value with
    | some b => .ok { s with hex := b }
    | none => .error .notFlag

/-- The settings with the one of a name replaced. -/
def edit (s : Settings) (name value : String) : Except EditFault Settings :=
  match Key.ofName? name with
  | some key => s.set value key
  | none => .error (.unknownKey name)

end HotspotBackup.Settings
