import HotspotBackup.Error
import HotspotBackup.Settings.Edit
import HotspotBackup.Text.Hex

/-!
# Failures of commands

Why a command fails, with what its user is told: a message, the status that
the process exits with, the name of the diagnostic, and advice.

A failure of the system, or of a library that reads a document, is told in
words of theirs, which are given to `Failure.message`.
-/

namespace HotspotBackup.CommandLine

/-- Why a command fails. -/
inductive Failure where
  | backup (e : BackupError)
  /-- A payload is not hexadecimal text. -/
  | hexText (fault : Hex.Fault)
  /-- A setting cannot be edited. -/
  | setting (name : String) (fault : Settings.EditFault)
  | settings (fault : SettingsFault)
  /-- The file of settings cannot be written. -/
  | settingsFile
  /-- A file cannot be read or written. -/
  | file
  /-- A document is not the draft of a configuration. -/
  | document
  deriving DecidableEq

namespace Failure

/-- The wording of a value that is not allowed. -/
def invalidValue (field reason : String) : String :=
  s!"Invalid value for {field}: {reason}"

/-- The wording of a failure; `words` is what the system or a library says of
it. -/
def message (words : String) : Failure → String
  | backup (.unavailable what reason) => s!"Device setting '{what}' is unavailable: {reason}"
  | backup (.invalid violation) => invalidValue "configuration" violation.message
  | backup (.invalidBand bits) =>
    invalidValue "configuration" s!"invalid band bitmask {Digits.hexMarked bits}"
  | backup e => e.message
  | hexText fault => s!"Malformed backup payload: invalid hex text: {fault.message}"
  | setting name fault => invalidValue name fault.message
  | settings fault => fault.message words
  | settingsFile => s!"IO error: {words}"
  | file => words
  | document => s!"Invalid JSON payload: {words}"

/-- The status that the process exits with. -/
def exitStatus : Failure → Nat
  | backup (.malformed _) | hexText _ => 4
  | backup (.unsupportedVersion _) => 5
  | backup (.unavailable ..) => 6
  | backup (.invalid _) | backup (.invalidBand _) | setting .. => 2
  | settings _ | settingsFile | file | document => 1

/-- The name of the diagnostic of a failure. -/
def diagnostic? : Failure → Option String
  | backup (.malformed _) | hexText _ => some "softap::malformed"
  | backup (.unsupportedVersion _) => some "softap::unsupported_version"
  | backup (.unavailable ..) => some "softap::defaults_unavailable"
  | backup (.invalid _) | backup (.invalidBand _) | setting .. => some "softap::validation"
  | settings _ | settingsFile => some "softap::config"
  | file => none
  | document => some "softap::json"

/-- What may help against a failure. -/
def advice? : Failure → Option String
  | backup (.malformed _) | hexText _ =>
    some <| "The bytes do not form a complete backup.\n" ++
      "If the file holds hex text, pass --hex. If it is a bare legacy\n" ++
      "record without a version tag, pass --legacy."
  | backup (.unsupportedVersion _) =>
    some "Restorable versions: 3, 5, 6, 7, 8, 9. Run: softap inspect <file>"
  | backup (.unavailable ..) =>
    some <| "Backups older than version 6 take this setting from the device.\n" ++
      "Fix the config file, or pass --auto-shutdown true|false."
  | settings _ | settingsFile => some "Check the file printed by: softap config path"
  | document => some "Check the JSON file contents and try again."
  | backup (.invalid _) | backup (.invalidBand _) | setting .. | file => none

end Failure

end HotspotBackup.CommandLine
