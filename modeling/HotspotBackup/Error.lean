import HotspotBackup.Draft

/-!
# What can go wrong with a backup

`Malformation` lists the ways in which a run of octets fails to be a
backup, and `BackupError` every failure of the codec. `message` gives the
wording of each.
-/

namespace HotspotBackup

/-- Why a run of octets is not a backup. -/
inductive Malformation where
  /-- A field wants `need` octets and only `remain` are left. -/
  | truncated (field : String) (need remain : Nat)
  /-- A number that must not be negative is. -/
  | negative (field : String) (value : Int)
  /-- A length or a count is negative. -/
  | negativeLength (field : String) (value : Int)
  /-- The octets of a counted field are too many to be addressed. -/
  | lengthOverflow (field : String) (count : Nat)
  | badText (field : String) (fault : Utf8.Fault)
  | badAddress (field text : String)
  | badBand (field : String) (bits : Nat)
  | unknownSecurityType (code : Int)
  | unknownMacRandomization (code : Int)
  | duplicateChannel (band : Band)
  /-- Octets are left after the last field. -/
  | trailing (count : Nat)
  | negativeLegacyChannel (channel : Int)
  /-- The settings that were read break a rule. -/
  | rejected (violation : Violation)
  /-- The settings translated from a legacy record break a rule. -/
  | legacyRejected (violation : Violation)
  deriving DecidableEq

/-- A failure of the backup codec. -/
inductive BackupError where
  | malformed (cause : Malformation)
  | unsupportedVersion (tag : Int)
  /-- A setting of the device is needed and cannot be had. -/
  | unavailable (setting reason : String)
  /-- A draft breaks a rule. -/
  | invalid (violation : Violation)
  /-- A bit mask names no band, or an unknown one. -/
  | invalidBand (bits : Nat)
  deriving DecidableEq

/-- The wording of a failed check of a draft. -/
def Violation.failure (v : Violation) : String :=
  s!"Validation failed: {v.message}"

/-- The wording of a malformation. -/
def Malformation.message : Malformation → String
  | truncated field need remain => s!"truncated at {field}: need {need} bytes, {remain} remain"
  | negative field value => s!"negative {field} {value}"
  | negativeLength field value => s!"negative length {value} at {field}"
  | lengthOverflow field count => s!"length {count} overflows at {field}"
  | badText field fault => s!"invalid UTF-8 at {field}: {fault.message}"
  | badAddress field text => s!"{field}: {MacAddress.refusal text}"
  | badBand field bits => s!"invalid band {Digits.hexMarked bits} at {field}"
  | unknownSecurityType code => s!"unknown security type {code}"
  | unknownMacRandomization code => s!"unknown MAC randomization {code}"
  | duplicateChannel band => s!"duplicate channel entry for band {band.text}"
  | trailing count => s!"{count} unexpected trailing bytes"
  | negativeLegacyChannel channel => s!"negative legacy channel {channel}"
  | rejected violation => s!"decoded configuration rejected: {violation.failure}"
  | legacyRejected violation => s!"legacy record rejected: {violation.failure}"

namespace BackupError

/-- The wording of a failure. -/
def message : BackupError → String
  | malformed cause => s!"Malformed backup payload: {cause.message}"
  | unsupportedVersion tag => s!"Unsupported backup format version {tag}"
  | unavailable setting reason => s!"Device default for {setting} is unavailable: {reason}"
  | invalid violation => violation.failure
  | invalidBand bits => s!"Validation failed: invalid band bitmask {Digits.hexMarked bits}"

/-- Whether a failure says that the octets are not a backup that can be
restored, damaged or from an unknown format. -/
def isMalformed : BackupError → Bool
  | malformed _ | unsupportedVersion _ => true
  | unavailable .. | invalid _ | invalidBand _ => false

end BackupError

/-- The band of a bit mask, or the refusal of the mask. -/
def Band.ofBits (bits : Nat) : Except BackupError Band :=
  match ofBits? bits with
  | some band => .ok band
  | none => .error (.invalidBand bits)

end HotspotBackup
