import HotspotBackup.LegacyRecord

/-!
# Backups

`encode` writes a configuration in a layout and `decode` restores one from
a tagged backup of any format; a bare legacy record has no tag and is
restored by `decodeLegacy`. Nothing in the octets tells the two apart
reliably, so the caller chooses.

A restore goes in stages, each of which fails before the next one begins:
the tag, the fields in wire order, the end of the octets, the settings that
are asked of the device, and the rules of a configuration.
-/

namespace HotspotBackup.Backup

open Wire (Reader)

/-- A configuration in a layout, behind the tag of the layout. -/
def encode (l : Layout) (c : Configuration) : Bytes :=
  Wire.i32 (Format.layout l).tag ++ Field.writeAll l c.draft l.fields

/-- A configuration in the current layout. -/
def encodeCurrent (c : Configuration) : Bytes :=
  encode .current c

/-- A configuration in a format; a legacy record is none of them. -/
def encodeAs : Format → Configuration → Except BackupError Bytes
  | .legacy, _ => .error (.unsupportedVersion Format.legacy.tag.toInt)
  | .layout l, c => .ok (encode l c)

/-- All octets as one value. -/
def readWhole (r : Reader α) (b : Bytes) : Except BackupError α :=
  match (do let a ← r; Reader.finish; return a : Reader α) b with
  | (.ok a, _) => .ok a
  | (.error cause, _) => .error (.malformed cause)

/-- The format that a backup names, and the octets after its tag. -/
def readFormat (b : Bytes) : Except BackupError (Format × Bytes) :=
  match Reader.i32 "version" b with
  | (.error cause, _) => .error (.malformed cause)
  | (.ok tag, rest) => (·, rest) <$> Format.ofTag tag

/-- The format that a backup names. -/
def peekFormat (b : Bytes) : Except BackupError Format :=
  (·.1) <$> readFormat b

/-- The draft of the settings that were read in a layout, with the others
filled, as a configuration. -/
def complete (l : Layout) (d : Draft) : Asking Configuration := do
  let filled ← Field.fillAll l.absentFields d
  match filled.build with
  | .ok c => return c
  | .error v => Asking.fail (.malformed (.rejected v))

/-- The configuration of a backup in a layout, without its tag. -/
def decodeLayout (l : Layout) (b : Bytes) : Asking Configuration := do
  complete l (← Asking.ofExcept (readWhole (Field.readAll l l.fields {}) b))

/-- The configuration of a bare legacy record. -/
def decodeLegacy (b : Bytes) : Asking Configuration := do
  (← Asking.ofExcept (readWhole LegacyRecord.read b)).restore

/-- The configuration of a tagged backup. -/
def decode (b : Bytes) : Asking Configuration := do
  match ← Asking.ofExcept (readFormat b) with
  | (.legacy, rest) => decodeLegacy rest
  | (.layout l, rest) => decodeLayout l rest

end HotspotBackup.Backup
