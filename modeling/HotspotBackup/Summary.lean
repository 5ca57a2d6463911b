import HotspotBackup.Document
import HotspotBackup.LegacyRecord
import HotspotBackup.Report.Yaml
import HotspotBackup.Settings
import HotspotBackup.Text.Space

/-!
# Shown reports

What is shown of a payload without restoring it, and the text of any report
in the format asked for.
-/

namespace HotspotBackup

/-- The names of the fields that a format carries, in wire order. -/
def Format.fieldNames : Format → List String
  | legacy => LegacyRecord.fieldNames
  | layout l => l.fields.map (·.name)

/-- What is shown of a payload of `size` octets in a format. -/
def Format.summary (f : Format) (size : Nat) : Report :=
  [("version", .scalar (.number f.number)), ("current", .scalar (.flag (f = current))),
    ("legacy_record", .scalar (.flag f.isLegacy)), ("bytes", .scalar (.number size)),
    ("fields", .list (f.fieldNames.map .text))]

/-- A report as text, without the end of its last line. -/
def Report.render (r : Report) : OutputFormat → String
  | .json => r.json .pretty
  | .jsonCompact => r.json .compact
  | .yaml => String.ofList (trimEnd r.yaml.toList)

end HotspotBackup
