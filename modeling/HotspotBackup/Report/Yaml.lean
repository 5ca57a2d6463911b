import HotspotBackup.Report
import HotspotBackup.Yaml.Scalar

/-!
# Reports in YAML

A report as a YAML block: an entry a line, the items of a list below its
name behind hyphens, the values of a record below its name and indented.
Empty lists and records stand beside their names.
-/

namespace HotspotBackup

/-- A value with the end of its line; further lines of it are indented by
`indent`. -/
def Scalar.yaml (indent : Nat) : Scalar → List Char
  | null => ['n', 'u', 'l', 'l', '\n']
  | flag b => word b ++ ['\n']
  | number n => decimal n ++ ['\n']
  | text s => Yaml.text indent s

/-- A label with its colon. -/
def Label.yaml : Label → List Char
  | name s => s.toList ++ [':']
  | number n => Scalar.decimal n ++ [':']

/-- The content of an entry, after its name. -/
def Content.yaml : Content → List Char
  | scalar v => ' ' :: v.yaml 2
  | list [] => [' ', '[', ']', '\n']
  | list items => '\n' :: items.flatMap fun v => '-' :: ' ' :: v.yaml 2
  | record [] => [' ', '\x7b', '\x7d', '\n']
  | record members =>
    '\n' :: members.flatMap fun m => ' ' :: ' ' :: m.1.yaml ++ ' ' :: m.2.yaml 4

/-- A report as a YAML block, with the end of its last line. -/
def Report.yaml (r : Report) : String :=
  String.ofList <| r.flatMap fun entry => (Label.name entry.1).yaml ++ entry.2.yaml

end HotspotBackup
