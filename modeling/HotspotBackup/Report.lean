import HotspotBackup.Json.Quoted
import HotspotBackup.Text.Digits

/-!
# Reports

A `Report` is what the program shows about a backup or about its settings:
named entries in a fixed order, each a single value, a list of values, or a
record of labelled values. Every output format is a rendering of a report;
`Report.json` is the one in JSON, on one line or indented.
-/

namespace HotspotBackup

/-- A single value of a report. -/
inductive Scalar where
  | null
  | flag (b : Bool)
  | number (n : Nat)
  | text (s : String)
  deriving DecidableEq, Repr

/-- The label of a value in a record. -/
inductive Label where
  | name (s : String)
  | number (n : Nat)
  deriving DecidableEq, Repr

/-- What an entry of a report holds. -/
inductive Content where
  | scalar (s : Scalar)
  | list (items : List Scalar)
  | record (members : List (Label × Scalar))
  deriving DecidableEq, Repr

/-- Named entries, in the order in which they are shown. -/
abbrev Report := List (String × Content)

/-! ## Spacing -/

/-- Where values stand: all on one line, or each on its own. -/
inductive Spacing where
  | compact
  | pretty
  deriving DecidableEq, Repr

namespace Spacing

/-- What precedes a value at a depth of nesting. -/
def lead : Spacing → Nat → List Char
  | compact, _ => []
  | pretty, depth => '\n' :: List.replicate (2 * depth) ' '

/-- What separates a label from its value. -/
def colon : Spacing → List Char
  | compact => [':']
  | pretty => [':', ' ']

/-- A label with its value. -/
def member (s : Spacing) (label value : List Char) : List Char :=
  label ++ s.colon ++ value

/-- Parts between brackets. Without parts the brackets stand together. -/
def bracketed (s : Spacing) (depth : Nat) (first last : Char) (parts : List (List Char)) :
    List Char :=
  if parts.isEmpty then [first, last]
  else
    first :: List.intercalate [','] (parts.map (s.lead (depth + 1) ++ ·)) ++ s.lead depth ++ [last]

end Spacing

/-! ## JSON -/

/-- A number in decimal. -/
def Scalar.decimal (n : Nat) : List Char :=
  Nat.toDigits 10 n

/-- The characters of a flag. -/
def Scalar.word (b : Bool) : List Char :=
  if b then ['t', 'r', 'u', 'e'] else ['f', 'a', 'l', 's', 'e']

/-- A value in JSON. -/
def Scalar.json : Scalar → List Char
  | null => ['n', 'u', 'l', 'l']
  | flag b => word b
  | number n => decimal n
  | text s => Json.Quoted.encode s

/-- A label in JSON: a number stands between quotation marks too. -/
def Label.json : Label → List Char
  | name s => Json.Quoted.encode s
  | number n => '"' :: Scalar.decimal n ++ ['"']

/-- The content of an entry in JSON. -/
def Content.json (s : Spacing) : Content → List Char
  | scalar v => v.json
  | list items => s.bracketed 1 '[' ']' (items.map (·.json))
  | record members =>
    s.bracketed 1 '\x7b' '\x7d' (members.map fun m => s.member m.1.json m.2.json)

/-- A report as a JSON object. -/
def Report.json (s : Spacing) (r : Report) : String :=
  String.ofList <| s.bracketed 0 '\x7b' '\x7d' <|
    r.map fun entry => s.member (Json.Quoted.encode entry.1) (entry.2.json s)

end HotspotBackup
