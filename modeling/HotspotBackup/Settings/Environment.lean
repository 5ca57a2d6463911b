import HotspotBackup.Settings.Value
import HotspotBackup.Text.Decimal
import HotspotBackup.Text.Space
import HotspotBackup.Toml.Token

/-!
# Settings in the environment

Variables whose names begin with `SOFTAP_`, in either case, form a layer of
settings: the rest of a name is the path of the setting, in which two
underscores or a point separate the parts.

The value of a variable is written in a small notation of its own: flags,
numbers, quoted text, lists in brackets and tables in braces. A value that
is not written so is the text that it is.
-/

namespace HotspotBackup

/-- The variables of a process, in their order. -/
abbrev Environment := List (String × String)

namespace Environment

/-- The value of a variable. -/
def get? (name : String) (e : Environment) : Option String :=
  (e.find? (·.1 = name)).map (·.2)

/-- The environment with a variable set in its place or at the end, or
removed. -/
def set (name : String) (value : Option String) (e : Environment) : Environment :=
  match value with
  | none => e.filter (·.1 ≠ name)
  | some v =>
    if e.any (·.1 = name) then e.map fun entry => if entry.1 = name then (name, v) else entry
    else e ++ [(name, v)]

/-! ## Values -/

/-- White space around the parts of a value. -/
def isBlank (c : Char) : Bool :=
  c = ' ' || c = '\t' || c = '\n' || c = '\x0c' || c = '\r'

/-- The characters that end an unquoted text. -/
def isDelimiter (c : Char) : Bool :=
  c = ',' || c = '\x7b' || c = '\x7d' || c = '[' || c = ']'

/-- A text without the white space before it. -/
def dropBlanks (cs : List Char) : List Char :=
  cs.dropWhile isBlank

/-- A whole number of 64 bits, signed or not. -/
def isInteger (cs : List Char) : Bool :=
  let (sign, digits) := Decimal.sign cs
  let bound := if sign = some '-' then (1 <<< 63) + 1 else UInt64.size
  (Digits.read? 10 digits).any (· < bound)

/-- The value of an unquoted text. -/
def plain (cs : List Char) : Setting :=
  if cs.contains '.' && (Decimal.parse? (Decimal.sign cs).2).isSome then .number
  else if isInteger cs then .number
  else .text (String.ofList cs)

/-- The characters up to the quotation mark that ends a text, and what
follows the mark. -/
def quotedBody : List Char → Option (List Char × List Char)
  | '\\' :: c :: rest => do
    let (body, rest) ← quotedBody rest
    return ('\\' :: c :: body, rest)
  | '"' :: rest => some ([], rest)
  | c :: rest => do
    let (body, rest) ← quotedBody rest
    return (c :: body, rest)
  | [] => none

/-- A text after its first quotation mark, and what follows it. -/
def quoted? (cs : List Char) : Option (String × List Char) := do
  let (body, rest) ← quotedBody cs
  if body.all fun c => Toml.isAllowed c && c ≠ '\n' then
    return (String.ofList (← Toml.unescape? false .inText body), rest)
  else none

/-- The name of a member, and what follows it. -/
def key? : List Char → Option (String × List Char)
  | '"' :: rest => quoted? rest
  | cs =>
    let name := cs.takeWhile Toml.isKeyChar
    if name.isEmpty then none else some (String.ofList name, cs.dropWhile Toml.isKeyChar)

/-- The name of a member with the sign after it, and what follows them. -/
def keyEquals? (cs : List Char) : Option (String × List Char) := do
  let (key, rest) ← key? (dropBlanks cs)
  match dropBlanks rest with
  | '=' :: rest => some (key, rest)
  | _ => none

mutual

/-- The value that a text begins with, and what follows it. The fuel bounds
the number of steps. -/
def value? : Nat → List Char → Option (Setting × List Char)
  | 0, _ => none
  | fuel + 1, cs => do
    let (v, rest) ← (match dropBlanks cs with
      | 't' :: 'r' :: 'u' :: 'e' :: rest => some (.flag true, rest)
      | 'f' :: 'a' :: 'l' :: 's' :: 'e' :: rest => some (.flag false, rest)
      | '\x7b' :: rest => (members? fuel [] rest).map fun found => (.table found.1, found.2)
      | '[' :: rest => (items? fuel rest).map fun found => (.list found.1, found.2)
      | '"' :: rest => (quoted? rest).map fun found => (.text found.1, found.2)
      | '\'' :: c :: '\'' :: rest => some (.text (String.singleton c), rest)
      | '\'' :: _ => none
      | cs =>
        some (plain (trim (cs.takeWhile (!isDelimiter ·))), cs.dropWhile (!isDelimiter ·)) :
        Option (Setting × List Char))
    return (v, dropBlanks rest)

/-- The values of a list up to its end, and what follows it. -/
def items? : Nat → List Char → Option (List Setting × List Char)
  | 0, _ => none
  | fuel + 1, cs =>
    match cs with
    | ']' :: rest => some ([], rest)
    | cs => do
      let (v, rest) ← value? fuel cs
      match rest with
      | ',' :: rest => (items? fuel rest).map fun found => (v :: found.1, found.2)
      | ']' :: rest => some ([v], rest)
      | _ => none

/-- The members of a table up to its end, on top of those before, and what
follows it. -/
def members? : Nat → SettingTable → List Char → Option (SettingTable × List Char)
  | 0, _, _ => none
  | fuel + 1, before, cs =>
    match cs with
    | '\x7d' :: rest => some (before, rest)
    | cs => do
      let (key, rest) ← keyEquals? cs
      let (v, rest) ← value? fuel rest
      match rest with
      | ',' :: rest => members? fuel (before.put key v) rest
      | '\x7d' :: rest => some (before.put key v, rest)
      | _ => none

end

/-- The value of a variable: each value nested in it takes two steps. -/
def value (raw : String) : Setting :=
  match value? (2 * raw.length + 2) raw.toList with
  | some (v, []) => v
  | _ => .text raw

/-! ## Names -/

/-- What the names of settings begin with, in either case. -/
def lead : List Char :=
  "softap_".toList

/-- The parts of a path: a point or two underscores end a part. -/
def parts : List Char → List (List Char)
  | [] => [[]]
  | '.' :: rest => [] :: parts rest
  | '_' :: '_' :: rest => [] :: parts rest
  | c :: rest =>
    match parts rest with
    | [] => [[c]]
    | part :: others => (c :: part) :: others

/-- The path of the setting that a variable holds. Names with an empty part
hold none. -/
def path? (name : String) : Option (List String) :=
  let cs := (trim name.toList).map Char.toLower
  if lead.isPrefixOf cs then
    let path := parts (trim (cs.drop lead.length))
    if path.any (·.isEmpty) then none else some (path.map String.ofList)
  else none

/-- The table that holds a value at a path and nothing else. -/
def tableAt (value : Setting) : List String → SettingTable
  | [] => []
  | [name] => [(name, value)]
  | name :: rest => [(name, .table (tableAt value rest))]

/-- The layer of a variable. -/
def variableLayer (entry : String × String) : SettingTable :=
  match path? entry.1 with
  | some path => tableAt (value entry.2) path
  | none => []

/-- The layer of an environment: later variables over earlier ones. -/
def layer (e : Environment) : SettingTable :=
  e.foldl (fun t entry => t.merge (variableLayer entry)) []

end Environment

end HotspotBackup
