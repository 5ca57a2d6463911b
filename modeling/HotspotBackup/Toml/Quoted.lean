import HotspotBackup.Text.Digits

/-!
# Quoted text of TOML

Text stands between one quotation mark or three, which are double or
single. Between double marks a backslash escapes what follows; between
single ones nothing is escaped. Three marks hold text of several lines.

`Quotation.decode?` reads what stands between the marks, and
`Quotation.write` chooses the marks that need the fewest escapes and writes
a text between them.
-/

namespace HotspotBackup.Toml

/-- A quotation mark. -/
inductive Quote where
  | double
  | single
  deriving DecidableEq, Repr

/-- The character of a quotation mark. -/
def Quote.mark : Quote → Char
  | double => '"'
  | single => '\''

/-- How a text is quoted: by which mark, and whether by three of them. -/
structure Quotation where
  quote : Quote
  multiline : Bool
  deriving DecidableEq, Repr

/-- A space or a tab. -/
def isBlank (c : Char) : Bool :=
  c = ' ' || c = '\t'

/-! ## Reading -/

/-- Where reading stands between double marks. -/
inductive Joint where
  | inText
  /-- After a backslash, on the way to the end of its line. -/
  | toBreak
  /-- After an escaped end of line, in the margin of the lines that follow. -/
  | inMargin
  deriving DecidableEq, Repr

/-- The character of a one-letter escape. -/
def escaped? (letter : Char) : Option Char :=
  match letter with
  | 'b' => some '\x08'
  | 't' => some '\t'
  | 'n' => some '\n'
  | 'f' => some '\x0c'
  | 'r' => some '\r'
  | '"' => some '"'
  | '\\' => some '\\'
  | _ => none

/-- The character of a code point in hexadecimal. -/
def codePoint? (digits : List Char) : Option Char := do
  let n ← Digits.read? 16 digits
  if n.isValidChar then some (Char.ofNat n) else none

/-- The text that stands between double marks. An escaped end of line joins
its line to the next text, where several lines are allowed. -/
def unescape? (multiline : Bool) : Joint → List Char → Option (List Char)
  | .toBreak, [] => none
  | .toBreak, c :: rest =>
    if isBlank c then unescape? multiline .toBreak rest
    else if c = '\n' then unescape? multiline .inMargin rest
    else none
  | _, [] => some []
  | _, '\\' :: 'u' :: a :: b :: c :: d :: rest => do
    return (← codePoint? [a, b, c, d]) :: (← unescape? multiline .inText rest)
  | _, '\\' :: 'U' :: a :: b :: c :: d :: e :: f :: g :: h :: rest => do
    return (← codePoint? [a, b, c, d, e, f, g, h]) :: (← unescape? multiline .inText rest)
  | _, ['\\'] => none
  | _, '\\' :: c :: rest =>
    if multiline && isBlank c then unescape? multiline .toBreak rest
    else if multiline && c = '\n' then unescape? multiline .inMargin rest
    else do return (← escaped? c) :: (← unescape? multiline .inText rest)
  | joint, c :: rest =>
    if joint = .inMargin && (isBlank c || c = '\n') then unescape? multiline .inMargin rest
    else do return c :: (← unescape? multiline .inText rest)

@[simp]
theorem unescape?_nil (multiline : Bool) : unescape? multiline .inText [] = some [] := by
  rw [unescape?]
  nofun

/-- A text without the end of line that it begins with. -/
def dropBreak : List Char → List Char
  | '\n' :: rest => rest
  | cs => cs

/-- The text that stands between marks. -/
def Quotation.decode? (q : Quotation) (raw : List Char) : Option String :=
  let body := if q.multiline then dropBreak raw else raw
  match q.quote with
  | .double => String.ofList <$> unescape? q.multiline .inText body
  | .single => some (String.ofList body)

/-! ## Writing -/

/-- The most marks of a kind that stand side by side, after `run` of them. -/
def longestRun (mark : Char) : Nat → List Char → Nat
  | run, [] => run
  | run, c :: rest =>
    if c = mark then longestRun mark (run + 1) rest else max run (longestRun mark 0 rest)

/-- A character that nothing but an escape can stand for; a tab and an end
of line are not. -/
def isControl (c : Char) : Bool :=
  (c.toNat < 32 && c ≠ '\t' && c ≠ '\n') || c = '\x7f'

/-- The characters that stand for a character between double marks, quotation
marks apart. -/
def escapeChar (multiline : Bool) (c : Char) : List Char :=
  match c with
  | '\x08' => ['\\', 'b']
  | '\t' => ['\\', 't']
  | '\n' => if multiline then ['\n'] else ['\\', 'n']
  | '\x0c' => ['\\', 'f']
  | '\r' => ['\\', 'r']
  | '\\' => ['\\', '\\']
  | c => if isControl c then '\\' :: 'u' :: Digits.upperHex 4 c.toNat else [c]

/-- A text between double marks, after `run` marks of its own. One more of
those is escaped where it could end the text. -/
def escape (multiline : Bool) : Nat → List Char → List Char
  | _, [] => []
  | run, c :: rest =>
    if c = '"' then
      if (if multiline then 2 else 0) < run + 1 then '\\' :: '"' :: escape multiline 0 rest
      else '"' :: escape multiline (run + 1) rest
    else escapeChar multiline c ++ escape multiline 0 rest

/-- The quotation of a text: without escapes if possible, on one line rather
than several and between double marks rather than single ones. -/
def Quotation.choose (cs : List Char) : Quotation :=
  let hasControl := cs.any isControl
  let hasBreak := cs.contains '\n'
  let hasBackslash := cs.contains '\\'
  let doubles := longestRun '"' 0 cs
  let singles := longestRun '\'' 0 cs
  if !hasControl && !hasBackslash && doubles = 0 && !hasBreak then ⟨.double, false⟩
  else if !hasControl && singles = 0 && !hasBreak then ⟨.single, false⟩
  else if !hasControl && !hasBackslash && doubles ≤ 2 then ⟨.double, true⟩
  else if !hasControl && singles ≤ 2 then ⟨.single, true⟩
  else ⟨.double, hasBreak⟩

/-- The marks on either side of a text. -/
def Quotation.marks (q : Quotation) : List Char :=
  List.replicate (if q.multiline then 3 else 1) q.quote.mark

/-- A text between the marks of a quotation. A text of several lines begins
on a line of its own. -/
def Quotation.wrap (q : Quotation) (cs : List Char) : List Char :=
  q.marks ++ (if q.multiline && cs.contains '\n' then ['\n'] else []) ++
    (match q.quote with
      | .double => escape q.multiline 0 cs
      | .single => cs) ++
    q.marks

/-- A text, quoted. -/
def Quotation.write (s : String) : List Char :=
  (choose s.toList).wrap s.toList

end HotspotBackup.Toml
