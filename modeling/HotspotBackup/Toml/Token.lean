import HotspotBackup.Toml.Quoted

/-!
# Tokens of TOML

`Token.scan` splits a document into tokens, structurally on its characters:
a mode says what the token in hand is (`Mode`). Comments are passed over,
and blanks are kept, since brackets side by side are not brackets apart.
What stands between quotation marks is kept as it is.
-/

namespace HotspotBackup.Toml

/-- A token of a document. -/
inductive Token where
  /-- Characters of unquoted keys, numbers, dates and flags, without points. -/
  | bare (cs : List Char)
  | text (q : Quotation) (raw : List Char)
  | blank (cs : List Char)
  | newline
  | dot
  | equals
  | comma
  | openBracket
  | closeBracket
  | openBrace
  | closeBrace
  deriving DecidableEq, Repr

/-- What the token in hand is, with its characters so far, last first. -/
inductive Mode where
  | between
  | bare (read : List Char)
  | blank (read : List Char)
  | comment
  /-- After one quotation mark. -/
  | opening (q : Quote)
  /-- After two quotation marks. -/
  | openingTwice (q : Quote)
  /-- In a text on one line. -/
  | line (q : Quote) (read : List Char)
  /-- After a backslash of a text on one line. -/
  | lineEscape (read : List Char)
  /-- In a text of several lines, after `run` quotation marks. -/
  | block (q : Quote) (run : Nat) (read : List Char)
  /-- After a backslash of a text of several lines. -/
  | blockEscape (read : List Char)
  deriving DecidableEq, Repr

/-- A character that may stand in a document: no control character but the
tab and the end of a line. -/
def isAllowed (c : Char) : Bool :=
  c = '\t' || c = '\n' || (32 ≤ c.toNat && c ≠ '\x7f')

/-- A character of an unquoted key. -/
def isKeyChar (c : Char) : Bool :=
  c.isAlphanum || c = '_' || c = '-'

/-- A character of an unquoted key or value, points apart. -/
def isBareChar (c : Char) : Bool :=
  isKeyChar c || c = '+' || c = ':'

/-- The token of a punctuation character. -/
def punctuation? (c : Char) : Option Token :=
  if c = '\n' then some .newline
  else if c = '.' then some .dot
  else if c = '=' then some .equals
  else if c = ',' then some .comma
  else if c = '[' then some .openBracket
  else if c = ']' then some .closeBracket
  else if c = '\x7b' then some .openBrace
  else if c = '\x7d' then some .closeBrace
  else none

/-- A text of several lines, after `run` marks of which the last three end it. -/
def blockText (q : Quote) (run : Nat) (read : List Char) : Token :=
  .text ⟨q, true⟩ (read.reverse ++ List.replicate (run - 3) q.mark)

/-- The token in hand where no further character belongs to it. -/
def Mode.close? : Mode → Option (List Token)
  | between | comment => some []
  | bare read => some [.bare read.reverse]
  | blank read => some [.blank read.reverse]
  | openingTwice q => some [.text ⟨q, false⟩ []]
  | block q run read => if 3 ≤ run then some [blockText q run read] else none
  | opening _ | line _ _ | lineEscape _ | blockEscape _ => none

/-- The mode after a character that stands between tokens, with the token it
makes. -/
def openToken? (c : Char) : Option (List Token × Mode) :=
  if isBlank c then some ([], .blank [c])
  else if c = '#' then some ([], .comment)
  else if c = '"' then some ([], .opening .double)
  else if c = '\'' then some ([], .opening .single)
  else if isBareChar c then some ([], .bare [c])
  else (punctuation? c).map fun t => ([t], .between)

/-- The token in hand ends before a character. -/
def Mode.closeBefore (m : Mode) (c : Char) : Option (List Token × Mode) := do
  let done ← m.close?
  let (opened, next) ← openToken? c
  return (done ++ opened, next)

/-- The mode after a character of a text on one line. -/
def lineChar (q : Quote) (read : List Char) (c : Char) : Option (List Token × Mode) :=
  if c = q.mark then some ([.text ⟨q, false⟩ read.reverse], .between)
  else if c = '\n' then none
  else if q = .double && c = '\\' then some ([], .lineEscape (c :: read))
  else some ([], .line q (c :: read))

/-- The mode after a character of a text of several lines. Five marks side by
side end it at once: two of them are its own. -/
def blockChar (q : Quote) (run : Nat) (read : List Char) (c : Char) : Option (List Token × Mode) :=
  if c = q.mark then
    if run = 4 then some ([blockText q 5 read], .between) else some ([], .block q (run + 1) read)
  else if 3 ≤ run then (Mode.block q run read).closeBefore c
  else
    let read := c :: (List.replicate run q.mark ++ read)
    if q = .double && c = '\\' then some ([], .blockEscape read) else some ([], .block q 0 read)

/-- The tokens that a character completes, and the mode after it. -/
def Mode.step (m : Mode) (c : Char) : Option (List Token × Mode) :=
  match m with
  | between => openToken? c
  | bare read => if isBareChar c then some ([], .bare (c :: read)) else m.closeBefore c
  | blank read => if isBlank c then some ([], .blank (c :: read)) else m.closeBefore c
  | comment => if c = '\n' then some ([.newline], .between) else some ([], .comment)
  | opening q => if c = q.mark then some ([], .openingTwice q) else lineChar q [] c
  | openingTwice q => if c = q.mark then some ([], .block q 0 []) else m.closeBefore c
  | line q read => lineChar q read c
  | lineEscape read => if c = '\n' then none else some ([], .line .double (c :: read))
  | block q run read => blockChar q run read c
  | blockEscape read => some ([], .block .double 0 (c :: read))

/-- The tokens of the characters that follow in a mode. -/
def scanFrom : Mode → List Char → Option (List Token)
  | m, [] => m.close?
  | m, c :: rest => do
    let (done, next) ← m.step c
    return done ++ (← scanFrom next rest)

/-- A document with one character for each end of line. -/
def joinBreaks : List Char → List Char
  | '\r' :: '\n' :: rest => '\n' :: joinBreaks rest
  | c :: rest => c :: joinBreaks rest
  | [] => []

/-- A document without the mark of its byte order. -/
def dropOrderMark : List Char → List Char
  | '\uFEFF' :: rest => rest
  | cs => cs

/-- The tokens of a document. -/
def Token.scan (text : List Char) : Option (List Token) :=
  let cs := joinBreaks (dropOrderMark text)
  if cs.all isAllowed then scanFrom .between cs else none

end HotspotBackup.Toml
