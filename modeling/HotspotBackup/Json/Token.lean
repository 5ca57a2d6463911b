import HotspotBackup.Bytes
import HotspotBackup.Text.Digits

/-!
# Tokens of JSON text

`Token.scan` splits the octets of a document into tokens, structurally on
the octets: a mode says what the token in hand is (`Mode`). A number is
kept as its characters and a string as the octets between its quotation
marks, so that nothing about them is decided yet; both are checked to be
well formed.

Only what stands between quotation marks may hold octets that are not
ASCII, and there they need not be text.
-/

namespace HotspotBackup.Json

/-- A token of a document. -/
inductive Token where
  | beginObject
  | endObject
  | beginArray
  | endArray
  | colon
  | comma
  | null
  | bool (b : Bool)
  /-- The characters of a number. -/
  | number (digits : List Char)
  /-- The octets between the quotation marks of a string, escapes unread. -/
  | string (raw : Bytes)
  deriving DecidableEq, Repr

/-- What the token in hand is, with its octets so far, last first. -/
inductive Mode where
  | between
  | word (read : List Char)
  | number (read : List Char)
  | string (read : Bytes)
  /-- After a backslash of a string. -/
  | escape (read : Bytes)
  /-- In an escape of which `left + 1` hexadecimal digits are to come. -/
  | unit (left : Nat) (read : Bytes)
  deriving DecidableEq, Repr

/-! ## Numbers -/

/-- At least one digit, and what follows the digits. -/
def digitRun? (cs : List Char) : Option (List Char) :=
  match cs with
  | c :: rest => if c.isDigit then some (rest.dropWhile (·.isDigit)) else none
  | [] => none

/-- Whether nothing or an exponent is left of a number. -/
def isExponent : List Char → Bool
  | [] => true
  | mark :: rest =>
    (mark = 'e' || mark = 'E') &&
      digitRun? (match rest with
        | '+' :: rest | '-' :: rest => rest
        | rest => rest) = some []

/-- Whether nothing, a fraction or an exponent is left of a number. -/
def isFraction : List Char → Bool
  | '.' :: rest =>
    match digitRun? rest with
    | some rest => isExponent rest
    | none => false
  | rest => isExponent rest

/-- Whether characters spell a number: no sign but a leading minus, and no
leading zero. -/
def isNumber (cs : List Char) : Bool :=
  match (match cs with
    | '-' :: rest => rest
    | rest => rest) with
  | '0' :: rest => isFraction rest
  | rest =>
    match digitRun? rest with
    | some rest => isFraction rest
    | none => false

/-! ## Classes of characters -/

/-- White space between tokens. -/
def isBlank (c : Char) : Bool :=
  c = ' ' || c = '\t' || c = '\n' || c = '\r'

/-- A character that continues a number. -/
def isNumberChar (c : Char) : Bool :=
  c.isDigit || c = '+' || c = '-' || c = '.' || c = 'e' || c = 'E'

/-- A character that may follow a backslash, the one of code units apart. -/
def isEscaped (c : Char) : Bool :=
  c = '"' || c = '\\' || c = '/' || c = 'b' || c = 'f' || c = 'n' || c = 'r' || c = 't'

/-- The token of a punctuation character. -/
def punctuation? (c : Char) : Option Token :=
  if c = '\x7b' then some .beginObject
  else if c = '\x7d' then some .endObject
  else if c = '[' then some .beginArray
  else if c = ']' then some .endArray
  else if c = ':' then some .colon
  else if c = ',' then some .comma
  else none

/-- The token of a word. -/
def word? (cs : List Char) : Option Token :=
  if cs = ['n', 'u', 'l', 'l'] then some .null
  else if cs = ['t', 'r', 'u', 'e'] then some (.bool true)
  else if cs = ['f', 'a', 'l', 's', 'e'] then some (.bool false)
  else none

/-! ## Scanning -/

/-- The token in hand where no further octet belongs to it; none between
tokens. -/
def Mode.close? : Mode → Option (List Token)
  | between => some []
  | word read => (word? read.reverse).map ([·])
  | number read => if isNumber read.reverse then some [.number read.reverse] else none
  | string _ | escape _ | unit _ _ => none

/-- The mode after an octet that stands between tokens, with the token it
makes. -/
def openToken? (c : Char) : Option (List Token × Mode) :=
  if isBlank c then some ([], .between)
  else if c = '"' then some ([], .string [])
  else if c = '-' || c.isDigit then some ([], .number [c])
  else if c.isAlpha then some ([], .word [c])
  else (punctuation? c).map fun t => ([t], .between)

/-- The tokens that an octet completes, and the mode after it. -/
def Mode.step (m : Mode) (octet : UInt8) : Option (List Token × Mode) :=
  let c := Char.ofNat octet.toNat
  match m with
  | .between => openToken? c
  | .word read =>
    if c.isAlpha then some ([], .word (c :: read))
    else do
      let done ← (Mode.word read).close?
      let (opened, next) ← openToken? c
      return (done ++ opened, next)
  | .number read =>
    if isNumberChar c then some ([], .number (c :: read))
    else do
      let done ← (Mode.number read).close?
      let (opened, next) ← openToken? c
      return (done ++ opened, next)
  | .string read =>
    if c = '"' then some ([.string read.reverse], .between)
    else if c = '\\' then some ([], .escape (octet :: read))
    else if octet < 32 then none
    else some ([], .string (octet :: read))
  | .escape read =>
    if c = 'u' then some ([], .unit 3 (octet :: read))
    else if isEscaped c then some ([], .string (octet :: read))
    else none
  | .unit left read =>
    if (Digits.hexValue? c).isNone then none
    else match left with
      | 0 => some ([], .string (octet :: read))
      | left + 1 => some ([], .unit left (octet :: read))

/-- The tokens of the octets that follow in a mode. -/
def scanFrom : Mode → Bytes → Option (List Token)
  | m, [] => m.close?
  | m, octet :: rest => do
    let (done, next) ← m.step octet
    return done ++ (← scanFrom next rest)

/-- The tokens of a document. -/
def Token.scan (text : Bytes) : Option (List Token) :=
  scanFrom .between text

end HotspotBackup.Json
