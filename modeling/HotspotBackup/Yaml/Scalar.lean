import HotspotBackup.Text.Decimal

/-!
# Scalars of YAML

How a text is written as a value of a YAML block: plain where that reads
back as the same text, between single quotation marks where a plain one
would read as something else, between double ones where characters need an
escape, and as a literal block where it has several lines.

`Yaml.isTyped` says which texts, written plain, would read as another kind
of value; `isPlain`, `isQuotable` and `isBlock` say which texts each way of
writing can hold.
-/

namespace HotspotBackup.Yaml

/-! ## Texts that read as another kind of value -/

/-- The ways to write no value. -/
def nulls : List String :=
  ["", "null", "Null", "NULL", "~"]

/-- The ways to write a flag. -/
def flags : List String :=
  ["true", "True", "TRUE", "false", "False", "FALSE"]

/-- The ways to write an infinity or no number, signs apart. -/
def specials : List String :=
  [".inf", ".Inf", ".INF", "-.inf", "-.Inf", "-.INF", ".nan", ".NaN", ".NAN",
    "+.inf", "+.Inf", "+.INF"]

/-- Digits of `base`, of a number below `bound`. -/
def isBelow (base bound : Nat) (digits : List Char) : Bool :=
  (Digits.read? base digits).any (· < bound)

/-- A number after the mark of its base, below a bound. -/
def isMarked (bound : Nat) : List Char → Bool
  | '0' :: 'x' :: digits => isBelow 16 bound digits
  | '0' :: 'o' :: digits => isBelow 8 bound digits
  | '0' :: 'b' :: digits => isBelow 2 bound digits
  | _ => false

/-- A whole number with the mark of its base: of 128 bits, or of 127 after a
minus. -/
def isMarkedInteger (cs : List Char) : Bool :=
  match cs with
  | '-' :: rest => isMarked ((1 <<< 127) + 1) rest
  | '+' :: rest => isMarked (1 <<< 128) rest
  | rest => isMarked (1 <<< 128) rest

/-- A decimal that a double can hold, with or without a sign. -/
def isFiniteDecimal (cs : List Char) : Bool :=
  (Decimal.parse? (Decimal.sign cs).2).any (·.isFinite)

/-- Digits with a leading zero, which are a text to some readers and a
number to others. -/
def isPaddedNumber (cs : List Char) : Bool :=
  match (Decimal.sign cs).2 with
  | '0' :: rest => !rest.isEmpty && rest.all (·.isDigit)
  | _ => false

/-- Whether a plain text would read as another kind of value. -/
def isTyped (s : String) : Bool :=
  nulls.contains s || flags.contains s || specials.contains s ||
    isMarkedInteger s.toList || isFiniteDecimal s.toList || isPaddedNumber s.toList

/-! ## Classes of characters -/

/-- The characters that end a line. -/
def isBreak (c : Char) : Bool :=
  c = '\n' || c = '\r' || c = '\x85' || c = '\u2028' || c = '\u2029'

/-- The characters that set two words apart. -/
def isBlank (c : Char) : Bool :=
  c = ' ' || c = '\t' || c = '\x00' || isBreak c

/-- The characters that need no escape. -/
def isPrintable (c : Char) : Bool :=
  let n := c.toNat
  n = 10 || (32 ≤ n && n ≤ 126) || (0xA0 ≤ n && n ≤ 0xFFFD && n ≠ 0xFEFF) || 0x10000 ≤ n

/-- The characters that begin something other than a plain text. -/
def isIndicator (c : Char) : Bool :=
  "#,[]\x7b\x7d&*!|>'\"%@`".toList.contains c

/-! ## What each way of writing can hold -/

/-- Whether a character of the class `p` is followed by one of the class `q`. -/
def hasPair (p q : Char → Bool) (cs : List Char) : Bool :=
  (cs.zip cs.tail).any fun pair => p pair.1 && q pair.2

/-- Whether the end or a blank comes next. -/
def startsBlank (cs : List Char) : Bool :=
  cs.head?.all isBlank

/-- Whether a text begins like something other than a plain text. -/
def startsSpecial : List Char → Bool
  | '-' :: '-' :: '-' :: _ => true
  | '.' :: '.' :: '.' :: _ => true
  | '-' :: rest => startsBlank rest
  | '?' :: rest => startsBlank rest
  | c :: _ => isIndicator c
  | [] => false

/-- Whether a text holds what ends a key or begins a comment. -/
def hasSeparator (cs : List Char) : Bool :=
  hasPair (· = ':') isBlank cs || cs.getLast? = some ':' || hasPair isBlank (· = '#') cs

/-- Whether blanks of a text would be lost outside quotation marks. -/
def isPadded (cs : List Char) : Bool :=
  cs.head?.any (fun c => c = ' ' || isBreak c) || cs.getLast?.any (fun c => c = ' ' || isBreak c)

/-- Whether a text needs escapes: it holds a character that does not print,
or a line that ends in a space. -/
def needsEscape (cs : List Char) : Bool :=
  cs.any (!isPrintable ·) || hasPair (· = ' ') isBreak cs

/-- Whether a line of a text begins with a space. -/
def hasIndent (cs : List Char) : Bool :=
  hasPair isBreak (· = ' ') cs

/-- Whether a text can be written plain. -/
def isPlain (cs : List Char) : Bool :=
  !startsSpecial cs && !hasSeparator cs && !isPadded cs && !needsEscape cs && !hasIndent cs &&
    !cs.any isBreak

/-- Whether a text can stand between single quotation marks. -/
def isQuotable (cs : List Char) : Bool :=
  !needsEscape cs && !hasIndent cs

/-- Whether a text can be a literal block. -/
def isBlock (cs : List Char) : Bool :=
  !needsEscape cs && cs.getLast? ≠ some ' '

/-! ## Writing -/

/-- How a text is written. -/
inductive Style where
  | plain
  | single
  | double
  | literal
  deriving DecidableEq, Repr

/-- The style in which a text is written. -/
def style (s : String) : Style :=
  let cs := s.toList
  if cs.contains '\n' then if isBlock cs then .literal else .double
  else if !isTyped s && isPlain cs then .plain
  else if isQuotable cs then .single
  else .double

/-- The characters in single quotation marks, after a line break or not. A
line is indented by `indent`. -/
def singleBody (indent : Nat) : Bool → List Char → List Char
  | broken, [] => if broken then List.replicate indent ' ' else []
  | broken, c :: rest =>
    if isBreak c then c :: singleBody indent true rest
    else (if broken then List.replicate indent ' ' else []) ++
      (if c = '\'' then ['\'', '\''] else [c]) ++ singleBody indent false rest

/-- The letter of a short escape. -/
def shortEscape? (c : Char) : Option Char :=
  match c.toNat with
  | 0 => some '0'
  | 7 => some 'a'
  | 8 => some 'b'
  | 9 => some 't'
  | 10 => some 'n'
  | 11 => some 'v'
  | 12 => some 'f'
  | 13 => some 'r'
  | 27 => some 'e'
  | 34 => some '"'
  | 92 => some '\\'
  | 0x85 => some 'N'
  | 0x2028 => some 'L'
  | 0x2029 => some 'P'
  | _ => none

/-- A character in double quotation marks. -/
def doubleChar (c : Char) : List Char :=
  match shortEscape? c with
  | some letter => ['\\', letter]
  | none =>
    if isPrintable c then [c]
    else if c.toNat < 0x100 then '\\' :: 'x' :: Digits.upperHex 2 c.toNat
    else if c.toNat < 0x10000 then '\\' :: 'u' :: Digits.upperHex 4 c.toNat
    else '\\' :: 'U' :: Digits.upperHex 8 c.toNat

/-- The mark of a literal block: a hint where its first line begins with a
blank, and what becomes of the line breaks at its end. -/
def literalMark (cs : List Char) : List Char :=
  '|' :: (if cs.head?.any (fun c => c = ' ' || isBreak c) then ['2'] else []) ++
    match cs.reverse with
    | [] => ['-']
    | [c] => if isBreak c then ['+'] else ['-']
    | c :: d :: _ => if !isBreak c then ['-'] else if isBreak d then ['+'] else []

/-- The lines of a literal block, each indented unless it is empty. -/
def literalBody (indent : Nat) : Bool → List Char → List Char
  | _, [] => []
  | broken, c :: rest =>
    if isBreak c then c :: literalBody indent true rest
    else (if broken then List.replicate indent ' ' else []) ++ c :: literalBody indent false rest

/-- A text as a value with the end of its line. Further lines of the value
are indented by `indent`. -/
def text (indent : Nat) (s : String) : List Char :=
  let cs := s.toList
  match style s with
  | .plain => cs ++ ['\n']
  | .single => '\'' :: singleBody indent false cs ++ ['\'', '\n']
  | .double => '"' :: cs.flatMap doubleChar ++ ['"', '\n']
  | .literal =>
    literalMark cs ++ '\n' :: literalBody indent true cs ++
      (if cs.getLast?.any isBreak then [] else ['\n'])

end HotspotBackup.Yaml
