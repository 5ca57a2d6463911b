import HotspotBackup.Text.Utf8
import HotspotBackup.Text.Digits

/-!
# Quoted text of JSON

`Quoted.decode?` reads the octets between the quotation marks of a string:
escapes are replaced, two code units that pair up are joined, and what
results must be UTF-8. A code unit of a pair that stands alone is no text.

`Quoted.encode` writes a text between quotation marks: only the quotation
mark, the backslash and control characters are escaped.
-/

namespace HotspotBackup.Json.Quoted

/-! ## Reading -/

/-- The value of four hexadecimal digits. -/
def codeUnit? (a b c d : UInt8) : Option Nat :=
  Digits.read? 16 ([a, b, c, d].map fun o => Char.ofNat o.toNat)

/-- The character of a one-letter escape. -/
def escaped? (octet : UInt8) : Option UInt8 :=
  if octet = 34 ∨ octet = 92 ∨ octet = 47 then some octet
  else if octet = 98 then some 8
  else if octet = 102 then some 12
  else if octet = 110 then some 10
  else if octet = 114 then some 13
  else if octet = 116 then some 9
  else none

/-- The first unit of a pair. -/
def isLeading (unit : Nat) : Bool :=
  0xD800 ≤ unit && unit ≤ 0xDBFF

/-- The second unit of a pair. -/
def isTrailing (unit : Nat) : Bool :=
  0xDC00 ≤ unit && unit ≤ 0xDFFF

/-- The code point of a pair of units. -/
def joined (leading trailing : Nat) : Nat :=
  (leading - 0xD800) * 1024 + (trailing - 0xDC00) + 0x10000

/-- The octets that the content of a string stands for. -/
def unescape? : Bytes → Option Bytes
  | 92 :: 117 :: a :: b :: c :: d :: rest => do
    let unit ← codeUnit? a b c d
    if isTrailing unit then none
    else if isLeading unit then
      match rest with
      | 92 :: 117 :: e :: f :: g :: h :: rest => do
        let second ← codeUnit? e f g h
        if isTrailing second then
          return Utf8.encodeChar (Char.ofNat (joined unit second)) ++ (← unescape? rest)
        else none
      | _ => none
    else return Utf8.encodeChar (Char.ofNat unit) ++ (← unescape? rest)
  | 92 :: octet :: rest => do return (← escaped? octet) :: (← unescape? rest)
  | [92] => none
  | octet :: rest => do return octet :: (← unescape? rest)
  | [] => some []

@[simp]
theorem unescape?_nil : unescape? [] = some [] := by
  rw [unescape?]

/-- The text that the content of a string stands for. -/
def decode? (raw : Bytes) : Option String := do
  Utf8.decode? (← unescape? raw)

/-! ## Writing -/

/-- The characters that stand for one character of a text. -/
def encodeChar (c : Char) : List Char :=
  if c = '"' then ['\\', '"']
  else if c = '\\' then ['\\', '\\']
  else if c = '\x08' then ['\\', 'b']
  else if c = '\x0c' then ['\\', 'f']
  else if c = '\n' then ['\\', 'n']
  else if c = '\r' then ['\\', 'r']
  else if c = '\t' then ['\\', 't']
  else if c.toNat < 32 then ['\\', 'u', '0', '0'] ++ Digits.hexPair (UInt8.ofNat c.toNat)
  else [c]

/-- A text between quotation marks. -/
def encode (s : String) : List Char :=
  '"' :: s.toList.flatMap encodeChar ++ ['"']

end HotspotBackup.Json.Quoted
