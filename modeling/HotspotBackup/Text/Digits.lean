/-!
# Digits of small bases

Reading and writing of digits, shared by every textual form: hexadecimal
pairs of addresses and payload text, escapes of quoted strings, and the
plain decimals of documents.
-/

namespace HotspotBackup.Digits

/-- The value of a hexadecimal digit of either case. -/
def hexValue? (c : Char) : Option Nat :=
  if '0' ≤ c ∧ c ≤ '9' then some (c.toNat - '0'.toNat)
  else if 'a' ≤ c ∧ c ≤ 'f' then some (c.toNat - 'a'.toNat + 10)
  else if 'A' ≤ c ∧ c ≤ 'F' then some (c.toNat - 'A'.toNat + 10)
  else none

/-- The lower-case hexadecimal digit of a number below sixteen. -/
def hexDigit (n : Nat) : Char :=
  if n < 10 then Char.ofNat ('0'.toNat + n) else Char.ofNat ('a'.toNat + (n - 10))

/-- The upper-case hexadecimal digit of a number below sixteen. -/
def upperHexDigit (n : Nat) : Char :=
  if n < 10 then Char.ofNat ('0'.toNat + n) else Char.ofNat ('A'.toNat + (n - 10))

/-- The two lower-case hexadecimal digits of an octet. -/
def hexPair (octet : UInt8) : List Char :=
  [hexDigit (octet.toNat / 16), hexDigit (octet.toNat % 16)]

/-- The octet that exactly two hexadecimal digits spell. -/
def ofHexPair? : List Char → Option UInt8
  | [high, low] => do
    let h ← hexValue? high
    let l ← hexValue? low
    return UInt8.ofNat (16 * h + l)
  | _ => none

/-- The `width` low upper-case hexadecimal digits of `n`, most significant first. -/
def upperHex : Nat → Nat → List Char
  | 0, _ => []
  | width + 1, n => upperHex width (n / 16) ++ [upperHexDigit (n % 16)]

/-- A number in lower-case hexadecimal after the mark `0x`. -/
def hexMarked (n : Nat) : String :=
  String.ofList ('0' :: 'x' :: Nat.toDigits 16 n)

/-- The value of a digit below `base`, for a base of at most sixteen. -/
def value? (base : Nat) (c : Char) : Option Nat :=
  (hexValue? c).filter (· < base)

/-- The number that a run of digits of `base` spells, first digit first, on
top of the digits already read. -/
def readFrom? (base : Nat) (read : Nat) : List Char → Option Nat
  | [] => some read
  | c :: rest => do readFrom? base (read * base + (← value? base c)) rest

/-- The number that a non-empty run of digits of `base` spells. -/
def read? (base : Nat) (digits : List Char) : Option Nat :=
  if digits.isEmpty then none else readFrom? base 0 digits

/-- The number of a decimal without sign and without a leading zero. -/
def plainDecimal? : List Char → Option Nat
  | ['0'] => some 0
  | '0' :: _ => none
  | digits => read? 10 digits

end HotspotBackup.Digits
