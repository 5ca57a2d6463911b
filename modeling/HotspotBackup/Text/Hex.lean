import HotspotBackup.Bytes
import HotspotBackup.Text.Digits

/-!
# Hexadecimal payload text

Payloads may be kept as text: two hexadecimal digits of either case for
each octet, with white space allowed anywhere. Writing uses lower case and
no white space.

An odd number of digits is reported before a character that is no digit;
of several such characters the first is reported, at its place among the
octets that are left once white space is removed.
-/

namespace HotspotBackup.Hex

/-- Why a text is not a run of hexadecimal pairs. -/
inductive Fault where
  | oddLength
  | badDigit (octet : UInt8) (index : Nat)
  deriving DecidableEq, Repr

/-- An octet that stands for itself as a Latin-1 character between
quotation marks, escaped where it would not show. -/
def quotedOctet (octet : UInt8) : String :=
  let n := octet.toNat
  let body :=
    if n = 0 then "\\0"
    else if n = 9 then "\\t"
    else if n = 10 then "\\n"
    else if n = 13 then "\\r"
    else if n = 39 then "\\'"
    else if n = 92 then "\\\\"
    else if n < 32 ∨ (127 ≤ n ∧ n ≤ 160) ∨ n = 173 then
      "\\u\x7b" ++ String.ofList (Nat.toDigits 16 n) ++ "\x7d"
    else String.singleton (Char.ofNat n)
  "'" ++ body ++ "'"

/-- The wording of a fault. -/
def Fault.message : Fault → String
  | .oddLength => "Odd number of digits"
  | .badDigit octet index => s!"Invalid character {quotedOctet octet} at position {index}"

/-- White space that may stand between the digits. -/
def isBlank (octet : UInt8) : Bool :=
  octet = 32 || octet = 9 || octet = 10 || octet = 12 || octet = 13

/-- The lower-case digits of a run of octets. -/
def encode (b : Bytes) : Bytes :=
  b.flatMap fun octet => (Digits.hexPair octet).map fun c => UInt8.ofNat c.toNat

/-- The value of a digit given as an octet. -/
def digitValue? (octet : UInt8) : Option Nat :=
  Digits.hexValue? (Char.ofNat octet.toNat)

/-- The octets spelt by the pairs that stand at offset `index`. -/
def decodePairs (index : Nat) : Bytes → Except Fault Bytes
  | [] => .ok []
  | [_] => .error .oddLength
  | high :: low :: rest =>
    match digitValue? high, digitValue? low with
    | some h, some l => (UInt8.ofNat (16 * h + l) :: ·) <$> decodePairs (index + 2) rest
    | none, _ => .error (.badDigit high index)
    | some _, none => .error (.badDigit low (index + 1))

/-- The octets that a hexadecimal text spells, white space aside. -/
def decode (text : Bytes) : Except Fault Bytes :=
  let digits := text.filter (!isBlank ·)
  if digits.length % 2 = 1 then .error .oddLength else decodePairs 0 digits

end HotspotBackup.Hex
