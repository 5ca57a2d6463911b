import HotspotBackup.Bytes

/-!
# UTF-8 text

`Utf8.encode` writes the code points of a text and `Utf8.decode` reads
them, refusing every run of octets that is not well formed (over-long
forms, surrogates and values past the last code point included).

A refusal names the offset at which the first bad sequence starts. A
sequence that stops being well formed is reported with the number of its
octets that could still begin one; a sequence cut off by the end of the
input is reported as incomplete.
-/

namespace HotspotBackup.Utf8

/-- Why a run of octets is not UTF-8 text. -/
inductive Fault where
  /-- The `size` octets from offset `start` begin no character. -/
  | invalid (size start : Nat)
  /-- The input ends inside the character that starts at offset `start`. -/
  | incomplete (start : Nat)
  deriving DecidableEq, Repr

/-- The wording of a fault. -/
def Fault.message : Fault → String
  | .invalid size start => s!"invalid utf-8 sequence of {size} bytes from index {start}"
  | .incomplete start => s!"incomplete utf-8 byte sequence from index {start}"

/-! ## Writing -/

/-- The octets of one character. -/
def encodeChar (c : Char) : Bytes :=
  let n := c.toNat
  if n < 0x80 then [UInt8.ofNat n]
  else if n < 0x800 then [UInt8.ofNat (0xC0 + n / 64), UInt8.ofNat (0x80 + n % 64)]
  else if n < 0x10000 then
    [UInt8.ofNat (0xE0 + n / 4096), UInt8.ofNat (0x80 + n / 64 % 64), UInt8.ofNat (0x80 + n % 64)]
  else
    [UInt8.ofNat (0xF0 + n / 262144), UInt8.ofNat (0x80 + n / 4096 % 64),
      UInt8.ofNat (0x80 + n / 64 % 64), UInt8.ofNat (0x80 + n % 64)]

/-- The octets of a text. -/
def encode (s : String) : Bytes :=
  s.toList.flatMap encodeChar

/-- The number of octets of a text. -/
def size (s : String) : Nat :=
  (encode s).length

/-! ## Reading -/

/-- An octet that may follow the first one of a character. -/
def isTail (b : UInt8) : Bool :=
  0x80 ≤ b && b ≤ 0xBF

/-- The second octets that may follow the first octet of a three-octet
character: none that makes it over-long or a surrogate. -/
def isSecondOfThree (a b : UInt8) : Bool :=
  if a = 0xE0 then 0xA0 ≤ b && b ≤ 0xBF
  else if a = 0xED then 0x80 ≤ b && b ≤ 0x9F
  else isTail b

/-- The second octets that may follow the first octet of a four-octet
character: none that makes it over-long or too large. -/
def isSecondOfFour (a b : UInt8) : Bool :=
  if a = 0xF0 then 0x90 ≤ b && b ≤ 0xBF
  else if a = 0xF4 then 0x80 ≤ b && b ≤ 0x8F
  else isTail b

/-- The payload bits of a tail octet. -/
def tailBits (b : UInt8) : Nat :=
  b.toNat % 64

/-- The characters of the octets that stand at offset `start` of the input. -/
def decodeFrom (start : Nat) : Bytes → Except Fault (List Char)
  | [] => .ok []
  | a :: rest =>
    if a < 0x80 then (Char.ofNat a.toNat :: ·) <$> decodeFrom (start + 1) rest
    else if a < 0xC2 then .error (.invalid 1 start)
    else if a < 0xE0 then
      match rest with
      | [] => .error (.incomplete start)
      | b :: rest =>
        if !isTail b then .error (.invalid 1 start)
        else (Char.ofNat (a.toNat % 32 * 64 + tailBits b) :: ·) <$> decodeFrom (start + 2) rest
    else if a < 0xF0 then
      match rest with
      | [] => .error (.incomplete start)
      | b :: rest =>
        if !isSecondOfThree a b then .error (.invalid 1 start)
        else match rest with
        | [] => .error (.incomplete start)
        | c :: rest =>
          if !isTail c then .error (.invalid 2 start)
          else (Char.ofNat (a.toNat % 16 * 4096 + tailBits b * 64 + tailBits c) :: ·) <$>
            decodeFrom (start + 3) rest
    else if a < 0xF5 then
      match rest with
      | [] => .error (.incomplete start)
      | b :: rest =>
        if !isSecondOfFour a b then .error (.invalid 1 start)
        else match rest with
        | [] => .error (.incomplete start)
        | c :: rest =>
          if !isTail c then .error (.invalid 2 start)
          else match rest with
          | [] => .error (.incomplete start)
          | d :: rest =>
            if !isTail d then .error (.invalid 3 start)
            else (Char.ofNat (a.toNat % 8 * 262144 + tailBits b * 4096 + tailBits c * 64 +
                tailBits d) :: ·) <$> decodeFrom (start + 4) rest
    else .error (.invalid 1 start)

@[simp]
theorem decodeFrom_nil (start : Nat) : decodeFrom start [] = .ok [] := by
  rw [decodeFrom.eq_def]

/-- The text that a run of octets spells. -/
def decode (b : Bytes) : Except Fault String :=
  String.ofList <$> decodeFrom 0 b

/-- The text that a run of octets spells, if it is well formed. -/
def decode? (b : Bytes) : Option String :=
  (decode b).toOption

end HotspotBackup.Utf8
