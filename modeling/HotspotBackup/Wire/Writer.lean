import HotspotBackup.MacAddress
import HotspotBackup.Text.Utf8

/-!
# Writing primitives

The primitives of which every backup is made: big-endian words, one-octet
flags, and runs that follow their own length. A length is a signed word, of
which only the low 32 bits are kept; the length `-1` alone stands for an
absent text, which is not the empty one.
-/

namespace HotspotBackup.Wire

/-- An unsigned 32-bit word. -/
def u32 (n : UInt32) : Bytes :=
  Bytes.ofNat 4 n.toNat

/-- A signed 32-bit word. -/
def i32 (n : Int32) : Bytes :=
  u32 n.toUInt32

/-- An unsigned 64-bit word. -/
def u64 (n : UInt64) : Bytes :=
  Bytes.ofNat 8 n.toNat

/-- A flag, in one octet. -/
def flag (b : Bool) : Bytes :=
  [if b then 1 else 0]

/-- A length or a count, of which the low 32 bits are kept. -/
def length (n : Nat) : Bytes :=
  u32 (UInt32.ofNat n)

/-- The mark of an absent text. -/
def absent : Bytes :=
  i32 (-1)

/-- A text after its length in octets, or the mark of an absent one. -/
def text? : Option String → Bytes
  | none => absent
  | some s => length (Utf8.size s) ++ Utf8.encode s

/-- The octets of addresses after their count. -/
def addresses (macs : List MacAddress) : Bytes :=
  length macs.length ++ macs.flatMap (·.octets)

@[simp] theorem length_u32 (n : UInt32) : (u32 n).length = 4 := by simp [u32]

@[simp] theorem length_i32 (n : Int32) : (i32 n).length = 4 := by simp [i32]

@[simp] theorem length_u64 (n : UInt64) : (u64 n).length = 8 := by simp [u64]

@[simp] theorem length_flag (b : Bool) : (flag b).length = 1 := rfl

@[simp] theorem length_length (n : Nat) : (length n).length = 4 := by simp [length]

@[simp] theorem length_absent : absent.length = 4 := by simp [absent]

end HotspotBackup.Wire
