import HotspotBackup.Error
import HotspotBackup.Wire.Writer

/-!
# Reading primitives

A `Reader` takes the octets that are left and answers with a value or a
malformation, together with the octets that are left afterwards. A failing
reader too says what it leaves: a word or a length that is itself cut off
leaves everything, one that is refused for its value is consumed, and a
text that is not well formed is consumed with its length.

Every length is checked against the octets that are left before the octets
it counts are looked at (`Reader.count`).
-/

namespace HotspotBackup.Wire

/-- A step that reads a value from the octets that are left. -/
def Reader (α : Type) : Type :=
  Bytes → Except Malformation α × Bytes

namespace Reader

/-- The answer of a reader on the octets `b`, and the octets left. -/
def run (r : Reader α) (b : Bytes) : Except Malformation α × Bytes :=
  r b

/-- Reading of `r` and then of what `next` makes of its value; the first
failure ends it. -/
def andThen (r : Reader α) (next : α → Reader β) : Reader β := fun b =>
  match r b with
  | (.ok a, rest) => next a rest
  | (.error cause, rest) => (.error cause, rest)

instance : Monad Reader where
  pure a := fun b => (.ok a, b)
  bind := andThen

/-- A failure that consumes nothing. -/
def fail (cause : Malformation) : Reader α := fun b =>
  (.error cause, b)

/-- The value that is there, or a failure with `cause`. -/
def ofOption (cause : Malformation) : Option α → Reader α
  | some a => pure a
  | none => fail cause

/-- Reading of `r` as often as `n` says. -/
def replicate : Nat → Reader α → Reader (List α)
  | 0, _ => pure []
  | n + 1, r => do return (← r) :: (← replicate n r)

/-- A check that `need` octets are left, which consumes nothing. -/
def ensure (field : String) (need : Nat) : Reader Unit := fun b =>
  if b.length < need then (.error (.truncated field need b.length), b) else (.ok (), b)

/-- The next `need` octets. -/
def octets (field : String) (need : Nat) : Reader Bytes := fun b =>
  if b.length < need then (.error (.truncated field need b.length), b)
  else (.ok (b.take need), b.drop need)

/-- An unsigned 32-bit word. -/
def u32 (field : String) : Reader UInt32 := do
  return UInt32.ofNat (Bytes.toNat (← octets field 4))

/-- A signed 32-bit word. -/
def i32 (field : String) : Reader Int32 := do
  return (← u32 field).toInt32

/-- An unsigned 64-bit word. -/
def u64 (field : String) : Reader UInt64 := do
  return UInt64.ofNat (Bytes.toNat (← octets field 8))

/-- A flag: any octet but zero is true. -/
def flag (field : String) : Reader Bool := do
  return Bytes.toNat (← octets field 1) != 0

/-- A signed 32-bit word that must not be negative. -/
def nonNegative (field : String) : Reader UInt32 := do
  let value ← i32 field
  if value < 0 then fail (.negative field value.toInt) else return value.toUInt32

/-- The sizes that can be addressed are below this bound. -/
def addressable : Nat := UInt64.size

/-- A count of elements of `size` octets each, all of which must follow. -/
def count (field : String) (size : Nat) : Reader Nat := do
  let value ← i32 field
  if value < 0 then fail (.negativeLength field value.toInt)
  else if addressable ≤ value.toInt.toNat * size then
    fail (.lengthOverflow field value.toInt.toNat)
  else
    ensure field (value.toInt.toNat * size)
    return value.toInt.toNat

/-- A text after its length. -/
def text (field : String) : Reader String := do
  let raw ← octets field (← count field 1)
  match Utf8.decode raw with
  | .ok s => return s
  | .error fault => fail (.badText field fault)

/-- A text after its length, or an absent text. -/
def text? (field : String) : Reader (Option String) := fun b =>
  if b.length < 4 then (.error (.truncated field 4 b.length), b)
  else if b.take 4 = absent then (.ok none, b.drop 4)
  else (some <$> text field) b

/-- The six octets of an address. -/
def address (field : String) : Reader MacAddress := fun b =>
  match b with
  | o₁ :: o₂ :: o₃ :: o₄ :: o₅ :: o₆ :: rest => (.ok ⟨o₁, o₂, o₃, o₄, o₅, o₆⟩, rest)
  | _ => (.error (.truncated field 6 b.length), b)

/-- Addresses after their count. -/
def addresses (field : String) : Reader (List MacAddress) := do
  replicate (← count field 6) (address field)

/-- A check that nothing is left. -/
def finish : Reader Unit := fun b =>
  if b.length = 0 then (.ok (), b) else (.error (.trailing b.length), b)

/-! ## Equations -/

@[simp] theorem pure_run (a : α) (b : Bytes) : (pure a : Reader α) b = (.ok a, b) := rfl

@[simp] theorem fail_run (cause : Malformation) (b : Bytes) :
    (fail cause : Reader α) b = (.error cause, b) := rfl

theorem bind_run (r : Reader α) (next : α → Reader β) (b : Bytes) :
    (r >>= next) b = match r b with
      | (.ok a, rest) => next a rest
      | (.error cause, rest) => (.error cause, rest) := rfl

end Reader

end HotspotBackup.Wire
