/-!
# Octet runs and big-endian words

A payload, a file's content and the text of a stream are all runs of
octets. `Bytes.ofNat` writes the low octets of a number, most significant
first, and `Bytes.toNat` reads them back.
-/

namespace HotspotBackup

/-- A run of octets, such as a payload or a file's content. -/
abbrev Bytes := List UInt8

namespace Bytes

/-- The `width` low octets of `n`, most significant first. -/
def ofNat : Nat → Nat → Bytes
  | 0, _ => []
  | width + 1, n => ofNat width (n / 256) ++ [UInt8.ofNat n]

/-- The number whose octets, most significant first, are `b`. -/
def toNat (b : Bytes) : Nat :=
  b.foldl (fun n octet => 256 * n + octet.toNat) 0

@[simp] theorem length_ofNat (width n : Nat) : (ofNat width n).length = width := by
  induction width generalizing n with
  | zero => rfl
  | succ width ih => simp [ofNat, ih]

@[simp] theorem toNat_concat (b : Bytes) (octet : UInt8) :
    toNat (b ++ [octet]) = 256 * toNat b + octet.toNat := by
  simp [toNat]

end Bytes

end HotspotBackup
