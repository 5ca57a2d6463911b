import HotspotBackup.Proofs.AddressOctets
import HotspotBackup.Text.Hex

/-!
# Hexadecimal text is read back

A payload that was written as hexadecimal text is read as that payload, at the
end of its line too (`decode_line`).
-/

namespace HotspotBackup.Hex

open Digits (hexDigit)
open Utf8 (asciiOctet)

theorem digitValue?_hexDigit : ∀ v < 16,
    digitValue? (asciiOctet (hexDigit v)) = some v ∧ isBlank (asciiOctet (hexDigit v)) = false := by
  decide

theorem encode_cons (octet : UInt8) (b : Bytes) :
    encode (octet :: b) = asciiOctet (hexDigit (octet.toNat / 16)) ::
      asciiOctet (hexDigit (octet.toNat % 16)) :: encode b :=
  rfl

theorem length_encode (b : Bytes) : (encode b).length = 2 * b.length := by
  induction b with
  | nil => rfl
  | cons octet b ih =>
    rw [encode_cons, List.length_cons, List.length_cons, ih, List.length_cons]
    omega

/-- No digit is white space. -/
theorem filter_encode (b : Bytes) : (encode b).filter (!isBlank ·) = encode b := by
  induction b with
  | nil => rfl
  | cons octet b ih =>
    have hlt := octet.toNat_lt
    have hhigh := (digitValue?_hexDigit (octet.toNat / 16) (by omega)).2
    have hlow := (digitValue?_hexDigit (octet.toNat % 16) (by omega)).2
    simp only [encode_cons, List.filter_cons, hhigh, hlow, Bool.not_false, ↓reduceIte, ih]

/-- By induction on the octets, a pair of digits at a time. -/
theorem decodePairs_encode (index : Nat) (b : Bytes) : decodePairs index (encode b) = .ok b := by
  induction b generalizing index with
  | nil => rfl
  | cons octet b ih =>
    have hlt := octet.toNat_lt
    have hhigh := (digitValue?_hexDigit (octet.toNat / 16) (by omega)).1
    have hlow := (digitValue?_hexDigit (octet.toNat % 16) (by omega)).1
    have hoctet : UInt8.ofNat (16 * (octet.toNat / 16) + octet.toNat % 16) = octet := by
      rw [Nat.div_add_mod, UInt8.ofNat_toNat]
    rw [encode_cons, decodePairs]
    simp only [hhigh, hlow, ih, hoctet]
    rfl

/-- A payload as hexadecimal text, at the end of its line. -/
theorem decode_line (b : Bytes) : decode (encode b ++ [10]) = .ok b := by
  have hdigits : (encode b ++ [10]).filter (!isBlank ·) = encode b := by
    rw [List.filter_append, filter_encode]
    exact List.append_nil _
  have heven : ¬ (encode b).length % 2 = 1 := by
    rw [length_encode]
    omega
  rw [decode, hdigits, if_neg heven, decodePairs_encode]

end HotspotBackup.Hex
