import HotspotBackup.Wire.Writer
import Mathlib.Algebra.Group.Nat.Defs

/-!
# Big-endian words

`Bytes.ofNat` and `Bytes.toNat` are inverse between the numbers below
`256 ^ width` and the runs of `width` octets (`toNat_ofNat_of_lt`,
`ofNat_toNat`), so a number has one word of each width and every run of
octets is a word (`eq_ofNat_iff`).
-/

namespace HotspotBackup.Bytes

theorem toNat_ofNat (width n : Nat) : toNat (ofNat width n) = n % 256 ^ width := by
  induction width generalizing n with
  | zero => simp [ofNat, toNat, Nat.mod_one]
  | succ width ih =>
    rw [ofNat, toNat_concat, ih, UInt8.toNat_ofNat',
      show 256 ^ (width + 1) = 256 * 256 ^ width from Nat.pow_succ', Nat.mod_mul]
    omega

theorem toNat_ofNat_of_lt {width n : Nat} (h : n < 256 ^ width) : toNat (ofNat width n) = n := by
  rw [toNat_ofNat, Nat.mod_eq_of_lt h]

/-- Every run of octets is the word of a number that fits it. -/
theorem toNat_lt_and_ofNat_toNat (width : Nat) {b : Bytes} (h : b.length = width) :
    toNat b < 256 ^ width ∧ ofNat width (toNat b) = b := by
  -- The run is split at its low end, where `ofNat` appends.
  induction width generalizing b with
  | zero => rw [List.length_eq_zero_iff.1 h]; simp [toNat, ofNat]
  | succ width ih =>
    obtain rfl | ⟨high, low, rfl⟩ := List.eq_nil_or_concat b
    · simp at h
    rw [List.concat_eq_append] at h ⊢
    obtain ⟨hlt, hof⟩ := ih (b := high) (by simpa using h)
    have hlow := low.toNat_lt
    rw [toNat_concat, ofNat, show (256 * toNat high + low.toNat) / 256 = toNat high by omega, hof]
    refine ⟨by rw [Nat.pow_succ]; omega, ?_⟩
    congr 2
    apply UInt8.toNat_inj.1
    rw [UInt8.toNat_ofNat']
    omega

theorem toNat_lt (b : Bytes) : toNat b < 256 ^ b.length :=
  (toNat_lt_and_ofNat_toNat _ rfl).1

theorem ofNat_toNat {b : Bytes} {width : Nat} (h : b.length = width) : ofNat width (toNat b) = b :=
  (toNat_lt_and_ofNat_toNat _ h).2

/-- The word of a number, by its size and its value. -/
theorem eq_ofNat_iff {b : Bytes} {width n : Nat} (hn : n < 256 ^ width) :
    b = ofNat width n ↔ b.length = width ∧ toNat b = n := by
  refine ⟨fun h => ?_, fun h => ?_⟩
  · obtain rfl := h
    exact ⟨length_ofNat width n, toNat_ofNat_of_lt hn⟩
  · obtain ⟨hl, rfl⟩ := h
    exact (ofNat_toNat hl).symm

theorem ofNat_inj {width m n : Nat} (hm : m < 256 ^ width) (hn : n < 256 ^ width) :
    ofNat width m = ofNat width n ↔ m = n := by
  rw [eq_ofNat_iff hn, toNat_ofNat_of_lt hm]
  exact and_iff_right (length_ofNat width m)

/-- Of a number only what fits its word is written. -/
theorem ofNat_mod (width n : Nat) : ofNat width (n % 256 ^ width) = ofNat width n := by
  rw [← toNat_ofNat, ofNat_toNat (length_ofNat width n)]

/-- A word is the word of its high octets and that of its low ones. By induction
on the low ones, at whose end `ofNat` appends. -/
theorem ofNat_add (high low n : Nat) :
    ofNat (high + low) n = ofNat high (n / 256 ^ low) ++ ofNat low n := by
  induction low generalizing n with
  | zero => simp [ofNat]
  | succ low ih =>
    have hdiv : n / 256 / 256 ^ low = n / 256 ^ (low + 1) := by
      rw [Nat.div_div_eq_div_mul, Nat.pow_succ']
    rw [← Nat.add_assoc, ofNat, ih, hdiv, ofNat, List.append_assoc]

end HotspotBackup.Bytes
