import HotspotBackup.Text.Utf8

/-!
# UTF-8 both ways

`decode` reads exactly what `encode` writes: every text is read back from
its octets, and octets that are read as a text are the octets of that text
(`decode_eq_ok_iff`). So the well-formed runs of octets are those of the
form `encode s`, and each has one text (`encode_inj`).

The octets of a character are compared as numbers: `isTail_iff`,
`isSecondOfThree_iff` and `isSecondOfFour_iff` say which octets may follow,
and one lemma for each size of a character does the arithmetic.
-/

namespace HotspotBackup.Utf8

theorem isTail_iff {b : UInt8} : isTail b = true ↔ 128 ≤ b.toNat ∧ b.toNat ≤ 191 := by
  simp [isTail, UInt8.le_iff_toNat_le]

theorem isSecondOfThree_iff {a b : UInt8} : isSecondOfThree a b = true ↔
    128 ≤ b.toNat ∧ b.toNat ≤ 191 ∧ (a.toNat = 224 → 160 ≤ b.toNat) ∧
      (a.toNat = 237 → b.toNat ≤ 159) := by
  unfold isSecondOfThree
  split
  · subst a; simp [UInt8.le_iff_toNat_le]; omega
  · split
    · subst a; simp [UInt8.le_iff_toNat_le]; omega
    · rename_i h₁ h₂
      rw [← UInt8.toNat_inj] at h₁ h₂
      rw [isTail_iff]
      simp only [UInt8.reduceToNat] at h₁ h₂
      simp [h₁, h₂]

theorem isSecondOfFour_iff {a b : UInt8} : isSecondOfFour a b = true ↔
    128 ≤ b.toNat ∧ b.toNat ≤ 191 ∧ (a.toNat = 240 → 144 ≤ b.toNat) ∧
      (a.toNat = 244 → b.toNat ≤ 143) := by
  unfold isSecondOfFour
  split
  · subst a; simp [UInt8.le_iff_toNat_le]; omega
  · split
    · subst a; simp [UInt8.le_iff_toNat_le]; omega
    · rename_i h₁ h₂
      rw [← UInt8.toNat_inj] at h₁ h₂
      rw [isTail_iff]
      simp only [UInt8.reduceToNat] at h₁ h₂
      simp [h₁, h₂]

/-- The code points are the numbers below the bound but the surrogates. -/
theorem toNat_valid (c : Char) : c.toNat < 55296 ∨ 57343 < c.toNat ∧ c.toNat < 1114112 :=
  c.valid

theorem toNat_charOfNat {n : Nat} (h : n < 55296 ∨ 57343 < n ∧ n < 1114112) :
    (Char.ofNat n).toNat = n := by
  have hv : n.isValidChar := h
  rw [Char.ofNat, dif_pos hv]
  rfl

/-! ## Reading what was written -/

theorem decodeFrom_one {start : Nat} {a : UInt8} {rest : Bytes} (ha : a.toNat < 128) :
    decodeFrom start (a :: rest) = (Char.ofNat a.toNat :: ·) <$> decodeFrom (start + 1) rest := by
  rw [decodeFrom.eq_def]
  simp only [UInt8.lt_iff_toNat_lt, UInt8.reduceToNat, ha, ↓reduceIte]

theorem decodeFrom_two {start : Nat} {a b : UInt8} {rest : Bytes}
    (ha : 194 ≤ a.toNat ∧ a.toNat < 224) (hb : isTail b = true) :
    decodeFrom start (a :: b :: rest) =
      (Char.ofNat (a.toNat % 32 * 64 + tailBits b) :: ·) <$> decodeFrom (start + 2) rest := by
  rw [decodeFrom.eq_def]
  simp only [UInt8.lt_iff_toNat_lt, UInt8.reduceToNat, hb, ha.2, Bool.not_true, Bool.false_eq_true,
    show ¬ a.toNat < 128 by omega, show ¬ a.toNat < 194 by omega, ↓reduceIte]

theorem decodeFrom_three {start : Nat} {a b c : UInt8} {rest : Bytes}
    (ha : 224 ≤ a.toNat ∧ a.toNat < 240) (hb : isSecondOfThree a b = true) (hc : isTail c = true) :
    decodeFrom start (a :: b :: c :: rest) =
      (Char.ofNat (a.toNat % 16 * 4096 + tailBits b * 64 + tailBits c) :: ·) <$>
        decodeFrom (start + 3) rest := by
  rw [decodeFrom.eq_def]
  simp only [UInt8.lt_iff_toNat_lt, UInt8.reduceToNat, hb, hc, ha.2, Bool.not_true,
    Bool.false_eq_true, show ¬ a.toNat < 128 by omega, show ¬ a.toNat < 194 by omega,
    show ¬ a.toNat < 224 by omega, ↓reduceIte]

theorem decodeFrom_four {start : Nat} {a b c d : UInt8} {rest : Bytes}
    (ha : 240 ≤ a.toNat ∧ a.toNat < 245) (hb : isSecondOfFour a b = true) (hc : isTail c = true)
    (hd : isTail d = true) :
    decodeFrom start (a :: b :: c :: d :: rest) =
      (Char.ofNat (a.toNat % 8 * 262144 + tailBits b * 4096 + tailBits c * 64 +
        tailBits d) :: ·) <$> decodeFrom (start + 4) rest := by
  rw [decodeFrom.eq_def]
  simp only [UInt8.lt_iff_toNat_lt, UInt8.reduceToNat, hb, hc, hd, ha.2, Bool.not_true,
    Bool.false_eq_true, show ¬ a.toNat < 128 by omega, show ¬ a.toNat < 194 by omega,
    show ¬ a.toNat < 224 by omega, show ¬ a.toNat < 240 by omega, ↓reduceIte]

/-- A character is read back, whatever follows it. -/
theorem decodeFrom_encodeChar (start : Nat) (c : Char) (rest : Bytes) :
    decodeFrom start (encodeChar c ++ rest) =
      (c :: ·) <$> decodeFrom (start + (encodeChar c).length) rest := by
  have hv := toNat_valid c
  have hc : Char.ofNat c.toNat = c := Char.ofNat_toNat c
  unfold encodeChar
  generalize c.toNat = n at hv hc
  dsimp only
  split
  · rw [List.singleton_append, decodeFrom_one (by rw [UInt8.toNat_ofNat']; omega)]
    simp only [UInt8.toNat_ofNat', List.length_singleton]
    rw [Nat.mod_eq_of_lt (by omega), hc]
  split
  · rw [List.cons_append, List.singleton_append,
      decodeFrom_two (by simp only [UInt8.toNat_ofNat']; omega)
        (by rw [isTail_iff, UInt8.toNat_ofNat']; omega)]
    simp only [tailBits, UInt8.toNat_ofNat', List.length_cons, List.length_nil]
    rw [show (192 + n / 64) % 2 ^ 8 % 32 * 64 + (128 + n % 64) % 2 ^ 8 % 64 = n by omega, hc]
  split
  · rw [List.cons_append, List.cons_append, List.singleton_append,
      decodeFrom_three (by simp only [UInt8.toNat_ofNat']; omega)
        (by simp only [isSecondOfThree_iff, UInt8.toNat_ofNat']; omega)
        (by rw [isTail_iff, UInt8.toNat_ofNat']; omega)]
    simp only [tailBits, UInt8.toNat_ofNat', List.length_cons, List.length_nil]
    rw [show (224 + n / 4096) % 2 ^ 8 % 16 * 4096 + (128 + n / 64 % 64) % 2 ^ 8 % 64 * 64 +
      (128 + n % 64) % 2 ^ 8 % 64 = n by omega, hc]
  · rw [List.cons_append, List.cons_append, List.cons_append, List.singleton_append,
      decodeFrom_four (by simp only [UInt8.toNat_ofNat']; omega)
        (by simp only [isSecondOfFour_iff, UInt8.toNat_ofNat']; omega)
        (by rw [isTail_iff, UInt8.toNat_ofNat']; omega)
        (by rw [isTail_iff, UInt8.toNat_ofNat']; omega)]
    simp only [tailBits, UInt8.toNat_ofNat', List.length_cons, List.length_nil]
    rw [show (240 + n / 262144) % 2 ^ 8 % 8 * 262144 + (128 + n / 4096 % 64) % 2 ^ 8 % 64 * 4096 +
      (128 + n / 64 % 64) % 2 ^ 8 % 64 * 64 + (128 + n % 64) % 2 ^ 8 % 64 = n by omega, hc]

theorem decodeFrom_flatMap_encodeChar (start : Nat) (cs : List Char) :
    decodeFrom start (cs.flatMap encodeChar) = .ok cs := by
  induction cs generalizing start with
  | nil => exact decodeFrom_nil start
  | cons c cs ih => rw [List.flatMap_cons, decodeFrom_encodeChar, ih]; rfl

/-! ## Writing what was read -/

theorem ofNat_eq_iff {n : Nat} {a : UInt8} : UInt8.ofNat n = a ↔ n % 256 = a.toNat := by
  rw [← UInt8.toNat_inj, UInt8.toNat_ofNat']

theorem encodeChar_one {a : UInt8} (ha : a.toNat < 128) :
    encodeChar (Char.ofNat a.toNat) = [a] := by
  unfold encodeChar
  rw [toNat_charOfNat (by omega)]
  simp [ha]

theorem encodeChar_two {a b : UInt8} (ha : 194 ≤ a.toNat ∧ a.toNat < 224) (hb : isTail b = true) :
    encodeChar (Char.ofNat (a.toNat % 32 * 64 + tailBits b)) = [a, b] := by
  rw [isTail_iff] at hb
  have hn : a.toNat % 32 * 64 + tailBits b = (a.toNat - 192) * 64 + (b.toNat - 128) := by
    simp only [tailBits]; omega
  rw [hn]
  unfold encodeChar
  rw [toNat_charOfNat (by omega)]
  dsimp only
  rw [if_neg (by omega), if_pos (by omega)]
  simp only [List.cons.injEq, ofNat_eq_iff, and_true]
  omega

theorem encodeChar_three {a b c : UInt8} (ha : 224 ≤ a.toNat ∧ a.toNat < 240)
    (hb : isSecondOfThree a b = true) (hc : isTail c = true) :
    encodeChar (Char.ofNat (a.toNat % 16 * 4096 + tailBits b * 64 + tailBits c)) = [a, b, c] := by
  rw [isSecondOfThree_iff] at hb
  rw [isTail_iff] at hc
  have hn : a.toNat % 16 * 4096 + tailBits b * 64 + tailBits c =
      (a.toNat - 224) * 4096 + (b.toNat - 128) * 64 + (c.toNat - 128) := by
    simp only [tailBits]; omega
  rw [hn]
  unfold encodeChar
  rw [toNat_charOfNat (by omega)]
  dsimp only
  rw [if_neg (by omega), if_neg (by omega), if_pos (by omega)]
  simp only [List.cons.injEq, ofNat_eq_iff, and_true]
  omega

theorem encodeChar_four {a b c d : UInt8} (ha : 240 ≤ a.toNat ∧ a.toNat < 245)
    (hb : isSecondOfFour a b = true) (hc : isTail c = true) (hd : isTail d = true) :
    encodeChar (Char.ofNat (a.toNat % 8 * 262144 + tailBits b * 4096 + tailBits c * 64 +
      tailBits d)) = [a, b, c, d] := by
  rw [isSecondOfFour_iff] at hb
  rw [isTail_iff] at hc hd
  have hn : a.toNat % 8 * 262144 + tailBits b * 4096 + tailBits c * 64 + tailBits d =
      (a.toNat - 240) * 262144 + (b.toNat - 128) * 4096 + (c.toNat - 128) * 64 +
        (d.toNat - 128) := by
    simp only [tailBits]; omega
  rw [hn]
  unfold encodeChar
  rw [toNat_charOfNat (by omega)]
  dsimp only
  rw [if_neg (by omega), if_neg (by omega), if_neg (by omega)]
  simp only [List.cons.injEq, ofNat_eq_iff, and_true]
  omega

theorem exists_of_map_eq_ok {α β ε : Type} {f : α → β} {r : Except ε α} {b : β}
    (h : f <$> r = .ok b) : ∃ a, r = .ok a ∧ f a = b := by
  cases r with
  | error e => cases h
  | ok a => exact ⟨a, rfl, Except.ok.inj h⟩

theorem flatMap_encodeChar_of_decodeFrom {start : Nat} {b : Bytes} {cs : List Char}
    (h : decodeFrom start b = .ok cs) : cs.flatMap encodeChar = b := by
  -- The cases that answer with a fault have no text; one case for each size is left.
  fun_induction decodeFrom start b generalizing cs with
  | case1 => cases h; rfl
  | case2 start a rest ha ih =>
    obtain ⟨cs, hcs, rfl⟩ := exists_of_map_eq_ok h
    rw [List.flatMap_cons, ih hcs, encodeChar_one (UInt8.lt_iff_toNat_lt.1 ha)]
    rfl
  | case6 start a ha₁ ha₂ ha₃ b rest hb ih =>
    obtain ⟨cs, hcs, rfl⟩ := exists_of_map_eq_ok h
    simp only [UInt8.lt_iff_toNat_lt, UInt8.reduceToNat, Bool.not_eq_true', Bool.not_eq_false]
      at ha₁ ha₂ ha₃ hb
    rw [List.flatMap_cons, ih hcs, encodeChar_two (by omega) hb]
    rfl
  | case11 start a ha₁ ha₂ ha₃ ha₄ b hb c rest hc ih =>
    obtain ⟨cs, hcs, rfl⟩ := exists_of_map_eq_ok h
    simp only [UInt8.lt_iff_toNat_lt, UInt8.reduceToNat, Bool.not_eq_true', Bool.not_eq_false]
      at ha₁ ha₂ ha₃ ha₄ hb hc
    rw [List.flatMap_cons, ih hcs, encodeChar_three (by omega) hb hc]
    rfl
  | case18 start a ha₁ ha₂ ha₃ ha₄ ha₅ b hb c hc d rest hd ih =>
    obtain ⟨cs, hcs, rfl⟩ := exists_of_map_eq_ok h
    simp only [UInt8.lt_iff_toNat_lt, UInt8.reduceToNat, Bool.not_eq_true', Bool.not_eq_false]
      at ha₁ ha₂ ha₃ ha₄ ha₅ hb hc hd
    rw [List.flatMap_cons, ih hcs, encodeChar_four (by omega) hb hc hd]
    rfl
  | _ => cases h

/-! ## Texts -/

/-- Octets are read as a text exactly if they are its octets. -/
theorem decode_eq_ok_iff {b : Bytes} {s : String} : decode b = .ok s ↔ encode s = b := by
  refine ⟨fun h => ?_, fun h => ?_⟩
  · obtain ⟨cs, hcs, rfl⟩ := exists_of_map_eq_ok h
    rw [encode, String.toList_ofList]
    exact flatMap_encodeChar_of_decodeFrom hcs
  · obtain rfl := h
    rw [decode, encode, decodeFrom_flatMap_encodeChar]
    exact congrArg Except.ok String.ofList_toList

theorem decode?_eq_some_iff_decode {b : Bytes} {s : String} :
    decode? b = some s ↔ decode b = .ok s := by
  unfold decode?
  cases decode b <;> simp [Except.toOption]

theorem decode?_encode (s : String) : decode? (encode s) = some s :=
  decode?_eq_some_iff_decode.2 (decode_eq_ok_iff.2 rfl)

theorem decode?_eq_none_iff {b : Bytes} : decode? b = none ↔ ∃ fault, decode b = .error fault := by
  unfold decode?
  cases decode b <;> simp [Except.toOption]

/-- Different texts have different octets. -/
theorem encode_inj {s t : String} : encode s = encode t ↔ s = t := by
  refine ⟨fun h => ?_, fun h => ?_⟩
  · have hs : decode (encode s) = .ok s := decode_eq_ok_iff.2 rfl
    have ht : decode (encode s) = .ok t := decode_eq_ok_iff.2 h.symm
    exact Except.ok.inj (hs.symm.trans ht)
  · obtain rfl := h
    rfl

/-- The octets of a character are those of the standard library. -/
theorem encodeChar_eq (c : Char) : encodeChar c = String.utf8EncodeChar c := by
  have hv := toNat_valid c
  unfold encodeChar String.utf8EncodeChar
  rw [Char.toNat_val]
  generalize c.toNat = n at hv
  dsimp only
  split
  · rw [if_pos (by omega)]
  split
  · rw [if_neg (by omega), if_pos (by omega)]
    simp only [List.cons.injEq, ofNat_eq_iff, UInt8.toNat_ofNat', and_true]
    omega
  split
  · rw [if_neg (by omega), if_neg (by omega), if_pos (by omega)]
    simp only [List.cons.injEq, ofNat_eq_iff, UInt8.toNat_ofNat', and_true]
    omega
  · rw [if_neg (by omega), if_neg (by omega), if_neg (by omega)]
    simp only [List.cons.injEq, ofNat_eq_iff, UInt8.toNat_ofNat', and_true]
    omega

end HotspotBackup.Utf8
