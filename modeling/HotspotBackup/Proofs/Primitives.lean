import HotspotBackup.Proofs.Grammar
import HotspotBackup.Proofs.Recognition
import HotspotBackup.Proofs.Utf8
import HotspotBackup.Proofs.Word

/-!
# What the reading primitives accept

One lemma for each primitive gives its encodings. Words are big-endian
(`u32`, `i32`, `u64`), any octet is a flag (`flag`), and a word that must
not be negative is below `2 ^ 31` (`nonNegative`).

Runs that follow their own length are read by `count` and a body. `count`
looks at octets that it leaves to the body, so it is no recognizer by
itself; `counted` is the lemma about the two together, for every body whose
encodings have the size that `count` was told. Texts (`text?`) and
addresses (`addresses`) are such runs.
-/

namespace HotspotBackup.Wire

theorem toInt_eq (v : Int32) : v.toInt =
    if v.toUInt32.toNat ≤ maxStoredNumber then (v.toUInt32.toNat : Int)
    else v.toUInt32.toNat - 4294967296 := by
  have h : v.toInt = if 2 * v.toUInt32.toNat < 2 ^ 32 then (v.toUInt32.toNat : Int)
      else v.toUInt32.toNat - ((2 ^ 32 : Nat) : Int) := BitVec.toInt_eq_toNat_cond v.toBitVec
  rw [h, maxStoredNumber]
  split <;> split <;> omega

theorem negative_iff {v : Int32} : v < 0 ↔ maxStoredNumber < v.toUInt32.toNat := by
  have := v.toUInt32.toNat_lt
  rw [Int32.lt_iff_toInt_lt, toInt_eq, Int32.toInt_zero]
  split <;> simp only [maxStoredNumber] at * <;> omega

theorem toNat_toInt {v : Int32} (h : ¬ v < 0) : v.toInt.toNat = v.toUInt32.toNat := by
  rw [negative_iff] at h
  rw [toInt_eq, if_pos (by omega), Int.toNat_natCast]

/-- Four octets are a signed word. -/
theorem exists_word {b : Bytes} (h : ¬ b.length < 4) : ∃ (v : Int32) (rest : Bytes),
    b = i32 v ++ rest := by
  have hword : Bytes.ofNat 4 (Bytes.toNat (b.take 4)) = b.take 4 :=
    Bytes.ofNat_toNat (List.length_take_of_le (Nat.not_lt.1 h))
  have hlt : Bytes.toNat (b.take 4) < 4294967296 := by
    have hlt := Bytes.toNat_lt (b.take 4)
    rwa [List.length_take_of_le (Nat.not_lt.1 h)] at hlt
  refine ⟨(UInt32.ofNat (Bytes.toNat (b.take 4))).toInt32, b.drop 4, ?_⟩
  rw [i32, u32, UInt32.toUInt32_toInt32, UInt32.toNat_ofNat', Nat.mod_eq_of_lt hlt, hword,
    List.take_append_drop]

/-- The mark of an absent text is the word of `-1`. -/
theorem absent_eq : absent = [255, 255, 255, 255] := by decide

theorem absent_eq_ofNat : absent = Bytes.ofNat 4 4294967295 := rfl

namespace Reader

/-! ## Words and flags -/

theorem recognizes_u32 (field : String) :
    Recognizes (u32 field) fun v e => e = Bytes.ofNat 4 v.toNat :=
  ((Recognizes.octets field 4).map fun b => UInt32.ofNat (Bytes.toNat b)).congr fun v e => by
    refine ⟨fun h => ?_, fun h => ?_⟩
    · obtain ⟨b, ⟨rfl, hl⟩, rfl⟩ := h
      have hlt := Bytes.toNat_lt e
      rw [hl] at hlt
      rw [UInt32.toNat_ofNat', Nat.mod_eq_of_lt (by omega), Bytes.ofNat_toNat hl]
    · obtain rfl := h
      refine ⟨_, ⟨rfl, Bytes.length_ofNat 4 _⟩, ?_⟩
      rw [Bytes.toNat_ofNat_of_lt v.toNat_lt, UInt32.ofNat_toNat]

theorem recognizes_u64 (field : String) :
    Recognizes (u64 field) fun v e => e = Bytes.ofNat 8 v.toNat :=
  ((Recognizes.octets field 8).map fun b => UInt64.ofNat (Bytes.toNat b)).congr fun v e => by
    refine ⟨fun h => ?_, fun h => ?_⟩
    · obtain ⟨b, ⟨rfl, hl⟩, rfl⟩ := h
      have hlt := Bytes.toNat_lt e
      rw [hl] at hlt
      rw [UInt64.toNat_ofNat', Nat.mod_eq_of_lt (by omega), Bytes.ofNat_toNat hl]
    · obtain rfl := h
      refine ⟨_, ⟨rfl, Bytes.length_ofNat 8 _⟩, ?_⟩
      rw [Bytes.toNat_ofNat_of_lt v.toNat_lt, UInt64.ofNat_toNat]

theorem recognizes_i32 (field : String) :
    Recognizes (i32 field) fun v e => e = Bytes.ofNat 4 v.toUInt32.toNat :=
  ((recognizes_u32 field).map UInt32.toInt32).congr fun v e => by
    refine ⟨fun h => ?_, fun h => ?_⟩
    · obtain ⟨u, rfl, rfl⟩ := h
      rfl
    · obtain rfl := h
      exact ⟨v.toUInt32, rfl, rfl⟩

/-- Any octet is a flag, and all but zero are true. -/
theorem recognizes_flag (field : String) : Recognizes (flag field) SpellsFlag :=
  ((Recognizes.octets field 1).map fun b => Bytes.toNat b != 0).congr fun v e => by
    have single (octet : UInt8) : (Bytes.toNat [octet] != 0) = (octet != 0) := by
      rw [Bool.eq_iff_iff, bne_iff_ne, bne_iff_ne, ne_eq, ne_eq, ← UInt8.toNat_inj]
      simp [Bytes.toNat]
    refine ⟨fun h => ?_, fun h => ?_⟩
    · obtain ⟨b, ⟨rfl, hl⟩, rfl⟩ := h
      obtain ⟨octet, rfl⟩ := List.length_eq_one_iff.1 hl
      exact ⟨octet, rfl, single octet⟩
    · obtain ⟨octet, rfl, rfl⟩ := h
      exact ⟨_, ⟨rfl, rfl⟩, single octet⟩

theorem recognizes_nonNegative (field : String) :
    Recognizes (nonNegative field) SpellsNumber := by
  have h := (recognizes_i32 field).check
    (fun v => if v < 0 then fail (.negative field v.toInt) else pure v.toUInt32)
    (fun v => if v < 0 then none else some v.toUInt32)
    (fun v c hv => by
      split at hv
      · cases hv
      · rename_i hn; cases hv; exact if_neg hn)
    (fun v hv => by
      split at hv
      · rename_i hn; exact ⟨_, if_pos hn⟩
      · cases hv)
  refine h.congr fun v e => ?_
  refine ⟨fun h => ?_, fun h => ?_⟩
  · obtain ⟨s, rfl, hs⟩ := h
    split at hs
    · cases hs
    · rename_i hn
      cases hs
      rw [negative_iff] at hn
      exact ⟨by omega, rfl⟩
  · obtain ⟨hv, rfl⟩ := h
    refine ⟨v.toInt32, rfl, ?_⟩
    rw [if_neg (by rw [negative_iff, UInt32.toUInt32_toInt32]; omega), UInt32.toUInt32_toInt32]

/-! ## Runs that follow their own length -/

theorem i32_word (field : String) {n : Nat} (hn : n < 4294967296) (rest : Bytes) :
    i32 field (Bytes.ofNat 4 n ++ rest) = (.ok (UInt32.ofNat n).toInt32, rest) := by
  refine (recognizes_i32 field).complete rest ?_
  rw [UInt32.toUInt32_toInt32, UInt32.toNat_ofNat', Nat.mod_eq_of_lt hn]

theorem i32_append (field : String) (v : Int32) (rest : Bytes) :
    i32 field (Wire.i32 v ++ rest) = (.ok v, rest) :=
  (recognizes_i32 field).complete rest rfl

/-- What `count` answers where a negative length stands. -/
theorem count_of_negative (field : String) (size : Nat) {v : Int32} (h : v < 0) (rest : Bytes) :
    count field size (Wire.i32 v ++ rest) = (.error (.negativeLength field v.toInt), rest) := by
  rw [count, bind_ok (i32_append field v rest), if_pos h]
  rfl

/-- What `count` answers where a length stands that is not negative. -/
theorem count_number (field : String) {n : Nat} (hn : n ≤ maxStoredNumber) (size : Nat)
    (rest : Bytes) : count field size (Bytes.ofNat 4 n ++ rest) =
      if addressable ≤ n * size then (.error (.lengthOverflow field n), rest)
      else if rest.length < n * size then (.error (.truncated field (n * size) rest.length), rest)
      else (.ok n, rest) := by
  have hlt : n < 4294967296 := by rw [maxStoredNumber] at hn; omega
  have hv : (UInt32.ofNat n).toInt32.toUInt32.toNat = n := by
    rw [UInt32.toUInt32_toInt32, UInt32.toNat_ofNat', Nat.mod_eq_of_lt hlt]
  have hneg : ¬ (UInt32.ofNat n).toInt32 < 0 := by rw [negative_iff, hv]; omega
  rw [count, bind_ok (i32_word field hlt rest), if_neg hneg, toNat_toInt hneg, hv]
  by_cases hs : addressable ≤ n * size
  · rw [if_pos hs, if_pos hs]
    rfl
  · rw [if_neg hs, if_neg hs, bind_run, ensure]
    by_cases hl : rest.length < n * size
    · rw [if_pos hl, if_pos hl]
    · rw [if_neg hl, if_neg hl]; rfl

theorem count_word (field : String) {n size : Nat} (hn : n ≤ maxStoredNumber)
    (hs : n * size < addressable) (rest : Bytes) :
    count field size (Bytes.ofNat 4 n ++ rest) =
      if rest.length < n * size then (.error (.truncated field (n * size) rest.length), rest)
      else (.ok n, rest) := by
  rw [count_number field hn, if_neg (Nat.not_le.2 hs)]

theorem exists_of_count_eq_ok {field : String} {size n : Nat} {b rest : Bytes}
    (h : count field size b = (.ok n, rest)) :
    n ≤ maxStoredNumber ∧ n * size < addressable ∧ n * size ≤ rest.length ∧
      b = Bytes.ofNat 4 n ++ rest := by
  obtain ⟨v, s, hv, hn⟩ := exists_of_bind_eq_ok h
  obtain ⟨e, rfl, rfl⟩ := (recognizes_i32 field).sound hv
  split at hn
  · cases hn
  rename_i hneg
  split at hn
  · cases hn
  rename_i hs
  obtain ⟨u, s', hu, hr⟩ := exists_of_bind_eq_ok hn
  unfold ensure at hu
  split at hu
  · cases hu
  rename_i hl
  cases hu
  cases hr
  rw [toNat_toInt hneg] at hs hl ⊢
  rw [negative_iff] at hneg
  exact ⟨by omega, by omega, by omega, rfl⟩

/-- A length and the elements that it counts. -/
theorem Recognizes.counted {body : Nat → Reader α} {F : Nat → α → Bytes → Prop} {size : Nat}
    (field : String) (hsize : size ≤ 8) (hb : ∀ n, Recognizes (body n) (F n))
    (hl : ∀ n a e, F n a e → e.length = n * size) :
    Recognizes (count field size >>= body) fun a e =>
      ∃ n e', n ≤ maxStoredNumber ∧ F n a e' ∧ e = Bytes.ofNat 4 n ++ e' := by
  have small {n : Nat} (hn : n ≤ maxStoredNumber) : n * size < addressable :=
    Nat.lt_of_le_of_lt (Nat.mul_le_mul hn hsize) (by decide)
  refine ⟨fun {a e} rest h => ?_, fun {b a rest} h => ?_, fun {a e q} h hq hne => ?_⟩
  · obtain ⟨n, e', hn, he, rfl⟩ := h
    have hle := hl n a e' he
    have hc : count field size (Bytes.ofNat 4 n ++ (e' ++ rest)) = (.ok n, e' ++ rest) := by
      rw [count_word field hn (small hn), if_neg (by rw [List.length_append]; omega)]
    rw [List.append_assoc, bind_ok hc, (hb n).complete rest he]
  · obtain ⟨n, s, hc, hs⟩ := exists_of_bind_eq_ok h
    obtain ⟨hn, -, -, rfl⟩ := exists_of_count_eq_ok hc
    obtain ⟨e', he, rfl⟩ := (hb n).sound hs
    exact ⟨_, ⟨n, e', hn, he, rfl⟩, (List.append_assoc ..).symm⟩
  · obtain ⟨n, e', hn, he, rfl⟩ := h
    have hle := hl n a e' he
    rcases prefix_append_cases hq hne with ⟨hq, hne⟩ | ⟨q₂, rfl, hq, hne⟩
    · -- The length itself is cut.
      refine truncates_bind (truncates_bind ((recognizes_i32 field).truncated
        (a := (UInt32.ofNat n).toInt32) ?_ hq hne))
      rw [UInt32.toUInt32_toInt32, UInt32.toNat_ofNat', Nat.mod_eq_of_lt]
      exact Nat.lt_of_le_of_lt hn (by decide)
    · have hlt : q₂.length < n * size := by
        rcases Nat.lt_or_eq_of_le hq.length_le with hlt | hlt
        · omega
        · exact absurd (hq.eq_of_length hlt) hne
      refine truncates_bind ⟨field, n * size, q₂.length, q₂, ?_, hlt⟩
      rw [count_word field hn (small hn), if_pos hlt]

theorem recognizes_text (field : String) :
    Recognizes (text field) fun s e => SpellsText (some s) e := by
  have h : Recognizes (text field) fun s e => ∃ n e', n ≤ maxStoredNumber ∧
      (∃ raw, (e' = raw ∧ raw.length = n) ∧ Utf8.decode? raw = some s) ∧
        e = Bytes.ofNat 4 n ++ e' :=
    Recognizes.counted field (by decide)
      (fun n => (Recognizes.octets field n).check _ Utf8.decode?
        (fun raw s h => by rw [Utf8.decode?_eq_some_iff_decode.1 h])
        (fun raw h => by
          obtain ⟨fault, hf⟩ := Utf8.decode?_eq_none_iff.1 h
          exact ⟨_, by rw [hf]⟩))
      fun n s e h => by
        obtain ⟨raw, ⟨rfl, rfl⟩, -⟩ := h
        exact (Nat.mul_one _).symm
  refine h.congr fun s e => ?_
  refine ⟨fun h => ?_, fun h => ?_⟩
  · obtain ⟨n, raw, hn, ⟨_, ⟨rfl, rfl⟩, hd⟩, rfl⟩ := h
    exact ⟨_, _, hn, rfl, Utf8.decode_eq_ok_iff.1 (Utf8.decode?_eq_some_iff_decode.1 hd), rfl⟩
  · obtain ⟨n, raw, hn, rfl, rfl, rfl⟩ := h
    exact ⟨_, _, hn, ⟨_, ⟨rfl, rfl⟩, Utf8.decode?_eq_some_iff_decode.2
      (Utf8.decode_eq_ok_iff.2 rfl)⟩, rfl⟩

/-- No length that may be read is the mark of an absent text. -/
theorem ofNat_ne_absent {n : Nat} (hn : n ≤ maxStoredNumber) : Bytes.ofNat 4 n ≠ absent := by
  rw [maxStoredNumber] at hn
  rw [absent_eq_ofNat, ne_eq, Bytes.ofNat_inj (by omega) (by decide)]
  omega

/-- Octets that do not begin with the mark are read as a text. -/
theorem text?_word (field : String) {n : Nat} (hn : n ≤ maxStoredNumber) (s : Bytes) :
    text? field (Bytes.ofNat 4 n ++ s) = (some <$> text field) (Bytes.ofNat 4 n ++ s) := by
  have ht : (Bytes.ofNat 4 n ++ s).take 4 = Bytes.ofNat 4 n :=
    List.take_left' (Bytes.length_ofNat 4 n)
  rw [text?, if_neg (by simp), if_neg (by rw [ht]; exact ofNat_ne_absent hn)]

theorem recognizes_text? (field : String) : Recognizes (text? field) SpellsText := by
  have present := (recognizes_text field).map some
  refine ⟨fun {v e} rest h => ?_, fun {b v rest} h => ?_, fun {v e q} h hq hne => ?_⟩
  · cases v with
    | none =>
      rw [SpellsText, ← absent_eq] at h
      rw [h, text?, if_neg (by simp), if_pos (List.take_left' length_absent),
        List.drop_left' length_absent]
    | some s =>
      obtain ⟨n, raw, hn, -, -, rfl⟩ := id h
      rw [List.append_assoc, text?_word field hn, ← List.append_assoc]
      exact present.complete rest ⟨s, h, rfl⟩
  · unfold text? at h
    split at h
    · cases h
    split at h
    · rename_i ht
      cases h
      exact ⟨absent, absent_eq, by rw [← ht, List.take_append_drop]⟩
    · obtain ⟨e, ⟨s, he, rfl⟩, rfl⟩ := present.sound h
      exact ⟨e, he, rfl⟩
  · have cut (hl : q.length < 4) : (text? field).Truncates q :=
      ⟨field, 4, q.length, q, by rw [text?, if_pos hl], hl⟩
    cases v with
    | none =>
      rw [SpellsText] at h
      subst h
      refine cut (Nat.lt_of_le_of_ne hq.length_le fun hl => hne (hq.eq_of_length hl))
    | some s =>
      obtain ⟨n, raw, hn, -, -, rfl⟩ := id h
      by_cases hl : q.length < 4
      · exact cut hl
      · have hp : Bytes.ofNat 4 n <+: q :=
          List.prefix_of_prefix_length_le (List.prefix_append _ _) hq (by simp; omega)
        obtain ⟨q₂, rfl⟩ := hp
        obtain ⟨field', need, remain, rest, ht, hlt⟩ := present.truncated ⟨s, h, rfl⟩ hq hne
        exact ⟨field', need, remain, rest, by rw [text?_word field hn, ht], hlt⟩

theorem recognizes_address (field : String) :
    Recognizes (address field) fun m e => e = m.octets := by
  refine ⟨fun {m e} rest h => ?_, fun {b m rest} h => ?_, fun {m e q} h hq hne => ?_⟩
  · rw [h]; rfl
  · unfold address at h
    split at h
    · cases h; exact ⟨_, rfl, rfl⟩
    · cases h
  · subst h
    have hl : q.length < 6 :=
      Nat.lt_of_le_of_ne hq.length_le fun hl => hne (hq.eq_of_length hl)
    refine ⟨field, 6, q.length, q, ?_, hl⟩
    unfold address
    split
    · simp at hl; omega
    · rfl

/-- Six octets are an address. -/
theorem exists_octets {b : Bytes} (h : 6 ≤ b.length) :
    ∃ (m : MacAddress) (rest : Bytes), b = m.octets ++ rest := by
  match b, h with
  | o₁ :: o₂ :: o₃ :: o₄ :: o₅ :: o₆ :: rest, _ => exact ⟨⟨o₁, o₂, o₃, o₄, o₅, o₆⟩, rest, rfl⟩

theorem length_flatMap_octets (macs : List MacAddress) :
    (macs.flatMap (·.octets)).length = macs.length * 6 := by
  simp [List.length_flatMap, List.map_const']

theorem recognizes_addresses (field : String) : Recognizes (addresses field) SpellsAddresses := by
  have body (n : Nat) := (recognizes_address field).replicate n
  refine (Recognizes.counted field (by decide) body fun n macs e h => ?_).congr fun macs e => ?_
  · obtain ⟨rfl, rfl⟩ := h
    exact length_flatMap_octets macs
  · refine ⟨fun h => ?_, fun h => ?_⟩
    · obtain ⟨n, e, hn, ⟨rfl, rfl⟩, rfl⟩ := h
      exact ⟨hn, rfl⟩
    · obtain ⟨hn, rfl⟩ := h
      exact ⟨_, _, hn, ⟨rfl, rfl⟩, rfl⟩

end Reader

end HotspotBackup.Wire
