import HotspotBackup.MacAddress

/-!
# The notations of an address

A text spells an address (`MacAddress.SpeltBy`) if it is the six pairs of
digits of the octets, in order, written bare, or separated throughout by
colons or by hyphens. `parse?_eq_some_iff`: these are exactly the texts that
are read, each as the address that it spells.

The written form is one of them (`speltBy_text`).
-/

namespace HotspotBackup

theorem pieces_eq_splitOn [DecidableEq α] (sep : α) (text : List α) :
    pieces sep text = text.splitOn sep := by
  induction text with
  | nil => rfl
  | cons c rest ih =>
    rw [pieces, List.splitOn_cons_eq_if_modifyHead, ih]
    by_cases h : c = sep
    · simp [h]
    · simp only [h, beq_iff_eq, ↓reduceIte]
      cases hr : rest.splitOn sep with
      | nil => exact absurd hr (List.splitOn_ne_nil _ _)
      | cons piece others => rfl

/-! ## Digits -/

namespace Digits

theorem hexValue?_digits : ∀ v < 16,
    hexValue? (hexDigit v) = some v ∧ hexValue? (upperHexDigit v) = some v := by
  decide

/-- The digits of a value are its lower-case and its upper-case one. -/
theorem hexValue?_eq_some_iff {c : Char} {v : Nat} :
    hexValue? c = some v ↔ v < 16 ∧ (c = hexDigit v ∨ c = upperHexDigit v) := by
  refine ⟨fun h => ?_, fun h => ?_⟩
  · have hc : Char.ofNat c.toNat = c := Char.ofNat_toNat c
    simp only [hexValue?, Char.le_def, UInt32.le_iff_toNat_le, Char.toNat_val] at h
    split at h
    · rename_i hr
      cases h
      simp only [Char.reduceToNat] at hr ⊢
      refine ⟨by omega, .inl ?_⟩
      rw [hexDigit, if_pos (by omega)]
      show c = Char.ofNat (48 + (c.toNat - 48))
      rw [show 48 + (c.toNat - 48) = c.toNat by omega, hc]
    split at h
    · rename_i hr
      cases h
      simp only [Char.reduceToNat] at hr ⊢
      refine ⟨by omega, .inl ?_⟩
      rw [hexDigit, if_neg (by omega)]
      show c = Char.ofNat (97 + (c.toNat - 97 + 10 - 10))
      rw [show 97 + (c.toNat - 97 + 10 - 10) = c.toNat by omega, hc]
    split at h
    · rename_i hr
      cases h
      simp only [Char.reduceToNat] at hr ⊢
      refine ⟨by omega, .inr ?_⟩
      rw [upperHexDigit, if_neg (by omega)]
      show c = Char.ofNat (65 + (c.toNat - 65 + 10 - 10))
      rw [show 65 + (c.toNat - 65 + 10 - 10) = c.toNat by omega, hc]
    · cases h
  · obtain ⟨hv, rfl | rfl⟩ := h
    · exact (hexValue?_digits v hv).1
    · exact (hexValue?_digits v hv).2

theorem ofHexPair?_hexPair (octet : UInt8) : ofHexPair? (hexPair octet) = some octet := by
  have ho := octet.toNat_lt
  have hh := (hexValue?_digits (octet.toNat / 16) (by omega)).1
  have hl := (hexValue?_digits (octet.toNat % 16) (by omega)).1
  simp only [hexPair, ofHexPair?, hh, hl]
  show some (UInt8.ofNat (16 * (octet.toNat / 16) + octet.toNat % 16)) = some octet
  rw [Nat.div_add_mod, UInt8.ofNat_toNat]

/-- A pair of digits names an octet through the values of the two. -/
theorem ofHexPair?_eq_some_iff {pair : List Char} {octet : UInt8} :
    ofHexPair? pair = some octet ↔ ∃ high low h l,
      pair = [high, low] ∧ hexValue? high = some h ∧ hexValue? low = some l ∧
        octet.toNat = 16 * h + l := by
  refine ⟨fun h => ?_, fun h => ?_⟩
  · unfold ofHexPair? at h
    split at h
    · rename_i high low
      obtain ⟨v, hv, h⟩ := Option.bind_eq_some_iff.1 h
      obtain ⟨w, hw, h⟩ := Option.bind_eq_some_iff.1 h
      cases h
      have hv' := (hexValue?_eq_some_iff.1 hv).1
      have hw' := (hexValue?_eq_some_iff.1 hw).1
      refine ⟨high, low, v, w, rfl, hv, hw, ?_⟩
      rw [UInt8.toNat_ofNat']
      omega
    · cases h
  · obtain ⟨high, low, v, w, rfl, hv, hw, ho⟩ := h
    simp only [ofHexPair?, hv, hw]
    show some (UInt8.ofNat (16 * v + w)) = some octet
    rw [← ho, UInt8.ofNat_toNat]

/-- No digit is a separator of an address. -/
theorem not_isSeparator_of_hexValue? {c : Char} {v : Nat} (h : hexValue? c = some v) :
    MacAddress.isSeparator c = false := by
  obtain ⟨hv, hc⟩ := hexValue?_eq_some_iff.1 h
  have digits : ∀ v < 16, MacAddress.isSeparator (hexDigit v) = false ∧
      MacAddress.isSeparator (upperHexDigit v) = false := by decide
  rcases hc with rfl | rfl
  · exact (digits v hv).1
  · exact (digits v hv).2

end Digits

namespace MacAddress

open Digits (ofHexPair?)

/-- A text spells an address: the pairs of its octets, in order, with the
same separator between them all, or none. -/
def SpeltBy (m : MacAddress) (text : String) : Prop :=
  ∃ sep ∈ [[], [':'], ['-']], ∃ pairs : List (List Char),
    pairs.map ofHexPair? = m.octets.map some ∧ text.toList = sep.intercalate pairs

theorem mapM_eq_some_iff {f : α → Option β} {xs : List α} {ys : List β} :
    xs.mapM f = some ys ↔ xs.map f = ys.map some := by
  induction xs generalizing ys with
  | nil => cases ys <;> simp
  | cons x xs ih =>
    rw [List.mapM_cons]
    cases ys with
    | nil => simp [Option.bind_eq_some_iff]
    | cons y ys => simp [Option.bind_eq_some_iff, ih]

theorem ofOctets?_eq_some_iff {b : Bytes} {m : MacAddress} :
    ofOctets? b = some m ↔ b = m.octets := by
  refine ⟨fun h => ?_, fun h => ?_⟩
  · unfold ofOctets? at h
    split at h
    · cases h; rfl
    · cases h
  · obtain rfl := h
    exact ofOctets?_octets m

theorem parse?_eq_some_iff_groups {text : String} {m : MacAddress} :
    parse? text = some m ↔ (groups text.toList).map ofHexPair? = m.octets.map some := by
  rw [parse?, ← mapM_eq_some_iff]
  refine ⟨fun h => ?_, fun h => ?_⟩
  · obtain ⟨b, hb, hm⟩ := Option.bind_eq_some_iff.1 h
    rw [hb, ofOctets?_eq_some_iff.1 hm]
  · rw [h]
    exact ofOctets?_octets m

/-! ## Splitting into pairs -/

theorem flatten_twoByTwo (text : List Char) : (twoByTwo text).flatten = text := by
  fun_induction twoByTwo text with
  | case1 => rfl
  | case2 => rfl
  | case3 c d rest ih => rw [List.flatten_cons, ih]; rfl

theorem twoByTwo_flatten {pairs : List (List Char)} (h : ∀ p ∈ pairs, ∃ c d, p = [c, d]) :
    twoByTwo pairs.flatten = pairs := by
  induction pairs with
  | nil => rfl
  | cons p pairs ih =>
    obtain ⟨c, d, rfl⟩ := h p List.mem_cons_self
    rw [List.flatten_cons, List.cons_append, List.cons_append, List.nil_append, twoByTwo,
      ih fun q hq => h q (List.mem_cons_of_mem _ hq)]

theorem nil_intercalate (pairs : List (List Char)) : List.intercalate [] pairs = pairs.flatten := by
  induction pairs with
  | nil => rfl
  | cons p pairs ih =>
    cases pairs with
    | nil => simp [List.intercalate_singleton]
    | cons q pairs => rw [List.intercalate_cons_cons, ih, List.append_nil]; rfl

theorem isSeparator_iff {c : Char} : isSeparator c = true ↔ c = ':' ∨ c = '-' := by
  simp [isSeparator]

section Pairs

variable {pairs : List (List Char)} {octets : Bytes}

theorem pair_of_mem (h : pairs.map ofHexPair? = octets.map some) {p : List Char} (hp : p ∈ pairs) :
    ∃ octet, ofHexPair? p = some octet := by
  have hm : ofHexPair? p ∈ octets.map some := h ▸ List.mem_map_of_mem hp
  obtain ⟨octet, -, ho⟩ := List.mem_map.1 hm
  exact ⟨octet, ho.symm⟩

theorem two_digits_of_mem (h : pairs.map ofHexPair? = octets.map some) {p : List Char}
    (hp : p ∈ pairs) : ∃ c d, p = [c, d] := by
  obtain ⟨octet, ho⟩ := pair_of_mem h hp
  obtain ⟨c, d, -, -, rfl, -⟩ := Digits.ofHexPair?_eq_some_iff.1 ho
  exact ⟨c, d, rfl⟩

theorem not_isSeparator_of_mem (h : pairs.map ofHexPair? = octets.map some) {p : List Char}
    (hp : p ∈ pairs) {c : Char} (hc : c ∈ p) : isSeparator c = false := by
  obtain ⟨octet, ho⟩ := pair_of_mem h hp
  obtain ⟨a, b, v, w, rfl, ha, hb, -⟩ := Digits.ofHexPair?_eq_some_iff.1 ho
  simp only [List.mem_cons, List.not_mem_nil, or_false] at hc
  rcases hc with rfl | rfl
  · exact Digits.not_isSeparator_of_hexValue? ha
  · exact Digits.not_isSeparator_of_hexValue? hb

theorem groups_bare (h : pairs.map ofHexPair? = octets.map some) :
    groups pairs.flatten = pairs := by
  have hn : pairs.flatten.find? isSeparator = none := by
    refine List.find?_eq_none.2 fun c hc => ?_
    obtain ⟨p, hp, hcp⟩ := List.mem_flatten.1 hc
    simp [not_isSeparator_of_mem h hp hcp]
  rw [groups, hn]
  exact twoByTwo_flatten fun p hp => two_digits_of_mem h hp

/-- Of two pairs or more, the separator between the first ones is the one
that is found. -/
theorem groups_separated (h : pairs.map ofHexPair? = octets.map some) (hl : 2 ≤ pairs.length)
    {sep : Char} (hs : isSeparator sep = true) : groups ([sep].intercalate pairs) = pairs := by
  have hf : ([sep].intercalate pairs).find? isSeparator = some sep := by
    match pairs, hl with
    | p :: q :: rest, _ =>
      have hp : p.find? isSeparator = none :=
        List.find?_eq_none.2 fun c hc => by simp [not_isSeparator_of_mem h List.mem_cons_self hc]
      rw [List.intercalate_cons_cons, List.append_assoc, List.find?_append, hp, Option.none_or,
        List.singleton_append, List.find?_cons_of_pos hs]
  rw [groups, hf]
  show pieces sep ([sep].intercalate pairs) = pairs
  rw [pieces_eq_splitOn]
  refine List.splitOn_intercalate _ (fun p hp hc => ?_) (List.ne_nil_of_length_pos (by omega))
  rw [not_isSeparator_of_mem h hp hc] at hs
  cases hs

end Pairs

/-- The texts that are read as an address are those that spell it. -/
theorem parse?_eq_some_iff {text : String} {m : MacAddress} :
    parse? text = some m ↔ m.SpeltBy text := by
  rw [parse?_eq_some_iff_groups]
  refine ⟨fun h => ?_, fun h => ?_⟩
  · cases hf : text.toList.find? isSeparator with
    | none =>
      have hg : groups text.toList = twoByTwo text.toList := by rw [groups, hf]
      rw [hg] at h
      exact ⟨[], by simp, _, h, by rw [nil_intercalate, flatten_twoByTwo]⟩
    | some sep =>
      have hg : groups text.toList = text.toList.splitOn sep := by
        rw [groups, hf]
        exact pieces_eq_splitOn sep _
      rw [hg] at h
      refine ⟨[sep], ?_, _, h, (List.intercalate_splitOn sep).symm⟩
      rcases isSeparator_iff.1 (List.find?_some hf) with rfl | rfl <;> simp
  · obtain ⟨sep, hsep, pairs, h, ht⟩ := h
    have hl : pairs.length = 6 := by simpa using congrArg List.length h
    rw [ht]
    simp only [List.mem_cons, List.not_mem_nil, or_false] at hsep
    rcases hsep with rfl | rfl | rfl
    · rw [nil_intercalate, groups_bare h, h]
    · rw [groups_separated h (by omega) rfl, h]
    · rw [groups_separated h (by omega) rfl, h]

/-! ## The written form -/

theorem map_hexPair (octets : Bytes) :
    (octets.map Digits.hexPair).map ofHexPair? = octets.map some := by
  rw [List.map_map]
  exact List.map_congr_left fun octet _ => Digits.ofHexPair?_hexPair octet

theorem speltBy_text (m : MacAddress) : m.SpeltBy m.text :=
  ⟨[':'], by simp, _, map_hexPair m.octets, String.toList_ofList⟩

@[simp] theorem parse?_text (m : MacAddress) : parse? m.text = some m :=
  parse?_eq_some_iff.2 (speltBy_text m)

end MacAddress

end HotspotBackup
