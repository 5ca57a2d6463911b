import HotspotBackup.Proofs.AddressText
import HotspotBackup.Text.Utf8

/-!
# The octets of an address as text

Every notation of an address has one octet to a character. `canonicalOctets`
rewrites the octets of any notation to those of the written form: it drops
the separators, lowers the digits and puts colons between the pairs
(`canonicalOctets_encode`). The written form has 17 octets
(`length_encode_text`).
-/

namespace HotspotBackup

namespace Utf8

/-- The octet of a character below 128. -/
def asciiOctet (c : Char) : UInt8 :=
  UInt8.ofNat c.toNat

theorem encodeChar_ascii {c : Char} (h : c.toNat < 128) : encodeChar c = [asciiOctet c] := by
  rw [encodeChar]
  exact if_pos h

theorem flatMap_encodeChar_ascii {cs : List Char} (h : ∀ c ∈ cs, c.toNat < 128) :
    cs.flatMap encodeChar = cs.map asciiOctet := by
  induction cs with
  | nil => rfl
  | cons c cs ih =>
    have hc := encodeChar_ascii (h c List.mem_cons_self)
    rw [List.flatMap_cons, hc, ih fun d hd => h d (List.mem_cons_of_mem _ hd)]
    rfl

end Utf8

namespace MacAddress

open Digits (ofHexPair? hexDigit upperHexDigit hexPair)
open Utf8 (asciiOctet)

/-! ## Rewriting -/

/-- The octets of a colon and of a hyphen. -/
def isSeparatorOctet (octet : UInt8) : Bool :=
  octet = 58 || octet = 45

/-- The octet of the lower-case form of a digit. -/
def lowerOctet (octet : UInt8) : UInt8 :=
  if 65 ≤ octet ∧ octet ≤ 70 then octet + 32 else octet

/-- Octets two by two, with colons between. -/
def colonPairs : Bytes → Bytes
  | a :: b :: c :: rest => a :: b :: 58 :: colonPairs (c :: rest)
  | rest => rest

/-- The octets of any notation of an address, rewritten to lower-case pairs
separated by colons. -/
def canonicalOctets (raw : Bytes) : Bytes :=
  colonPairs ((raw.filter (!isSeparatorOctet ·)).map lowerOctet)

/-! ## Digits -/

theorem octet_of_hexDigit : ∀ v < 16,
    (hexDigit v).toNat < 128 ∧ isSeparatorOctet (asciiOctet (hexDigit v)) = false ∧
      lowerOctet (asciiOctet (hexDigit v)) = asciiOctet (hexDigit v) := by
  decide

theorem octet_of_upperHexDigit : ∀ v < 16,
    (upperHexDigit v).toNat < 128 ∧ isSeparatorOctet (asciiOctet (upperHexDigit v)) = false ∧
      lowerOctet (asciiOctet (upperHexDigit v)) = asciiOctet (hexDigit v) := by
  decide

/-- A digit of either case has one octet, which is no separator and is
lowered to that of the lower-case digit. -/
theorem octet_of_digit {c : Char} {v : Nat} (h : Digits.hexValue? c = some v) :
    c.toNat < 128 ∧ isSeparatorOctet (asciiOctet c) = false ∧
      lowerOctet (asciiOctet c) = asciiOctet (hexDigit v) := by
  obtain ⟨hv, hc⟩ := Digits.hexValue?_eq_some_iff.1 h
  rcases hc with rfl | rfl
  · exact octet_of_hexDigit v hv
  · exact octet_of_upperHexDigit v hv

/-- Of the octets of a pair of digits none is a separator, and they are
lowered to those of the lower-case pair. -/
theorem octets_of_pair {pair : List Char} {octet : UInt8} (h : ofHexPair? pair = some octet) :
    (∀ c ∈ pair, c.toNat < 128) ∧
      ((pair.map asciiOctet).filter (!isSeparatorOctet ·)).map lowerOctet =
        (hexPair octet).map asciiOctet := by
  obtain ⟨high, low, v, w, rfl, hv, hw, ho⟩ := Digits.ofHexPair?_eq_some_iff.1 h
  have hw16 := (Digits.hexValue?_eq_some_iff.1 hw).1
  obtain ⟨hh, hhs, hhl⟩ := octet_of_digit hv
  obtain ⟨hl, hls, hll⟩ := octet_of_digit hw
  have hdiv : octet.toNat / 16 = v := by omega
  have hmod : octet.toNat % 16 = w := by omega
  constructor
  · intro c hc
    simp only [List.mem_cons, List.not_mem_nil, or_false] at hc
    rcases hc with rfl | rfl
    · exact hh
    · exact hl
  · simp [hexPair, hdiv, hmod, hhs, hls, hhl, hll]

/-! ## Notations -/

theorem separator_ascii {sep : List Char} (h : sep ∈ [[], [':'], ['-']]) :
    (∀ c ∈ sep, c.toNat < 128) ∧ (sep.map asciiOctet).filter (!isSeparatorOctet ·) = [] := by
  simp only [List.mem_cons, List.not_mem_nil, or_false] at h
  rcases h with rfl | rfl | rfl
  · exact ⟨fun c hc => (nomatch hc), rfl⟩
  · refine ⟨fun c hc => ?_, rfl⟩
    rw [List.mem_singleton.1 hc]
    decide
  · refine ⟨fun c hc => ?_, rfl⟩
    rw [List.mem_singleton.1 hc]
    decide

/-- By induction on the pairs: the separators are dropped and each pair is
lowered, wherever it stands. -/
theorem octets_of_pairs {sep : List Char} (hs : sep ∈ [[], [':'], ['-']])
    {pairs : List (List Char)} {octets : Bytes}
    (h : pairs.map ofHexPair? = octets.map some) :
    (∀ c ∈ sep.intercalate pairs, c.toNat < 128) ∧
      (((sep.intercalate pairs).map asciiOctet).filter (!isSeparatorOctet ·)).map lowerOctet =
        (octets.map hexPair).flatten.map asciiOctet := by
  obtain ⟨hsa, hsn⟩ := separator_ascii hs
  induction pairs generalizing octets with
  | nil =>
    cases octets with
    | nil => simp
    | cons octet octets => cases h
  | cons p pairs ih =>
    cases octets with
    | nil => cases h
    | cons octet octets =>
      rw [List.map_cons, List.map_cons, List.cons.injEq] at h
      obtain ⟨hpa, hpl⟩ := octets_of_pair h.1
      obtain ⟨hra, hrl⟩ := ih h.2
      cases pairs with
      | nil =>
        have hnil : octets = [] := by simpa using h.2.symm
        subst hnil
        rw [List.intercalate_singleton]
        exact ⟨hpa, by simpa using hpl⟩
      | cons q pairs =>
        rw [List.intercalate_cons_cons]
        constructor
        · intro c hc
          simp only [List.mem_append] at hc
          rcases hc with (hc | hc) | hc
          · exact hpa c hc
          · exact hsa c hc
          · exact hra c hc
        · simp only [List.map_append, List.filter_append, hsn, List.append_nil, hpl, hrl,
            List.map_cons, List.flatten_cons]

theorem encode_text (m : MacAddress) :
    Utf8.encode m.text = ([':'].intercalate (m.octets.map hexPair)).map asciiOctet := by
  have hs : [':'] ∈ [[], [':'], ['-']] := by simp
  have ha := (octets_of_pairs hs (map_hexPair m.octets)).1
  rw [Utf8.encode, text, String.toList_ofList, Utf8.flatMap_encodeChar_ascii ha]

/-- The written form of an address has 17 octets. -/
theorem length_encode_text (m : MacAddress) : (Utf8.encode m.text).length = 17 := by
  rw [encode_text, List.length_map]
  rfl

/-- The octets of any notation are rewritten to those of the written form. -/
theorem canonicalOctets_encode {m : MacAddress} {text : String} (h : m.SpeltBy text) :
    canonicalOctets (Utf8.encode text) = Utf8.encode m.text := by
  obtain ⟨sep, hs, pairs, hp, ht⟩ := h
  obtain ⟨ha, hl⟩ := octets_of_pairs hs hp
  rw [Utf8.encode, ht, Utf8.flatMap_encodeChar_ascii ha, canonicalOctets, hl, encode_text]
  rfl

end MacAddress

end HotspotBackup
