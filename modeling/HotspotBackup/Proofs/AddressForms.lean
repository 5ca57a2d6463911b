import HotspotBackup.Proofs.FieldReading

/-!
# The three forms of an address

An address is written as the two digits of each of its octets, in order, and
with the same separator between all of them (`MacAddress.WrittenIn`). Read are
the forms with digits of either case, bare, with colons or with hyphens, and no
other text; written is the form with lower-case digits and colons
(`parse_by_forms`).

A stored address is read by the same rule, and its refusal is that of the text
(`Field.readAddress_of_spellsText`).
-/

namespace HotspotBackup

namespace MacAddress

open Digits (hexDigit upperHexDigit hexPair hexValue? ofHexPair?)

/-! ## Forms -/

/-- The lower-case digits by their values. -/
def lowerDigits : List Char :=
  ['0', '1', '2', '3', '4', '5', '6', '7', '8', '9', 'a', 'b', 'c', 'd', 'e', 'f']

/-- The upper-case digits by their values. -/
def upperDigits : List Char :=
  ['0', '1', '2', '3', '4', '5', '6', '7', '8', '9', 'A', 'B', 'C', 'D', 'E', 'F']

/-- A digit of a value, in one of some alphabets. -/
def IsDigit (alphabets : List (List Char)) (v : Nat) (c : Char) : Prop :=
  ∃ digits ∈ alphabets, digits[v]? = some c

/-- The two digits of an octet, each in any of some alphabets. -/
def IsPair (alphabets : List (List Char)) (octet : UInt8) (pair : List Char) : Prop :=
  ∃ high low, pair = [high, low] ∧ IsDigit alphabets (octet.toNat / 16) high ∧
    IsDigit alphabets (octet.toNat % 16) low

/-- A text is the pairs of the octets of an address, in order, with a separator
between all of them. -/
def WrittenIn (alphabets : List (List Char)) (sep : List Char) (m : MacAddress)
    (text : String) : Prop :=
  ∃ pairs, List.Forall₂ (IsPair alphabets) m.octets pairs ∧ text.toList = sep.intercalate pairs

/-- A text is an address in one of the forms that are read: each digit in either
case, and nothing, colons or hyphens between the pairs. -/
def Names (text : String) (m : MacAddress) : Prop :=
  ∃ sep ∈ [[], [':'], ['-']], m.WrittenIn [lowerDigits, upperDigits] sep text

/-! ## Digits of an alphabet -/

/-- The digits of an alphabet that a function gives. -/
theorem getElem?_eq_some_iff_of_range {digits : List Char} {digit : Nat → Char}
    (h : digits = (List.range 16).map digit) {v : Nat} {c : Char} :
    digits[v]? = some c ↔ v < 16 ∧ c = digit v := by
  subst h
  by_cases hv : v < 16
  · simp [hv, eq_comm]
  · simp [hv]

theorem lowerDigits_getElem?_eq_some_iff {v : Nat} {c : Char} :
    lowerDigits[v]? = some c ↔ v < 16 ∧ c = hexDigit v :=
  getElem?_eq_some_iff_of_range (by decide)

theorem upperDigits_getElem?_eq_some_iff {v : Nat} {c : Char} :
    upperDigits[v]? = some c ↔ v < 16 ∧ c = upperHexDigit v :=
  getElem?_eq_some_iff_of_range (by decide)

theorem isDigit_either_iff {v : Nat} {c : Char} :
    IsDigit [lowerDigits, upperDigits] v c ↔ hexValue? c = some v := by
  simp only [IsDigit, List.mem_cons, List.not_mem_nil, or_false, exists_eq_or_imp, exists_eq_left,
    lowerDigits_getElem?_eq_some_iff, upperDigits_getElem?_eq_some_iff,
    Digits.hexValue?_eq_some_iff, ← and_or_left]

theorem isDigit_lower_iff {v : Nat} {c : Char} :
    IsDigit [lowerDigits] v c ↔ v < 16 ∧ c = hexDigit v := by
  simp only [IsDigit, List.mem_singleton, exists_eq_left, lowerDigits_getElem?_eq_some_iff]

theorem isPair_either_iff {octet : UInt8} {pair : List Char} :
    IsPair [lowerDigits, upperDigits] octet pair ↔ ofHexPair? pair = some octet := by
  simp only [IsPair, isDigit_either_iff, Digits.ofHexPair?_eq_some_iff]
  constructor
  · rintro ⟨high, low, rfl, hh, hl⟩
    exact ⟨high, low, _, _, rfl, hh, hl, (Nat.div_add_mod _ 16).symm⟩
  · rintro ⟨high, low, h, l, rfl, hh, hl, ho⟩
    have hlt := (Digits.hexValue?_eq_some_iff.1 hl).1
    have hdiv : octet.toNat / 16 = h := by omega
    have hmod : octet.toNat % 16 = l := by omega
    exact ⟨high, low, rfl, hdiv ▸ hh, hmod ▸ hl⟩

theorem isPair_lower_iff {octet : UInt8} {pair : List Char} :
    IsPair [lowerDigits] octet pair ↔ hexPair octet = pair := by
  have hlt := octet.toNat_lt
  have hhigh : octet.toNat / 16 < 16 := by omega
  have hlow : octet.toNat % 16 < 16 := by omega
  simp only [IsPair, isDigit_lower_iff, hhigh, hlow, true_and, hexPair]
  constructor
  · rintro ⟨_, _, rfl, rfl, rfl⟩
    rfl
  · rintro rfl
    exact ⟨_, _, rfl, rfl, rfl⟩

/-! ## Texts -/

theorem names_iff_speltBy {text : String} {m : MacAddress} : Names text m ↔ m.SpeltBy text := by
  have hpairs : ∀ pairs : List (List Char),
      List.Forall₂ (IsPair [lowerDigits, upperDigits]) m.octets pairs ↔
        pairs.map ofHexPair? = m.octets.map some := by
    intro pairs
    have hpair : IsPair [lowerDigits, upperDigits] =
        fun octet pair => some octet = ofHexPair? pair :=
      funext₂ fun octet pair => propext (isPair_either_iff.trans eq_comm)
    rw [hpair, eq_comm, ← List.forall₂_eq_eq_eq, List.forall₂_map_left_iff,
      List.forall₂_map_right_iff]
  simp only [Names, WrittenIn, SpeltBy, hpairs]

/-- The written form has lower-case digits and colons, and is the only one. -/
theorem writtenIn_lower_iff {m : MacAddress} {text : String} :
    m.WrittenIn [lowerDigits] [':'] text ↔ text = m.text := by
  have hpairs : ∀ pairs : List (List Char),
      List.Forall₂ (IsPair [lowerDigits]) m.octets pairs ↔ m.octets.map hexPair = pairs := by
    intro pairs
    have hpair : IsPair [lowerDigits] = fun octet pair => hexPair octet = pair :=
      funext₂ fun octet pair => propext isPair_lower_iff
    have hmap : List.Forall₂ Eq (m.octets.map hexPair) pairs ↔ m.octets.map hexPair = pairs := by
      rw [List.forall₂_eq_eq_eq]
    rw [hpair, ← hmap, List.forall₂_map_left_iff]
  simp only [WrittenIn, hpairs, exists_eq_left']
  rw [MacAddress.text, ← String.toList_inj, String.toList_ofList]

/-! ## Reading -/

theorem parse_eq_ok_iff {text : String} {m : MacAddress} :
    parse text = .ok m ↔ Names text m := by
  rw [names_iff_speltBy, ← parse?_eq_some_iff]
  unfold parse
  cases parse? text with
  | none => exact ⟨fun h => (nomatch h), fun h => (nomatch h)⟩
  | some a => rw [Except.ok.injEq, Option.some.injEq]

theorem parse_eq_error_iff {text : String} {r : Refusal} :
    parse text = .error r ↔ r.text = text ∧ ∀ m, ¬ Names text m := by
  simp only [← parse_eq_ok_iff]
  unfold parse
  cases parse? text with
  | none =>
    refine ⟨fun h => ?_, fun h => ?_⟩
    · cases h
      exact ⟨rfl, fun m hm => (nomatch hm)⟩
    · obtain ⟨rfl, -⟩ := h
      rfl
  | some a => exact ⟨fun h => (nomatch h), fun h => absurd rfl (h.2 a)⟩

theorem names_text (m : MacAddress) : Names m.text m :=
  names_iff_speltBy.2 m.speltBy_text

theorem text_injective {m m' : MacAddress} (h : m.text = m'.text) : m = m' := by
  have hm := parse_eq_ok_iff.2 m.names_text
  rw [h, parse_eq_ok_iff.2 m'.names_text] at hm
  exact (Except.ok.inj hm).symm

/-- A text shows the address that it names in the written form. -/
theorem text_parse_eq_ok_iff {text t : String} :
    MacAddress.text <$> parse text = .ok t ↔ ∃ m, Names text m ∧ m.text = t := by
  simp only [← parse_eq_ok_iff]
  cases parse text with
  | error r => exact ⟨fun h => (nomatch h), fun ⟨_, h, _⟩ => (nomatch h)⟩
  | ok a =>
    refine ⟨fun h => ⟨a, rfl, Except.ok.inj h⟩, fun h => ?_⟩
    obtain ⟨m, hm, rfl⟩ := h
    cases hm
    rfl

/-- An address is read from exactly the texts that are one of its three forms,
digits in either case; any other text is refused as it was given. Each address
is shown in one form, with lower-case digits and colons, which is read as that
address again; and two texts are shown alike exactly if they are forms of one
address. -/
theorem parse_by_forms :
    (∀ text m, parse text = .ok m ↔ Names text m) ∧
      (∀ text r, parse text = .error r ↔ r.text = text ∧ ∀ m, ¬ Names text m) ∧
      (∀ m : MacAddress, ∀ text, m.WrittenIn [lowerDigits] [':'] text ↔ text = m.text) ∧
      (∀ m : MacAddress, parse m.text = .ok m) ∧
      ∀ text text', (∃ m, Names text m ∧ Names text' m) ↔
        ∃ t, MacAddress.text <$> parse text = .ok t ∧ MacAddress.text <$> parse text' = .ok t := by
  refine ⟨fun text m => parse_eq_ok_iff, fun text r => parse_eq_error_iff,
    fun m text => writtenIn_lower_iff, fun m => parse_eq_ok_iff.2 m.names_text,
    fun text text' => ?_⟩
  simp only [text_parse_eq_ok_iff]
  constructor
  · rintro ⟨m, h, h'⟩
    exact ⟨m.text, ⟨m, h, rfl⟩, m, h', rfl⟩
  · rintro ⟨_, ⟨m, h, rfl⟩, m', h', ht⟩
    exact ⟨m, h, text_injective ht ▸ h'⟩

/-- A text with two kinds of separators, one with a sign and one with a character
beyond ASCII name no address, and three forms of one address are shown alike. -/
example :
    parse "aa:bb-cc:dd:ee:ff" = .error ⟨"aa:bb-cc:dd:ee:ff"⟩ ∧
      parse "+abbccddeeff" = .error ⟨"+abbccddeeff"⟩ ∧
      parse "aa:bb:cc:dd:ee:ü" = .error ⟨"aa:bb:cc:dd:ee:ü"⟩ ∧
      parse "0A1b2C3d4E5f" = parse "0a-1B-2c-3D-4e-5F" := by
  decide +kernel

end MacAddress

/-! ## Stored addresses -/

namespace Field

open Wire

/-- A stored text is read as the address that it names, and refused as it stands. -/
theorem readAddress_of_spellsText (field : String) {text : String} {e : Bytes}
    (h : SpellsText (some text) e) (rest : Bytes) :
    readAddress field (e ++ rest) = match MacAddress.parse text with
      | .ok m => (.ok (some m), rest)
      | .error r => (.error (.badAddress field r.text), rest) := by
  rw [readAddress, Reader.bind_ok ((Reader.recognizes_text? field).complete rest h),
    MacAddress.parse]
  dsimp only
  cases MacAddress.parse? text with
  | none => rfl
  | some m => rfl

end Field

end HotspotBackup
