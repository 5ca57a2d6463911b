import HotspotBackup.CommandLine.Run
import HotspotBackup.Proofs.AddressForms
import HotspotBackup.Proofs.FileContents
import HotspotBackup.Proofs.HexText

/-!
# Payloads as hexadecimal text

A text spells octets by two digits for each of them, of either case, with white
space anywhere. It is read as what it spells; of a text that spells nothing, an
odd number of digits is reported first, and else its first octet that is no digit,
at its place among the octets that are left without white space.

* `Hex.Spells`: what digits spell. `Hex.decode_eq_ok_iff`: so they are read.
* `Hex.exists_decodePairs`: what is found in an even number of octets.
* `Hex.Respelt`: a text with digits in upper case and with more white space.
  `Hex.Respelt.digitValues`: its digits are the same.
* `CommandLine.payload_of_hexText`: what comes of a payload that is kept as text.
-/

namespace HotspotBackup

namespace Hex

open MacAddress (lowerDigits upperDigits isDigit_either_iff)

/-! ## Spelling -/

/-- The octets of white space: the space, the tab, the line feed, the form feed and
the carriage return. -/
def blanks : Bytes :=
  [32, 9, 10, 12, 13]

/-- What is left of a text without white space. -/
def digitsOf (text : Bytes) : Bytes :=
  text.filter (· ∉ blanks)

/-- The octet of a digit, of either case. -/
def IsDigit (v : Nat) (octet : UInt8) : Prop :=
  MacAddress.IsDigit [lowerDigits, upperDigits] v (Char.ofNat octet.toNat)

/-- Octets are spelt by two digits for each of them. -/
inductive Spells : Bytes → Bytes → Prop
  | nil : Spells [] []
  | cons {octet high low : UInt8} {b digits : Bytes} (hhigh : IsDigit (octet.toNat / 16) high)
      (hlow : IsDigit (octet.toNat % 16) low) (h : Spells b digits) :
      Spells (octet :: b) (high :: low :: digits)

/-- The first octet that is no digit, and its place. -/
structure FirstBad (digits : Bytes) (k : Nat) (octet : UInt8) : Prop where
  here : digits[k]? = some octet
  bad : ∀ v, ¬ IsDigit v octet
  before : ∀ j < k, ∀ other, digits[j]? = some other → ∃ v, IsDigit v other

theorem digitValue?_eq_some_iff {octet : UInt8} {v : Nat} :
    digitValue? octet = some v ↔ IsDigit v octet :=
  isDigit_either_iff.symm

theorem digitValue?_eq_none_iff {octet : UInt8} :
    digitValue? octet = none ↔ ∀ v, ¬ IsDigit v octet := by
  simp only [← digitValue?_eq_some_iff, Option.eq_none_iff_forall_ne_some, ne_eq]

theorem isDigit_lt {v : Nat} {octet : UInt8} (h : IsDigit v octet) : v < 16 :=
  (Digits.hexValue?_eq_some_iff.1 (digitValue?_eq_some_iff.2 h)).1

theorem decodePairs_of_spells {b digits : Bytes} (h : Spells b digits) (index : Nat) :
    decodePairs index digits = .ok b := by
  induction h generalizing index with
  | nil => rfl
  | @cons octet high low b digits hhigh hlow _ ih =>
    have hoctet : UInt8.ofNat (16 * (octet.toNat / 16) + octet.toNat % 16) = octet := by
      rw [Nat.div_add_mod, UInt8.ofNat_toNat]
    rw [decodePairs, digitValue?_eq_some_iff.2 hhigh, digitValue?_eq_some_iff.2 hlow]
    simp only [ih, hoctet]
    rfl

theorem Spells.isDigit {b digits : Bytes} (h : Spells b digits) :
    ∀ octet ∈ digits, ∃ v, IsDigit v octet := by
  induction h with
  | nil => exact nofun
  | cons hhigh hlow _ ih =>
    intro octet hoctet
    rcases List.mem_cons.1 hoctet with rfl | hoctet
    · exact ⟨_, hhigh⟩
    rcases List.mem_cons.1 hoctet with rfl | hoctet
    · exact ⟨_, hlow⟩
    · exact ih octet hoctet

theorem Spells.length_eq {b digits : Bytes} (h : Spells b digits) :
    digits.length = 2 * b.length := by
  induction h with
  | nil => rfl
  | cons _ _ _ ih =>
    simp only [List.length_cons, ih]
    omega

/-- Digits of an octet that are behind one another. -/
theorem spells_pair {h l : Nat} {high low : UInt8} (hhigh : IsDigit h high) (hlow : IsDigit l low)
    {b digits : Bytes} (hrest : Spells b digits) :
    Spells (UInt8.ofNat (16 * h + l) :: b) (high :: low :: digits) := by
  have hh := isDigit_lt hhigh
  have hl := isDigit_lt hlow
  have hvalue : (UInt8.ofNat (16 * h + l)).toNat = 16 * h + l := by
    rw [UInt8.toNat_ofNat']
    omega
  refine .cons ?_ ?_ hrest
  · rwa [hvalue, show (16 * h + l) / 16 = h by omega]
  · rwa [hvalue, show (16 * h + l) % 16 = l by omega]

theorem FirstBad.behind {digits : Bytes} {k : Nat} {octet high low : UInt8} {h l : Nat}
    (hbad : FirstBad digits k octet) (hhigh : IsDigit h high) (hlow : IsDigit l low) :
    FirstBad (high :: low :: digits) (k + 2) octet := by
  refine ⟨hbad.here, hbad.bad, fun j hj other hother => ?_⟩
  match j with
  | 0 =>
    cases hother
    exact ⟨_, hhigh⟩
  | 1 =>
    cases hother
    exact ⟨_, hlow⟩
  | j + 2 => exact hbad.before j (by omega) other hother

/-- An even number of octets spell something, or the first of them that is no digit
is reported. By induction on the pairs. -/
theorem exists_decodePairs {digits : Bytes} (heven : digits.length % 2 = 0) (index : Nat) :
    (∃ b, Spells b digits) ∨ ∃ octet k, FirstBad digits k octet ∧
      decodePairs index digits = .error (.badDigit octet (index + k)) := by
  fun_induction decodePairs index digits with
  | case1 index => exact .inl ⟨[], .nil⟩
  | case2 index octet => cases heven
  | case3 index high low rest h l hl hh ih =>
    have hhigh := digitValue?_eq_some_iff.1 hh
    have hlow := digitValue?_eq_some_iff.1 hl
    have hrest : rest.length % 2 = 0 := by
      simp only [List.length_cons] at heven
      omega
    rcases ih hrest with ⟨b, hb⟩ | ⟨octet, k, hbad, herror⟩
    · exact .inl ⟨_, spells_pair hhigh hlow hb⟩
    · refine .inr ⟨octet, k + 2, hbad.behind hhigh hlow, ?_⟩
      rw [herror, show index + (k + 2) = index + 2 + k by omega]
      rfl
  | case4 index high low rest hh =>
    exact .inr ⟨high, 0, ⟨rfl, digitValue?_eq_none_iff.1 hh, nofun⟩, rfl⟩
  | case5 index high low rest h hl hh =>
    refine .inr ⟨low, 1, ⟨rfl, digitValue?_eq_none_iff.1 hl, fun j hj other hother => ?_⟩, rfl⟩
    obtain rfl : j = 0 := by omega
    cases hother
    exact ⟨h, digitValue?_eq_some_iff.1 hh⟩

theorem FirstBad.not_spells {digits : Bytes} {k : Nat} {octet : UInt8}
    (h : FirstBad digits k octet) (b : Bytes) : ¬ Spells b digits := by
  intro hb
  obtain ⟨v, hv⟩ := hb.isDigit octet (List.mem_of_getElem? h.here)
  exact h.bad v hv

theorem FirstBad.unique {digits : Bytes} {k k' : Nat} {octet octet' : UInt8}
    (h : FirstBad digits k octet) (h' : FirstBad digits k' octet') : k = k' ∧ octet = octet' := by
  have hle : ¬ k < k' := fun hlt => by
    obtain ⟨v, hv⟩ := h'.before k hlt octet h.here
    exact h.bad v hv
  have hge : ¬ k' < k := fun hlt => by
    obtain ⟨v, hv⟩ := h.before k' hlt octet' h'.here
    exact h'.bad v hv
  obtain rfl : k = k' := by omega
  exact ⟨rfl, Option.some.inj (h.here.symm.trans h'.here)⟩

/-- What is spelt depends on the values of the digits alone. -/
theorem Spells.congr {b digits digits' : Bytes} (h : Spells b digits)
    (hvalues : digits'.map digitValue? = digits.map digitValue?) : Spells b digits' := by
  induction h generalizing digits' with
  | nil => exact List.map_eq_nil_iff.1 hvalues ▸ .nil
  | cons hhigh hlow _ ih =>
    obtain ⟨high', rest, rfl, hh, hvalues⟩ := List.map_eq_cons_iff.1 hvalues
    obtain ⟨low', rest, rfl, hl, hvalues⟩ := List.map_eq_cons_iff.1 hvalues
    rw [← digitValue?_eq_some_iff, ← hh, digitValue?_eq_some_iff] at hhigh
    rw [← digitValue?_eq_some_iff, ← hl, digitValue?_eq_some_iff] at hlow
    exact .cons hhigh hlow (ih hvalues)

/-! ## Reading -/

theorem filter_isBlank (text : Bytes) : text.filter (!isBlank ·) = digitsOf text := by
  refine List.filter_congr fun octet _ => ?_
  simp [isBlank, blanks, Bool.and_assoc]

theorem decode_of_odd {text : Bytes} (h : (digitsOf text).length % 2 = 1) :
    decode text = .error .oddLength := by
  rw [decode, filter_isBlank]
  exact if_pos h

theorem decode_of_even {text : Bytes} (h : (digitsOf text).length % 2 = 0) :
    decode text = decodePairs 0 (digitsOf text) := by
  rw [decode, filter_isBlank]
  exact if_neg (by omega)

/-- What comes of a text: what it spells, an odd length, or its first octet that is
no digit. -/
theorem decode_cases (text : Bytes) :
    (∃ b, Spells b (digitsOf text) ∧ decode text = .ok b) ∨
      (digitsOf text).length % 2 = 1 ∧ decode text = .error .oddLength ∨
      ∃ octet k, (digitsOf text).length % 2 = 0 ∧ FirstBad (digitsOf text) k octet ∧
        decode text = .error (.badDigit octet k) := by
  rcases Nat.mod_two_eq_zero_or_one (digitsOf text).length with heven | hodd
  · rw [decode_of_even heven]
    rcases exists_decodePairs heven 0 with ⟨b, hb⟩ | ⟨octet, k, hbad, herror⟩
    · exact .inl ⟨b, hb, decodePairs_of_spells hb 0⟩
    · rw [Nat.zero_add] at herror
      exact .inr (.inr ⟨octet, k, heven, hbad, herror⟩)
  · exact .inr (.inl ⟨hodd, decode_of_odd hodd⟩)

theorem decode_eq_ok_iff {text b : Bytes} : decode text = .ok b ↔ Spells b (digitsOf text) := by
  constructor
  · intro h
    rcases decode_cases text with ⟨b', hb', hok⟩ | ⟨-, herror⟩ | ⟨_, _, -, -, herror⟩
    · cases h.symm.trans hok
      exact hb'
    · cases h.symm.trans herror
    · cases h.symm.trans herror
  · intro h
    have heven := h.length_eq
    rw [decode_of_even (by omega), decodePairs_of_spells h]

theorem decode_eq_oddLength_iff {text : Bytes} :
    decode text = .error .oddLength ↔ (digitsOf text).length % 2 = 1 := by
  refine ⟨fun h => ?_, decode_of_odd⟩
  rcases decode_cases text with ⟨_, -, hok⟩ | ⟨hodd, -⟩ | ⟨_, _, -, -, herror⟩
  · cases h.symm.trans hok
  · exact hodd
  · cases h.symm.trans herror

theorem decode_eq_badDigit_iff {text : Bytes} {octet : UInt8} {k : Nat} :
    decode text = .error (.badDigit octet k) ↔
      (digitsOf text).length % 2 = 0 ∧ FirstBad (digitsOf text) k octet := by
  constructor
  · intro h
    rcases decode_cases text with ⟨_, -, hok⟩ | ⟨-, herror⟩ | ⟨octet', k', heven, hbad, herror⟩
    · cases h.symm.trans hok
    · cases h.symm.trans herror
    · cases h.symm.trans herror
      exact ⟨heven, hbad⟩
  · rintro ⟨heven, hbad⟩
    rcases decode_cases text with ⟨b, hb, -⟩ | ⟨hodd, -⟩ | ⟨octet', k', -, hbad', herror⟩
    · exact absurd hb (hbad.not_spells b)
    · omega
    · obtain ⟨rfl, rfl⟩ := hbad.unique hbad'
      exact herror

/-- A text spells something if its digits come in pairs and are digits. -/
theorem exists_spells_iff {digits : Bytes} :
    (∃ b, Spells b digits) ↔ digits.length % 2 = 0 ∧ ∀ octet ∈ digits, ∃ v, IsDigit v octet := by
  constructor
  · rintro ⟨b, hb⟩
    have hlength := hb.length_eq
    exact ⟨by omega, hb.isDigit⟩
  · rintro ⟨heven, hdigits⟩
    rcases exists_decodePairs heven 0 with hspells | ⟨octet, k, hbad, -⟩
    · exact hspells
    · obtain ⟨v, hv⟩ := hdigits octet (List.mem_of_getElem? hbad.here)
      exact absurd hv (hbad.bad v)

/-! ## Respelling -/

/-- The octet of a letter in upper case. -/
def upper (octet : UInt8) : UInt8 :=
  if 97 ≤ octet ∧ octet ≤ 122 then octet - 32 else octet

/-- A text with some letters in upper case, and with white space put in. -/
inductive Respelt : Bytes → Bytes → Prop
  | nil : Respelt [] []
  | keep (octet : UInt8) {text text' : Bytes} (h : Respelt text text') :
      Respelt (octet :: text) (octet :: text')
  | raise (octet : UInt8) {text text' : Bytes} (h : Respelt text text') :
      Respelt (octet :: text) (upper octet :: text')
  | blank {octet : UInt8} (hblank : octet ∈ blanks) {text text' : Bytes} (h : Respelt text text') :
      Respelt text (octet :: text')

theorem Respelt.refl : ∀ text, Respelt text text
  | [] => .nil
  | octet :: text => .keep octet (Respelt.refl text)

/-- Of every octet by its value. -/
theorem digitValue?_upper_ofNat : ∀ n < 256,
    digitValue? (upper (.ofNat n)) = digitValue? (.ofNat n) ∧
      (upper (.ofNat n) ∈ blanks ↔ .ofNat n ∈ blanks) := by
  decide +kernel

theorem digitValue?_upper (octet : UInt8) :
    digitValue? (upper octet) = digitValue? octet ∧ (upper octet ∈ blanks ↔ octet ∈ blanks) := by
  have h := digitValue?_upper_ofNat octet.toNat octet.toNat_lt
  rwa [UInt8.ofNat_toNat] at h

/-- The digits stay what they are, one by one. -/
theorem Respelt.digitValues {text text' : Bytes} (h : Respelt text text') :
    (digitsOf text').map digitValue? = (digitsOf text).map digitValue? := by
  induction h with
  | nil => rfl
  | keep octet _ ih =>
    simp only [digitsOf, List.filter_cons] at ih ⊢
    split
    · rw [List.map_cons, List.map_cons, ih]
    · exact ih
  | raise octet _ ih =>
    obtain ⟨hvalue, hblank⟩ := digitValue?_upper octet
    simp only [digitsOf, List.filter_cons, hblank] at ih ⊢
    split
    · rw [List.map_cons, List.map_cons, ih, hvalue]
    · exact ih
  | blank hblank _ ih =>
    simp only [digitsOf, List.filter_cons] at ih ⊢
    simpa [hblank] using ih

/-- What a payload is written as spells it, however it is respelt. -/
theorem Respelt.spells_line {b text : Bytes} (h : Respelt (encode b ++ [10]) text) :
    Spells b (digitsOf text) :=
  (decode_eq_ok_iff.1 (decode_line b)).congr h.digitValues

end Hex

namespace CommandLine

open Hex (Spells digitsOf IsDigit FirstBad Respelt)

/-- What comes of a payload that is kept as a text. -/
structure World.ReadsText (w : World) (path : String) (text : Bytes) : Prop where
  read : ∀ b, w.payload path true = .ok b ↔ Spells b (digitsOf text)
  readable : (∃ b, w.payload path true = .ok b) ↔
    (digitsOf text).length % 2 = 0 ∧ ∀ octet ∈ digitsOf text, ∃ v, IsDigit v octet
  odd : w.payload path true = .error (.hexText .oddLength) ↔ (digitsOf text).length % 2 = 1
  bad : ∀ octet k, w.payload path true = .error (.hexText (.badDigit octet k)) ↔
    (digitsOf text).length % 2 = 0 ∧ FirstBad (digitsOf text) k octet
  refused : ∀ failure, w.payload path true = .error failure → ∃ fault, failure = .hexText fault

theorem payload_eq_mapError {w : World} {path : String} {text : Bytes}
    (h : w.load path = .ok text) : w.payload path true = (Hex.decode text).mapError .hexText := by
  rw [World.payload, h]
  rfl

theorem readsText {w : World} {path : String} {text : Bytes} (h : w.load path = .ok text) :
    w.ReadsText path text := by
  have hpayload := payload_eq_mapError h
  have hread : ∀ b, w.payload path true = .ok b ↔ Spells b (digitsOf text) := by
    intro b
    rw [hpayload, ← Hex.decode_eq_ok_iff]
    cases Hex.decode text <;> simp [Except.mapError]
  have hfault : ∀ fault, w.payload path true = .error (.hexText fault) ↔
      Hex.decode text = .error fault := by
    intro fault
    rw [hpayload]
    cases Hex.decode text <;> simp [Except.mapError]
  refine ⟨hread, ?_, (hfault _).trans Hex.decode_eq_oddLength_iff,
    fun octet k => (hfault _).trans Hex.decode_eq_badDigit_iff, fun failure hfailure => ?_⟩
  · simp only [hread, Hex.exists_spells_iff]
  · rw [hpayload] at hfailure
    cases hdecode : Hex.decode text with
    | ok b =>
      rw [hdecode] at hfailure
      cases hfailure
    | error fault =>
      rw [hdecode] at hfailure
      cases hfailure
      exact ⟨fault, rfl⟩

/-- A payload that is kept as a text is what the text spells; one that spells
nothing is refused, for an odd number of digits or else for its first octet that is
no digit. So a payload is read as it was written, from a file and from standard
input, and also with its digits in upper case and with white space put in. -/
theorem payload_of_hexText :
    (∀ (w : World) path text, w.load path = .ok text → w.ReadsText path text) ∧
      (∀ (w : World) path text b, w.load path = .ok text → Respelt (written true b) text →
        w.payload path true = .ok b) ∧
      (∀ (f g : Files) path b, f.write path (written true b) = (true, g) →
        isStandardInput path = false → ∀ w : World, w.read = g.read? →
          w.payload path true = .ok b) ∧
      ∀ (w : World) path b, w.input = written true b → isStandardInput path = true →
        w.payload path true = .ok b := by
  have hrespelt : ∀ (w : World) path text b, w.load path = .ok text →
      Respelt (written true b) text → w.payload path true = .ok b :=
    fun w path text b hload h => ((readsText hload).read b).2 h.spells_line
  refine ⟨fun w path text => readsText, hrespelt, fun f g path b hwrite hpath w hw => ?_,
    fun w path b hinput hpath => ?_⟩
  · have hload : w.load path = .ok (written true b) := by
      rw [World.load, hpath, hw, Files.read?_of_write hwrite]
      rfl
    exact hrespelt w path _ b hload (.refl _)
  · have hload : w.load path = .ok (written true b) := by
      rw [World.load, hpath, hinput]
      rfl
    exact hrespelt w path _ b hload (.refl _)

/-- A world with nothing but a standard input. -/
def piped (input : Bytes) : World where
  platform := default
  read _ := none
  find _ := none
  unreadable _ := ""
  environment := []
  input := input

/-- Files without a file. -/
def bareFiles : Files where
  start := []
  entry l := if l = [] then some (.directory true) else none

/-- The text of an octet, respelt; a text with an octet that is no digit behind one
that is white space; a text of an odd number of octets, one of which is no digit;
and a text that was written to a file. -/
theorem payload_of_hexText_piped :
    (piped [65, 32, 66, 13, 10]).payload "-" true = .ok [171] ∧
      (piped [48, 9, 255, 48, 103]).payload "-" true = .error (.hexText (.badDigit 255 1)) ∧
      (piped [48, 122, 48]).payload "-" true = .error (.hexText .oddLength) ∧
      (piped (written true [0, 171])).payload "-" true = .ok [0, 171] ∧
      ∃ g, bareFiles.write "porch.hex" (written true [0, 171]) = (true, g) ∧
        ({ piped [] with read := g.read? } : World).payload "porch.hex" true = .ok [0, 171] := by
  obtain ⟨hreads, hrespelt, hfile, hpiped⟩ := payload_of_hexText
  have hload : ∀ input, (piped input).load "-" = .ok input := fun _ => rfl
  have hspelt : Respelt (written true [171]) [65, 32, 66, 13, 10] :=
    .raise 97 (.blank (by decide) (.raise 98 (.blank (by decide) (.keep 10 .nil))))
  have hbad : FirstBad (digitsOf [48, 9, 255, 48, 103]) 1 255 := by
    refine ⟨rfl, Hex.digitValue?_eq_none_iff.1 (by decide), fun j hj other hother => ?_⟩
    obtain rfl : j = 0 := by omega
    cases hother
    exact ⟨0, Hex.digitValue?_eq_some_iff.1 (by decide)⟩
  have hmade : (bareFiles.write "porch.hex" (written true [0, 171])).1 = true := by
    decide +kernel
  exact ⟨hrespelt _ _ _ _ (hload _) hspelt,
    ((hreads _ _ _ (hload _)).bad 255 1).2 ⟨by decide, hbad⟩,
    (hreads _ _ _ (hload _)).odd.2 (by decide), hpiped _ _ _ rfl rfl, _, Prod.ext hmade rfl,
    hfile _ _ _ _ (Prod.ext hmade rfl) (by decide +kernel) _ rfl⟩

end CommandLine

end HotspotBackup
