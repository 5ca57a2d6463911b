import HotspotBackup.Json.Quoted
import HotspotBackup.Proofs.AddressOctets
import HotspotBackup.Proofs.Utf8

/-!
# Quoted text of JSON is read back

What stands between the quotation marks of a text that was quoted spells that
text (`decode?_content`): escapes are undone, and other characters stand for
themselves, octet by octet.

* `mem_encodeChar`: the octets of a character are its own number or beyond
  ASCII, so that none of them is taken for a mark.
* `escape_cases`: the three kinds of what is written for a character.
-/

namespace HotspotBackup

namespace Utf8

/-- An octet of a character is the number of the character or beyond ASCII. -/
theorem mem_encodeChar {c : Char} {octet : UInt8} (h : octet ∈ encodeChar c) :
    octet.toNat = c.toNat ∨ 128 ≤ octet.toNat := by
  have hv := toNat_valid c
  unfold encodeChar at h
  generalize c.toNat = n at hv h
  dsimp only at h
  split at h
  · simp only [List.mem_singleton] at h
    subst h
    rw [UInt8.toNat_ofNat']
    omega
  split at h
  · simp only [List.mem_cons, List.not_mem_nil, or_false] at h
    rcases h with rfl | rfl <;> rw [UInt8.toNat_ofNat'] <;> omega
  split at h
  · simp only [List.mem_cons, List.not_mem_nil, or_false] at h
    rcases h with rfl | rfl | rfl <;> rw [UInt8.toNat_ofNat'] <;> omega
  · simp only [List.mem_cons, List.not_mem_nil, or_false] at h
    rcases h with rfl | rfl | rfl | rfl <;> rw [UInt8.toNat_ofNat'] <;> omega

/-- The octets of some characters. -/
def octets (cs : List Char) : Bytes :=
  cs.flatMap encodeChar

theorem encode_ofList (cs : List Char) : encode (String.ofList cs) = octets cs := by
  rw [encode, octets, String.toList_ofList]

theorem octets_append (cs ds : List Char) : octets (cs ++ ds) = octets cs ++ octets ds :=
  List.flatMap_append

theorem octets_cons (c : Char) (cs : List Char) : octets (c :: cs) = encodeChar c ++ octets cs :=
  List.flatMap_cons

end Utf8

namespace Json.Quoted

open Utf8 (octets)

/-- What stands between the quotation marks of some characters. -/
def content (cs : List Char) : List Char :=
  cs.flatMap encodeChar

/-! ## Kinds of escapes -/

/-- The octets of a control character that is written with four digits. -/
theorem control_digits : ∀ n < 32, ∃ x y,
    octets (['\\', 'u', '0', '0'] ++ Digits.hexPair (UInt8.ofNat n)) = [92, 117, 48, 48, x, y] ∧
      codeUnit? 48 48 x y = some n ∧ (Digits.hexValue? (Char.ofNat x.toNat)).isSome = true ∧
        (Digits.hexValue? (Char.ofNat y.toNat)).isSome = true := by
  intro n hn
  refine ⟨Utf8.asciiOctet (Digits.hexDigit (n / 16)),
    Utf8.asciiOctet (Digits.hexDigit (n % 16)), ?_⟩
  revert n
  decide +kernel

/-- The characters that have escapes of their own. -/
def lettered : List Char :=
  ['"', '\\', '\x08', '\x0c', '\n', '\r', '\t']

theorem encodeChar_of_lettered {c : Char} (h : c ∈ lettered) : ∃ letter value,
    octets (encodeChar c) = [92, letter] ∧ escaped? letter = some value ∧
      Utf8.encodeChar c = [value] := by
  simp only [lettered, List.mem_cons, List.not_mem_nil, or_false] at h
  rcases h with rfl | rfl | rfl | rfl | rfl | rfl | rfl
  · exact ⟨34, 34, rfl, rfl, rfl⟩
  · exact ⟨92, 92, rfl, rfl, rfl⟩
  · exact ⟨98, 8, rfl, rfl, rfl⟩
  · exact ⟨102, 12, rfl, rfl, rfl⟩
  · exact ⟨110, 10, rfl, rfl, rfl⟩
  · exact ⟨114, 13, rfl, rfl, rfl⟩
  · exact ⟨116, 9, rfl, rfl, rfl⟩

theorem encodeChar_of_unlettered {c : Char} (h : c ∉ lettered) : encodeChar c =
    if c.toNat < 32 then ['\\', 'u', '0', '0'] ++ Digits.hexPair (UInt8.ofNat c.toNat)
    else [c] := by
  simp only [lettered, List.mem_cons, List.not_mem_nil, or_false, not_or] at h
  simp only [encodeChar, h, ↓reduceIte]

/-- What is written for a character: a letter after a backslash, four digits
after a backslash and a `u`, or the character itself. -/
theorem escape_cases (c : Char) :
    (∃ letter value, octets (encodeChar c) = [92, letter] ∧ escaped? letter = some value ∧
        Utf8.encodeChar c = [value]) ∨
      (c.toNat < 32 ∧ ∃ x y, octets (encodeChar c) = [92, 117, 48, 48, x, y] ∧
        codeUnit? 48 48 x y = some c.toNat ∧
          (Digits.hexValue? (Char.ofNat x.toNat)).isSome = true ∧
            (Digits.hexValue? (Char.ofNat y.toNat)).isSome = true) ∨
      (encodeChar c = [c] ∧ c.toNat ≠ 34 ∧ c.toNat ≠ 92 ∧ 32 ≤ c.toNat) := by
  by_cases hletter : c ∈ lettered
  · exact .inl (encodeChar_of_lettered hletter)
  rw [encodeChar_of_unlettered hletter]
  by_cases hcontrol : c.toNat < 32
  · rw [if_pos hcontrol]
    exact .inr (.inl ⟨hcontrol, control_digits c.toNat hcontrol⟩)
  · have hnumber : ∀ d ∈ lettered, c.toNat ≠ d.toNat := by
      intro d hd h
      exact hletter (Char.toNat_inj.1 h ▸ hd)
    rw [if_neg hcontrol]
    exact .inr (.inr ⟨rfl, hnumber '"' (by decide), hnumber '\\' (by decide),
      Nat.not_lt.1 hcontrol⟩)

/-! ## Escapes are undone -/

variable {rest text : Bytes}

theorem unescape?_letter (h : unescape? rest = some text) {letter value : UInt8}
    (hv : escaped? letter = some value) :
    unescape? (92 :: letter :: rest) = some (value :: text) := by
  have hu : letter ≠ 117 := by
    rintro rfl
    cases hv
  rw [unescape?]
  · simp [hv, h]
  · simp [hu]

theorem unescape?_unit (h : unescape? rest = some text) {a b x y : UInt8} {unit : Nat}
    (hu : codeUnit? a b x y = some unit) (hl : unit < 32) :
    unescape? (92 :: 117 :: a :: b :: x :: y :: rest) =
      some (Utf8.encodeChar (Char.ofNat unit) ++ text) := by
  have htrailing : isTrailing unit = false := by
    simp only [isTrailing, Bool.and_eq_false_iff, decide_eq_false_iff_not]
    omega
  have hleading : isLeading unit = false := by
    simp only [isLeading, Bool.and_eq_false_iff, decide_eq_false_iff_not]
    omega
  rw [unescape?]
  simp [hu, htrailing, hleading, h]

/-- Octets without a backslash stand for themselves. -/
theorem unescape?_plain (h : unescape? rest = some text) {b : Bytes} (hb : 92 ∉ b) :
    unescape? (b ++ rest) = some (b ++ text) := by
  induction b with
  | nil => exact h
  | cons octet b ih =>
    rw [List.mem_cons, not_or] at hb
    have hne : octet ≠ 92 := Ne.symm hb.1
    rw [List.cons_append, unescape?]
    · simp [ih hb.2]
    all_goals simp [hne]

/-- What is written for a character stands for it. -/
theorem unescape?_encodeChar (h : unescape? rest = some text) (c : Char) :
    unescape? (octets (encodeChar c) ++ rest) = some (Utf8.encodeChar c ++ text) := by
  rcases escape_cases c with ⟨letter, value, hc, hv, hone⟩ | ⟨hlt, x, y, hc, hu, -⟩ |
    ⟨hc, -, hslash, -⟩
  · rw [hc, hone]
    exact unescape?_letter h hv
  · rw [hc]
    have hunit := unescape?_unit h hu hlt
    rwa [Char.ofNat_toNat] at hunit
  · rw [hc]
    have honly : octets [c] = Utf8.encodeChar c := List.append_nil _
    rw [honly]
    refine unescape?_plain h fun hmem => ?_
    rcases Utf8.mem_encodeChar hmem with hn | hn
    · exact hslash hn.symm
    · exact absurd hn (by decide)

/-- By induction on the text. -/
theorem unescape?_content (cs : List Char) :
    unescape? (octets (content cs)) = some (octets cs) := by
  induction cs with
  | nil => exact unescape?_nil
  | cons c cs ih =>
    rw [content, List.flatMap_cons, Utf8.octets_append, Utf8.octets_cons]
    exact unescape?_encodeChar ih c

/-- What stands between the marks spells the text. -/
theorem decode?_content (s : String) : decode? (octets (content s.toList)) = some s := by
  rw [decode?, unescape?_content]
  exact Utf8.decode?_encode s

end Json.Quoted

end HotspotBackup
