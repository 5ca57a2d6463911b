import HotspotBackup.Proofs.Cursors
import HotspotBackup.Proofs.FieldWriting

/-!
# Counts in front of elements

A count is made with 64-bit words: the length in front is widened to one, the size
of an element is multiplied with it, and the product compared with the number of
octets that are left (`Machine.count`). On octets in memory, whose number is such a
word, this is `Reader.count`, which reckons with numbers of any size
(`Machine.count_eq`): no product is too large for a word and still passes.

`counts_exactly` says when a count is found and when it is said to overflow, and
what follows for the loops over what was counted and for the values they make.
-/

namespace HotspotBackup.Wire

open Reader

/-! ## Counting with words -/

section

variable {r : Reader α} {next next' : α → Reader β} {b : Bytes}

/-- Readers that go on alike from what is read are alike. -/
theorem Reader.bind_congr (h : ∀ a rest, r b = (.ok a, rest) → next a rest = next' a rest) :
    (r >>= next) b = (r >>= next') b := by
  rcases hr : r b with ⟨answer, rest⟩
  cases answer with
  | ok a => rw [bind_ok hr, bind_ok hr, h a rest hr]
  | error cause => rw [bind_error hr, bind_error hr]

theorem Reader.map_run (f : α → β) (r : Reader α) (b : Bytes) :
    (f <$> r) b = match r b with
      | (.ok a, rest) => (.ok (f a), rest)
      | (.error cause, rest) => (.error cause, rest) := rfl

theorem Reader.map_bind_run (f : β → γ) (r : Reader α) (next : α → Reader β) (b : Bytes) :
    (f <$> (r >>= next)) b = (r >>= fun a => f <$> next a) b := by
  rcases hr : r b with ⟨answer, rest⟩
  cases answer with
  | ok a => rw [map_run, bind_ok hr, bind_ok hr, map_run]
  | error cause => rw [map_run, bind_error hr, bind_error hr]

end

namespace Machine

/-- The product of two words, if it is a word. -/
def product? (m n : UInt64) : Option UInt64 :=
  if m.toBitVec.umulOverflow n.toBitVec then none else some (m * n)

/-- A check that `need` octets are left. -/
def ensure (field : String) (need : UInt64) : Reader Unit := fun b =>
  if UInt64.ofNat b.length < need then
    (.error (.truncated field need.toNat (UInt64.ofNat b.length).toNat), b)
  else (.ok (), b)

/-- A count of elements of `size` octets each, all of which must follow. -/
def count (field : String) (size : UInt64) : Reader UInt64 := do
  let value ← Reader.i32 field
  if value < 0 then Reader.fail (.negativeLength field value.toInt)
  else match product? value.toInt64.toUInt64 size with
    | none => Reader.fail (.lengthOverflow field value.toInt64.toUInt64.toNat)
    | some need => do
      ensure field need
      return value.toInt64.toUInt64

theorem map_product? (m n : UInt64) : (product? m n).map UInt64.toNat =
    if addressable ≤ m.toNat * n.toNat then none else some (m.toNat * n.toNat) := by
  have hover : m.toBitVec.umulOverflow n.toBitVec = true ↔ addressable ≤ m.toNat * n.toNat := by
    rw [BitVec.umulOverflow, decide_eq_true_iff]
    rfl
  unfold product?
  by_cases h : addressable ≤ m.toNat * n.toNat
  · rw [if_pos (hover.2 h), if_pos h]
    rfl
  · have hlt : m.toNat * n.toNat < 2 ^ 64 := Nat.not_le.1 h
    rw [if_neg (mt hover.1 h), if_neg h, Option.map_some, UInt64.toNat_mul, Nat.mod_eq_of_lt hlt]

/-- Widening keeps a number that is not negative. -/
theorem toNat_widened {v : Int32} (h : ¬ v < 0) : v.toInt64.toUInt64.toNat = v.toInt.toNat := by
  have hle : 0 ≤ v.toInt64 := by
    rw [Int64.le_iff_toInt_le, Int32.toInt_toInt64]
    exact Int32.le_iff_toInt_le.1 (Int32.not_lt.1 h)
  rw [Int64.toNat_toUInt64_of_le hle, Int64.toNatClampNeg, Int32.toInt_toInt64]

theorem ensure_eq (field : String) (need : UInt64) {b : Bytes} (hb : b.length < addressable) :
    ensure field need b = Reader.ensure field need.toNat b := by
  simp only [ensure, Reader.ensure, UInt64.lt_iff_toNat_lt, UInt64.toNat_ofNat_of_lt' hb]

/-- Words count as numbers do, on octets whose number is a word. -/
theorem count_eq (field : String) (size : UInt64) {b : Bytes} (hb : b.length < addressable) :
    (UInt64.toNat <$> count field size) b = Reader.count field size.toNat b := by
  rw [count, map_bind_run, Reader.count]
  refine bind_congr fun v rest h => ?_
  obtain ⟨e, -, rfl⟩ := (recognizes_i32 field).sound h
  have hrest : rest.length < addressable := by
    rw [List.length_append] at hb
    omega
  by_cases hv : v < 0
  · rw [if_pos hv, if_pos hv]
    rfl
  rw [if_neg hv, if_neg hv, ← toNat_widened hv]
  -- The words overflow exactly where the numbers reach `addressable`.
  have hproduct := map_product? v.toInt64.toUInt64 size
  by_cases hover : addressable ≤ v.toInt64.toUInt64.toNat * size.toNat
  · rw [if_pos hover] at hproduct ⊢
    rw [Option.map_eq_none_iff.1 hproduct]
    rfl
  · rw [if_neg hover] at hproduct ⊢
    obtain ⟨need, hneed, htoNat⟩ := Option.map_eq_some_iff.1 hproduct
    rw [hneed, ← htoNat, bind_run, ← ensure_eq field need hrest]
    exact map_bind_run ..

end Machine

/-! ## Counts that are found -/

theorem count_eq_ok_iff (field : String) {size n : Nat} {b : Bytes}
    (hb : b.length < addressable) : (count field size b).1 = .ok n ↔
      ∃ rest, b = Bytes.ofNat 4 n ++ rest ∧ n ≤ maxStoredNumber ∧ n * size ≤ rest.length := by
  refine ⟨fun h => ?_, fun h => ?_⟩
  · have hcount : count field size b = (.ok n, (count field size b).2) := Prod.ext h rfl
    obtain ⟨hn, -, hle, hword⟩ := exists_of_count_eq_ok hcount
    exact ⟨_, hword, hn, hle⟩
  · obtain ⟨rest, rfl, hn, hle⟩ := h
    have hs : n * size < addressable := by
      rw [List.length_append] at hb
      omega
    rw [count_word field hn hs, if_neg (Nat.not_lt.2 hle)]

/-! ## Values that were counted -/

/-- A reader makes values of counted elements, of `width` octets each: none has more
elements than a signed word counts, and for each as many octets are read. -/
def Reader.Counts (r : Reader α) (width : Nat) (elements : α → Nat) : Prop :=
  ∀ b a rest, r b = (.ok a, rest) →
    elements a ≤ maxStoredNumber ∧ b.length = 4 + width * elements a + rest.length

/-- The number of octets of a text, of which an absent one has none. -/
def textSize : Option String → Nat
  | none => 0
  | some s => Utf8.size s

variable (field : String)

theorem counts_text? : (Reader.text? field).Counts 1 textSize := by
  intro b s rest h
  obtain ⟨e, he, rfl⟩ := (recognizes_text? field).sound h
  cases s with
  | none =>
    rw [SpellsText] at he
    subst he
    exact ⟨Nat.zero_le _, List.length_append⟩
  | some s =>
    have hsize := size_le_of_spellsText he rfl
    obtain ⟨n, raw, -, rfl, hraw, rfl⟩ := he
    refine ⟨hsize, ?_⟩
    rw [textSize, Utf8.size, hraw, List.length_append, List.length_append, Bytes.length_ofNat,
      Nat.one_mul]

theorem counts_addresses : (Reader.addresses field).Counts 6 List.length := by
  intro b macs rest h
  obtain ⟨e, ⟨hle, rfl⟩, rfl⟩ := (recognizes_addresses field).sound h
  refine ⟨hle, ?_⟩
  rw [List.length_append, List.length_append, Bytes.length_ofNat, length_flatMap_octets,
    Nat.mul_comm]

theorem counts_readChannels :
    (Field.readChannels field).Counts 8 fun m => m.entries.length := by
  intro b m rest h
  obtain ⟨e, ⟨entries, hle, -, -, hperm, rfl⟩, rfl⟩ :=
    (Field.recognizes_readChannels field).sound h
  show m.entries.length ≤ _ ∧ _ = 4 + 8 * m.entries.length + _
  rw [← hperm.length_eq]
  refine ⟨hle, ?_⟩
  rw [List.length_append, List.length_append, Bytes.length_ofNat,
    Field.length_flatMap_entryOctets, Nat.mul_comm]

/-- On octets in memory a count is found exactly if a length that is not negative
stands in front and as many octets follow as that many elements have, their product
being one of numbers; where it is no 64-bit word, the count is said to overflow, and
nothing else. This is what counting with 64-bit words comes to. So a loop over
addresses makes no more passes than there are times six octets, and one over channels
no more than times eight, without looking beyond the octets or setting aside memory
for more than are left; and no text, list or map is read that has more elements than a
signed word counts. -/
theorem counts_exactly {b : Bytes} (hb : b.length < addressable) :
    (∀ size n, (count field size b).1 = .ok n ↔
        ∃ rest, b = Bytes.ofNat 4 n ++ rest ∧ n ≤ maxStoredNumber ∧ n * size ≤ rest.length) ∧
      (∀ size n rest, b = Bytes.ofNat 4 n ++ rest → n ≤ maxStoredNumber →
        addressable ≤ n * size → count field size b = (.error (.lengthOverflow field n), rest)) ∧
      (∀ size : UInt64,
        (UInt64.toNat <$> Machine.count field size) b = count field size.toNat b) ∧
      (Cursor.addresses field b).Reaches (Reader.addresses field b) (b.length / 6) ∧
      (Field.cursorChannels field b).Reaches (Field.readChannels field b) (b.length / 8) ∧
      (Reader.text? field).Counts 1 textSize ∧
      (Reader.addresses field).Counts 6 List.length ∧
      (Field.readChannels field).Counts 8 fun m => m.entries.length := by
  refine ⟨fun size n => count_eq_ok_iff field hb, fun size n rest h hn hover => ?_,
    fun size => Machine.count_eq field size hb, Cursor.reaches_addresses field b,
    Field.reaches_cursorChannels field b, counts_text? field, counts_addresses field,
    counts_readChannels field⟩
  rw [h, count_number field hn, if_pos hover]

/-- A count and a size whose product is zero as a word. -/
theorem counts_exactly_wrapping :
    [64, 0, 0, 0].length < addressable ∧ (1073741824 : UInt64) * 17179869184 = 0 ∧
      (UInt64.toNat <$> Machine.count "d" 17179869184) [64, 0, 0, 0] =
        (.error (.lengthOverflow "d" 1073741824), []) ∧
      (count "d" 0 [64, 0, 0, 0]).1 = .ok 1073741824 ∧
      (Cursor.addresses "d" [64, 0, 0, 0]).passes = 0 := by
  have hlength : [64, 0, 0, 0].length < addressable := by decide
  obtain ⟨hfound, hover, hwords, hloop, -⟩ :=
    counts_exactly "d" (b := [64, 0, 0, 0]) hlength
  refine ⟨hlength, by decide, ?_, ?_, Nat.le_zero.1 hloop.passes⟩
  · rw [hwords]
    exact hover _ 1073741824 [] (by decide) (by decide) (by decide)
  · exact (hfound 0 1073741824).2 ⟨[], by decide, by decide, by decide⟩

end HotspotBackup.Wire
