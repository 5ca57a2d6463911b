import HotspotBackup.Proofs.CanonicalFields
import HotspotBackup.Proofs.RoundTrip

/-!
# Backing up what was restored

`Layout.canonicalForm` brings the octets of a backup into the one form that is
written, field by field and without reading a value.

* `encodeAs_of_decode`: a configuration that was restored is written as the
  canonical form of the backup it came from, so that two backups restore to
  one configuration exactly if their canonical forms are one.
* `canonicalForm_canonicalForm`: the canonical form is its own.
-/

namespace HotspotBackup

namespace Field

/-- The canonical forms of some fields, one after another. -/
def canonicalAll (l : Layout) : List Field → Bytes → Bytes
  | [], b => b
  | f :: rest, b =>
    f.canonical (b.take (f.extent l b)) ++ canonicalAll l rest (b.drop (f.extent l b))

/-- What is written of a draft is the canonical form of each of its encodings. -/
theorem writeAll_of_spells {l : Layout} {fields : List Field} (hn : fields.Nodup) {d : Draft}
    {e : Bytes} (h : SpellsAll l fields d e) : writeAll l d fields = canonicalAll l fields e := by
  induction fields generalizing e with
  | nil => rw [spellsAll_nil.1 h]; rfl
  | cons f fields ih =>
    obtain ⟨hf, hn⟩ := List.nodup_cons.1 hn
    obtain ⟨e₁, e₂, h₁, h₂, rfl⟩ := (spellsAll_cons hf).1 h
    rw [canonicalAll, extent_of_spells h₁, List.take_left, List.drop_left, writeAll_cons,
      write_of_spells h₁, ih hn h₂]

end Field

/-- The canonical form of a backup in a layout: its tag, and then each field
that the layout carries in its canonical form. -/
def Layout.canonicalForm (l : Layout) (b : Bytes) : Bytes :=
  b.take 4 ++ Field.canonicalAll l l.fields (b.drop 4)

namespace Backup

open HotspotBackup.Field

/-! ## What was restored -/

theorem encode_of_decodeLayout {l : Layout} {e : Bytes} {p : Provider} {c : Configuration}
    (h : (decodeLayout l e p).1 = .ok c) :
    encode l c = l.canonicalForm (Bytes.ofNat 4 l.number ++ e) := by
  have hs := (decodeLayout_eq_ok_iff.1 h).1
  rw [Layout.canonicalForm, Wire.take_word, Wire.drop_word, encode, i32_tag,
    writeAll_of_spells l.nodup_fields hs]
  rfl

/-- A restored configuration has lost already what a backup loses. -/
theorem reduce_of_decodeLayout {l : Layout} {e : Bytes} {p : Provider} {c : Configuration}
    (h : (decodeLayout l e p).1 = .ok c) {answer : Bool}
    (ha : l = .v5 → answer = c.draft.autoShutdownEnabled) : c.reduce l answer = c := by
  obtain ⟨⟨part, hp, -⟩, hf⟩ := decodeLayout_eq_ok_iff.1 h
  refine Configuration.ext_draft (ext_get fun f => ?_)
  show get (c.draft.reduce l answer) f = get c.draft f
  by_cases hm : f ∈ l.fields
  · rw [get_reduce_of_mem hm, kept_of_spells (hp f hm)]
  have habs := Layout.mem_absentFields.2 hm
  rw [get_reduce_of_absent habs]
  by_cases hfa : f = .autoShutdownEnabled
  · subst hfa
    exact ha (Layout.autoShutdownEnabled_mem_absentFields.1 habs)
  · rw [hf.default f habs hfa]
    exact get_set_ne {} (f := autoShutdownEnabled) answer hfa

theorem restored_of_decodeLayout {l : Layout} {e : Bytes} {p : Provider} {c : Configuration}
    (h : (decodeLayout l e p).1 = .ok c) : restored l p c = .ok c := by
  unfold restored
  by_cases hl : l = .v5
  · rw [if_pos hl, (decodeLayout_eq_ok_iff.1 h).2.asked hl]
    exact congrArg Except.ok (reduce_of_decodeLayout h fun _ => rfl)
  · rw [if_neg hl]
    exact congrArg Except.ok (reduce_of_decodeLayout h fun hv => absurd hv hl)

theorem decode_encode_of_decodeLayout {l : Layout} {e : Bytes} {p : Provider} {c : Configuration}
    (h : (decodeLayout l e p).1 = .ok c) : (decode (encode l c) p).1 = .ok c := by
  rw [decode_encode (fits_of_decodeLayout h), restored_of_decodeLayout h]

/-! ## Canonical forms -/

theorem exists_of_decode {l : Layout} {b : Bytes} {p : Provider} {c : Configuration}
    (h : (decode b p).1 = .ok c) (ht : peekFormat b = .ok (.layout l)) :
    ∃ e, b = Bytes.ofNat 4 l.number ++ e ∧ (decodeLayout l e p).1 = .ok c := by
  obtain ⟨e, he⟩ := peekFormat_eq_ok_iff.1 ht
  have hb := readFormat_eq_ok_iff.1 he
  rw [decode_of_layout he] at h
  exact ⟨e, hb, h⟩

theorem encode_of_decode {l : Layout} {b : Bytes} {p : Provider} {c : Configuration}
    (h : (decode b p).1 = .ok c) (ht : peekFormat b = .ok (.layout l)) :
    encode l c = l.canonicalForm b := by
  obtain ⟨e, rfl, hc⟩ := exists_of_decode h ht
  exact encode_of_decodeLayout hc

/-- The canonical form of a backup that is restored is its own. -/
theorem canonicalForm_canonicalForm {l : Layout} {b : Bytes} {p : Provider} {c : Configuration}
    (h : (decode b p).1 = .ok c) (ht : peekFormat b = .ok (.layout l)) :
    l.canonicalForm (l.canonicalForm b) = l.canonicalForm b := by
  obtain ⟨e, -, hc⟩ := exists_of_decode h ht
  have hpeek : peekFormat (encode l c) = .ok (.layout l) :=
    peekFormat_eq_ok_iff.2 ⟨_, readFormat_encode l c⟩
  rw [← encode_of_decode h ht]
  exact (encode_of_decode (decode_encode_of_decodeLayout hc) hpeek).symm

/-- A restored configuration is written as the canonical form of its backup,
which is the backup itself exactly if that is canonical. Two backups with one
tag restore to one configuration exactly if they have one canonical form. -/
theorem encodeAs_of_decode {l : Layout} {b : Bytes} {p : Provider} {c : Configuration}
    (h : (decode b p).1 = .ok c) (ht : peekFormat b = .ok (.layout l)) :
    encodeAs (.layout l) c = .ok (l.canonicalForm b) ∧
      (encodeAs (.layout l) c = .ok b ↔ l.canonicalForm b = b) ∧
      ∀ b' c', (decode b' p).1 = .ok c' → peekFormat b' = .ok (.layout l) →
        (c = c' ↔ l.canonicalForm b = l.canonicalForm b') := by
  have he := encode_of_decode h ht
  refine ⟨congrArg Except.ok he, ?_, fun b' c' h' ht' => ?_⟩
  · show Except.ok (encode l c) = .ok b ↔ _
    rw [← he, Except.ok.injEq]
  · obtain ⟨_, -, hc⟩ := exists_of_decode h ht
    obtain ⟨_, -, hc'⟩ := exists_of_decode h' ht'
    rw [← he, ← encode_of_decode h' ht']
    refine ⟨fun heq => ?_, fun heq => ?_⟩
    · rw [heq]
    · have hd := decode_encode_of_decodeLayout hc
      rw [heq, decode_encode_of_decodeLayout hc'] at hd
      exact (Except.ok.inj hd).symm

/-- A backup whose address is upper-case and bare, whose flags are any octets
but zero, and whose channels stand in descending order. -/
def untidy : Bytes :=
  [0, 0, 0, 9] ++ [255, 255, 255, 255] ++
    ([0, 0, 0, 12] ++ [48, 65, 49, 66, 50, 67, 51, 68, 52, 69, 53, 70]) ++
    [0, 0, 0, 1] ++ [0, 0, 0, 0] ++ [255, 255, 255, 255] ++ [0, 0, 0, 0] ++ [7] ++ [0, 0, 0, 0] ++
    [0, 0, 0, 0, 0, 0, 0, 0] ++ [0] ++ [0, 0, 0, 0] ++ [0, 0, 0, 0] ++ [255] ++ [2] ++
    [0, 0, 0, 0] ++ ([0, 0, 0, 2] ++ [0, 0, 0, 2, 0, 0, 0, 36] ++ [0, 0, 0, 1, 0, 0, 0, 6]) ++ [1]

/-- The canonical form of `untidy`. -/
def tidy : Bytes :=
  [0, 0, 0, 9] ++ [255, 255, 255, 255] ++
    ([0, 0, 0, 17] ++ [48, 97, 58, 49, 98, 58, 50, 99, 58, 51, 100, 58, 52, 101, 58, 53, 102]) ++
    [0, 0, 0, 1] ++ [0, 0, 0, 0] ++ [255, 255, 255, 255] ++ [0, 0, 0, 0] ++ [1] ++ [0, 0, 0, 0] ++
    [0, 0, 0, 0, 0, 0, 0, 0] ++ [0] ++ [0, 0, 0, 0] ++ [0, 0, 0, 0] ++ [1] ++ [1] ++ [0, 0, 0, 0] ++
    ([0, 0, 0, 2] ++ [0, 0, 0, 1, 0, 0, 0, 6] ++ [0, 0, 0, 2, 0, 0, 0, 36]) ++ [1]

/-- What `untidy` and `tidy` restore to. -/
def tidied : Configuration where
  draft :=
    { bssid := some ⟨10, 27, 44, 61, 78, 95⟩
      hiddenSsid := true
      channels := (ChannelMap.insert .ghz5 36 ∅).insert .ghz2 6 }
  accepted := by decide

theorem canonicalForm_untidy :
    ((decode untidy (.ok true)).1 = .ok tidied ∧ peekFormat untidy = .ok (.layout .v9)) ∧
      ((decode tidy (.ok true)).1 = .ok tidied ∧ peekFormat tidy = .ok (.layout .v9)) ∧
      Layout.canonicalForm .v9 untidy = tidy ∧ Layout.canonicalForm .v9 tidy = tidy := by
  have hu : (decode untidy (.ok true)).1 = .ok tidied := rfl
  have htu : peekFormat untidy = .ok (.layout .v9) := rfl
  have ht : (decode tidy (.ok true)).1 = .ok tidied := rfl
  have htt : peekFormat tidy = .ok (.layout .v9) := rfl
  have he : encode .v9 tidied = tidy := by decide
  obtain ⟨hform, -, hsame⟩ := encodeAs_of_decode hu htu
  have hcanon : Layout.canonicalForm .v9 untidy = tidy := (Except.ok.inj hform).symm.trans he
  have hboth : Layout.canonicalForm .v9 untidy = Layout.canonicalForm .v9 tidy :=
    (hsame tidy tidied ht htt).1 rfl
  exact ⟨⟨hu, htu⟩, ⟨ht, htt⟩, hcanon, hboth.symm.trans hcanon⟩

end Backup

end HotspotBackup
