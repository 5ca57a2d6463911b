import HotspotBackup.Proofs.LegacyReading
import HotspotBackup.Proofs.Restoring

/-!
# Accepted payloads are prefix-free

No beginning of a payload that is accepted is accepted, and nothing that goes
on behind it (`SelfDelimiting`): the first is truncated, the second has
trailing octets, and the device is not asked. `selfDelimiting_of_accepted`
has this of tagged backups and of bare legacy records; it is carried over
from the readers by `selfDelimiting_of_recognizes`, since every other stage
comes after them.
-/

namespace HotspotBackup.Backup

open Wire Reader HotspotBackup.Field

/-- An entry point refuses octets as malformed, for a reason that does not
depend on the device, which it does not ask. -/
def Refuses (entry : Bytes → Asking Configuration) (b : Bytes) (reason : String) : Prop :=
  ∃ cause, cause.message = reason ∧ ∀ q, entry b q = (.error (.malformed cause), 0)

/-- An entry point takes notice of every cut of some octets, and of everything
behind them. -/
structure SelfDelimiting (entry : Bytes → Asking Configuration) (b : Bytes) : Prop where
  cut : ∀ s, s <+: b → s ≠ b → ∃ (field : String) (need remain : Nat), remain < need ∧
    Refuses entry s s!"truncated at {field}: need {need} bytes, {remain} remain"
  extended : ∀ x, x ≠ [] → Refuses entry (b ++ x) s!"{x.length} unexpected trailing bytes"

/-- What is accepted is self-delimiting if it is first read as a whole. -/
theorem selfDelimiting_of_recognizes {r : Reader α} {E : α → Bytes → Prop} (hr : Recognizes r E)
    {next : α → Asking Configuration} {b : Bytes} {p : Provider} {c : Configuration}
    (h : ((Asking.ofExcept (readWhole r b) >>= next) p).1 = .ok c) :
    SelfDelimiting (fun b => Asking.ofExcept (readWhole r b) >>= next) b := by
  have hrefused : ∀ s e, readWhole r s = .error e →
      ∀ q, (Asking.ofExcept (readWhole r s) >>= next) q = (.error e, 0) := by
    intro s e hs q
    rw [hs]
    exact Asking.bind_of_error rfl
  cases hw : readWhole r b with
  | error e =>
    rw [hrefused b e hw] at h
    cases h
  | ok a =>
    have ha := (readWhole_eq_ok_iff hr).1 hw
    refine ⟨fun s hs hne => ?_, fun x hx => ?_⟩
    · obtain ⟨field, need, remain, ht, hlt⟩ := readWhole_cut hr ha hs hne
      exact ⟨field, need, remain, hlt, _, rfl, hrefused s _ ht⟩
    · exact ⟨_, rfl, hrefused _ _ (readWhole_extended hr ha hx)⟩

theorem selfDelimiting_decodeLayout {l : Layout} {b : Bytes} {p : Provider} {c : Configuration}
    (h : (decodeLayout l b p).1 = .ok c) : SelfDelimiting (decodeLayout l) b :=
  selfDelimiting_of_recognizes (recognizes_readAll l l.nodup_fields {}) h

theorem selfDelimiting_decodeLegacy {b : Bytes} {p : Provider} {c : Configuration}
    (h : (decodeLegacy b p).1 = .ok c) : SelfDelimiting decodeLegacy b :=
  selfDelimiting_of_recognizes LegacyRecord.recognizes_read h

theorem selfDelimiting_decodeBody {f : Format} {b : Bytes} {p : Provider} {c : Configuration}
    (h : (decodeBody f b p).1 = .ok c) : SelfDelimiting (decodeBody f) b := by
  cases f with
  | legacy => exact selfDelimiting_decodeLegacy h
  | layout l => exact selfDelimiting_decodeLayout h

/-- A tag in front of self-delimiting octets: a cut is in the tag or behind it. -/
theorem SelfDelimiting.tagged {f : Format} {b : Bytes} (h : SelfDelimiting (decodeBody f) b) :
    SelfDelimiting decode (Bytes.ofNat 4 f.number ++ b) where
  cut s hs hne := by
    rcases prefix_append_cases hs hne with ⟨hs, hne⟩ | ⟨s, rfl, hs, hne⟩
    · obtain ⟨field, need, remain, ht, hlt⟩ := readFormat_cut hs hne
      exact ⟨field, need, remain, hlt, _, rfl, decode_of_error ht⟩
    · obtain ⟨field, need, remain, hlt, cause, hm, hc⟩ := h.cut s hs hne
      refine ⟨field, need, remain, hlt, cause, hm, fun q => ?_⟩
      rw [decode_of_format (readFormat_tag f s), hc q]
  extended x hx := by
    obtain ⟨cause, hm, hc⟩ := h.extended x hx
    refine ⟨cause, hm, fun q => ?_⟩
    rw [List.append_assoc, decode_of_format (readFormat_tag f (b ++ x)), hc q]

/-- What is accepted with some answer of the device is self-delimiting with
any, for tagged backups and for bare legacy records. -/
theorem selfDelimiting_of_accepted {entry : Bytes → Asking Configuration}
    (he : entry = decode ∨ entry = decodeLegacy) {b : Bytes} {p : Provider} {c : Configuration}
    (h : (entry b p).1 = .ok c) : SelfDelimiting entry b := by
  rcases he with rfl | rfl
  · cases hf : readFormat b with
    | error e =>
      rw [decode_of_error hf] at h
      cases h
    | ok v =>
      obtain ⟨f, rest⟩ := v
      rw [decode_of_format hf] at h
      rw [readFormat_eq_ok_iff.1 hf]
      exact (selfDelimiting_decodeBody h).tagged
  · exact selfDelimiting_decodeLegacy h

/-- An open network of an older device. -/
def cafe : LegacyRecord := { ssid := some "cafe", band := 1, channel := 36 }

/-- What `cafe` restores to. -/
def cafeRestored : Configuration where
  draft := { ssid := some "cafe", band := .ghz5, channel := 36 }
  accepted := by decide

theorem selfDelimiting_cafe :
    ((decodeLegacy cafe.write (.ok true)).1 = .ok cafeRestored ∧
      SelfDelimiting decodeLegacy cafe.write) ∧
    (decode (encode .v9 cafeRestored) (.ok true)).1 = .ok cafeRestored ∧
      SelfDelimiting decode (encode .v9 cafeRestored) := by
  have hl : (decodeLegacy cafe.write (.ok true)).1 = .ok cafeRestored := rfl
  have ht : (decode (encode .v9 cafeRestored) (.ok true)).1 = .ok cafeRestored := rfl
  exact ⟨⟨hl, selfDelimiting_of_accepted (.inr rfl) hl⟩, ht,
    selfDelimiting_of_accepted (.inl rfl) ht⟩

end HotspotBackup.Backup
