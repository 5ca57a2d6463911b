import HotspotBackup.Proofs.CanonicalFields
import HotspotBackup.Proofs.LegacyRestoring

/-!
# Legacy records, tagged and bare

The record of an older device is read off what is written for it, and what is
written for a record that was read is what stood there, its flag apart: that is
any octet on the way in, and zero or one on the way out.

* `read_write` and `write_of_read`: these two directions.
* `decode_tagged`: behind tag 3, any octets restore as they do without it.
* `legacy_record_round_trip`: so the tagged and the bare form of a record
  restore as the record itself does.
-/

namespace HotspotBackup

namespace LegacyRecord

open Wire

/-- The texts of a record are counted by signed words. -/
structure Fits (r : LegacyRecord) : Prop where
  ssid : ∀ name, r.ssid = some name → Utf8.size name ≤ maxStoredNumber
  preSharedKey : ∀ key, r.preSharedKey = some key → Utf8.size key ≤ maxStoredNumber

theorem spells_write {r : LegacyRecord} (h : r.Fits) : r.Spells r.write := by
  refine ⟨_, _, _, spellsText_text? h.ssid, spellsText_text? h.preSharedKey,
    spellsFlag_flag r.hiddenSsid, ?_⟩
  simp only [write, List.append_assoc]
  rfl

/-- What is written of a record that fits is read back, whatever follows it. -/
theorem read_write {r : LegacyRecord} (h : r.Fits) (rest : Bytes) :
    read (r.write ++ rest) = (.ok r, rest) :=
  recognizes_read.complete rest (spells_write h)

/-- Of the encodings of a record, the one that is written differs in the last
octet at most, which is the flag. -/
theorem write_of_spells {r : LegacyRecord} {e : Bytes} (h : r.Spells e) :
    ∃ body hidden, e = body ++ [hidden] ∧ r.write = body ++ [if hidden = 0 then 0 else 1] := by
  obtain ⟨ssid, key, _, hssid, hkey, ⟨hidden, rfl, hflag⟩, rfl⟩ := h
  have hwritten : flag r.hiddenSsid = [if hidden = 0 then 0 else 1] :=
    flag_of_spells ⟨hidden, rfl, hflag⟩
  refine ⟨ssid ++ (i32 r.band ++ (i32 r.channel ++ (key ++ i32 r.authType))), hidden, ?_, ?_⟩
  · simp only [List.append_assoc]
    rfl
  · rw [write, text?_of_spells hssid, text?_of_spells hkey, hwritten]
    simp only [List.append_assoc]

/-- What was read as a record is what is written for it, but for its flag. -/
theorem write_of_read {r : LegacyRecord} {b rest : Bytes} (h : read b = (.ok r, rest)) :
    ∃ body hidden, b = body ++ [hidden] ++ rest ∧
      r.write = body ++ [if hidden = 0 then 0 else 1] := by
  obtain ⟨e, he, rfl⟩ := recognizes_read.sound h
  obtain ⟨body, hidden, rfl, hwrite⟩ := write_of_spells he
  exact ⟨body, hidden, rfl, hwrite⟩

end LegacyRecord

namespace Backup

open Wire

/-- Behind its tag, a legacy record is restored as without it. -/
theorem decode_tagged (b : Bytes) (p : Provider) :
    decode ([0, 0, 0, 3] ++ b) p = decodeLegacy b p :=
  decode_of_format (readFormat_tag .legacy b) p

theorem decodeLegacy_write {r : LegacyRecord} (h : r.Fits) (p : Provider) :
    decodeLegacy r.write p = r.restore p :=
  decodeLegacy_of_spells (LegacyRecord.spells_write h) p

/-- The tagged and the bare form of any octets restore alike, in outcome and in
lookups. A record that fits is read off what is written for it, with what
follows left over, and so both of its forms restore as the record does. And
octets that were read as a record are those that are written for it, but for
the last one, the flag, of which zero or one is written. -/
theorem legacy_record_round_trip :
    (∀ b p, decode ([0, 0, 0, 3] ++ b) p = decodeLegacy b p) ∧
      (∀ r : LegacyRecord, r.Fits →
        (∀ rest, LegacyRecord.read (r.write ++ rest) = (.ok r, rest)) ∧
          ∀ p, decode r.writeTagged p = r.restore p ∧ decodeLegacy r.write p = r.restore p) ∧
      ∀ b r rest, LegacyRecord.read b = (.ok r, rest) →
        ∃ body hidden, b = body ++ [hidden] ++ rest ∧
          r.write = body ++ [if hidden = 0 then 0 else 1] := by
  refine ⟨decode_tagged, fun r hr => ⟨LegacyRecord.read_write hr, fun p => ⟨?_, ?_⟩⟩,
    fun b r rest h => LegacyRecord.write_of_read h⟩
  · exact (decode_tagged r.write p).trans (decodeLegacy_write hr p)
  · exact decodeLegacy_write hr p

/-- The record of an older device with an empty name and with a key that it
does not use. -/
def cellar : LegacyRecord :=
  { ssid := some "", band := -1, channel := 11, preSharedKey := some "κλειδί", authType := 2
    hiddenSsid := true }

/-- What `cellar` restores to where the device shuts down by itself. -/
def cellarRestored : Configuration where
  draft := { ssid := some "", band := Band.ghz2.union .ghz5, channel := 11, hiddenSsid := true }
  accepted := by decide

theorem legacy_record_round_trip_cellar :
    cellar.Fits ∧ decodeLegacy cellar.write (.ok true) = (.ok cellarRestored, 1) ∧
      decode cellar.writeTagged (.ok true) = (.ok cellarRestored, 1) ∧
      LegacyRecord.read (cellar.write.dropLast ++ [7] ++ [1, 2]) = (.ok cellar, [1, 2]) ∧
      ∃ body hidden, cellar.write.dropLast ++ [7] ++ [1, 2] = body ++ [hidden] ++ [1, 2] ∧
        cellar.write = body ++ [if hidden = 0 then 0 else 1] := by
  obtain ⟨-, hwritten, hread⟩ := legacy_record_round_trip
  have hfits : cellar.Fits := by
    refine ⟨fun name hname => ?_, fun key hkey => ?_⟩
    · cases hname
      decide
    · cases hkey
      decide
  have hrestore : cellar.restore (.ok true) = (.ok cellarRestored, 1) := by decide +kernel
  have hseven : LegacyRecord.read (cellar.write.dropLast ++ [7] ++ [1, 2]) =
      (.ok cellar, [1, 2]) := by decide +kernel
  obtain ⟨htagged, hbare⟩ := (hwritten cellar hfits).2 (.ok true)
  exact ⟨hfits, hbare.trans hrestore, htagged.trans hrestore, hseven, hread _ _ _ hseven⟩

end Backup

end HotspotBackup
