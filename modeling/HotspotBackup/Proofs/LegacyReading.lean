import HotspotBackup.Proofs.Primitives

/-!
# The reader of legacy records accepts the grammar

A bare record is read off exactly its encodings (`recognizes_read`), so that
none of them is the beginning of another.
-/

namespace HotspotBackup.LegacyRecord

open Wire Reader

theorem recognizes_read : Recognizes read Spells := by
  refine ((recognizes_text? _).bind fun ssid => (recognizes_i32 _).bind fun band =>
    (recognizes_i32 _).bind fun channel => (recognizes_text? _).bind fun key =>
      (recognizes_i32 _).bind fun authType => (recognizes_flag _).map fun hidden =>
        (⟨ssid, band, channel, key, authType, hidden⟩ : LegacyRecord)).congr fun r e => ?_
  refine ⟨fun h => ?_, fun h => ?_⟩
  · obtain ⟨ssid, e₁, -, h₁, ⟨band, -, -, rfl, ⟨channel, -, -, rfl, ⟨key, e₄, -, h₄,
      ⟨authType, -, e₆, rfl, ⟨hidden, h₆, rfl⟩, rfl⟩, rfl⟩, rfl⟩, rfl⟩, rfl⟩ := h
    exact ⟨e₁, e₄, e₆, h₁, h₄, h₆, rfl⟩
  · obtain ⟨e₁, e₄, e₆, h₁, h₄, h₆, rfl⟩ := h
    exact ⟨r.ssid, e₁, _, h₁, ⟨r.band, _, _, rfl, ⟨r.channel, _, _, rfl, ⟨r.preSharedKey, e₄, _, h₄,
      ⟨r.authType, _, e₆, rfl, ⟨r.hiddenSsid, h₆, rfl⟩, rfl⟩, rfl⟩, rfl⟩, rfl⟩, rfl⟩

end HotspotBackup.LegacyRecord
