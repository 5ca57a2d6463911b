import HotspotBackup.Proofs.Restoring

/-!
# Which octets are restored

The decoder accepts exactly the grammar: `decode_accepts_iff` has both that
nothing outside of it is restored, and that no backup in it is refused,
whatever its lengths and its lists are.
-/

namespace HotspotBackup.Backup

/-- A backup with the tag of a layout restores to a draft exactly if it is the
tag and then, with nothing left over, an encoding of each setting of the draft
that the layout carries; the draft obeys the rules; and the settings that the
layout does not carry are filled in it. -/
theorem decode_accepts_iff {l : Layout} {b : Bytes} {p : Provider} {d : Draft} :
    ((∃ c, (decode b p).1 = .ok c ∧ c.draft = d) ∧ peekFormat b = .ok (.layout l)) ↔
      (∃ e, b = Bytes.ofNat 4 l.number ++ e ∧ l.Spells d e) ∧ d.Lawful ∧ l.Filled p d := by
  refine ⟨fun h => ?_, fun h => ?_⟩
  · obtain ⟨⟨c, hc, rfl⟩, ht⟩ := h
    obtain ⟨e, he⟩ := peekFormat_eq_ok_iff.1 ht
    have hb := readFormat_eq_ok_iff.1 he
    rw [decode_of_layout he, decodeLayout_eq_ok_iff] at hc
    exact ⟨⟨e, hb, hc.1⟩, c.lawful, hc.2⟩
  · obtain ⟨⟨e, rfl, hs⟩, hl, hf⟩ := h
    have he : readFormat (Bytes.ofNat 4 l.number ++ e) = .ok (.layout l, e) :=
      readFormat_tag (.layout l) e
    let c : Configuration := ⟨d, Draft.violation?_eq_none_iff.2 hl⟩
    have hc : (decodeLayout l e p).1 = .ok c := decodeLayout_eq_ok_iff.2 ⟨hs, hf⟩
    refine ⟨⟨c, ?_, rfl⟩, peekFormat_eq_ok_iff.2 ⟨e, he⟩⟩
    rw [decode_of_layout he, hc]

end HotspotBackup.Backup
