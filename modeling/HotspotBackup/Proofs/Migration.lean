import HotspotBackup.Proofs.Canonical
import HotspotBackup.Proofs.LegacyRestoring

/-!
# Backups across layouts

What becomes of settings that come out of a backup in one layout and go into
a backup in another. Layouts only ever grew (`Layout.mem_fields_of_le`), and
none widened a field but the timeout, so that a newer layout keeps what an
older one has kept (`Field.kept_kept`) and an older layout writes the same of
what a newer one keeps (`Field.write_kept`).

* `decode_encodeAs_of_restored`: settings that were restored are restored
  again from every backup in a layout that is not older, whatever the device
  says by then.
* `encodeAs_of_relayed`: settings that were passed on through newer layouts
  are written as they would have been at once.
-/

namespace HotspotBackup

namespace Layout

theorem le_trans {u v w : Layout} (huv : u ≤ v) (hvw : v ≤ w) : u ≤ w :=
  Nat.le_trans huv hvw

/-- What a layout carries, every newer one carries. -/
theorem mem_fields_of_le {v w : Layout} (h : v ≤ w) {f : Field} (hf : f ∈ v.fields) :
    f ∈ w.fields :=
  mem_fields.2 (le_trans (mem_fields.1 hf) h)

theorem ne_v5_of_le {w : Layout} (h : .v6 ≤ w) : w ≠ .v5 := by
  rintro rfl
  exact absurd h (by decide)

end Layout

namespace Field

theorem kept_of_ne {f : Field} (hf : f ≠ .shutdownTimeoutMillis) (l : Layout) (x : f.Value) :
    f.kept l x = x := by
  cases f <;> first | rfl | exact absurd rfl hf

/-- What a layout keeps of a value, every newer one keeps. -/
theorem kept_kept {v w : Layout} (h : v ≤ w) (f : Field) (x : f.Value) :
    f.kept w (f.kept v x) = f.kept v x := by
  by_cases hf : f = .shutdownTimeoutMillis
  · subst hf
    by_cases hw : .v7 ≤ w
    · exact if_pos hw
    · -- neither layout has the wide timeout, and a low half is its own
      have hv : ¬ .v7 ≤ v := fun hv => hw (Layout.le_trans hv h)
      simp only [kept, hv, hw, ↓reduceIte]
      rw [← UInt64.toNat_inj, UInt64.toNat_mod, UInt64.toNat_mod, Nat.mod_mod]
  · rw [kept_of_ne hf]

/-- Of what a layout keeps of a value, every older one writes the same as of
the whole value. -/
theorem write_kept {v w : Layout} (h : v ≤ w) (f : Field) (x : f.Value) :
    f.write v (f.kept w x) = f.write v x := by
  by_cases hf : f = .shutdownTimeoutMillis
  · subst hf
    by_cases hw : .v7 ≤ w
    · exact congrArg (write v shutdownTimeoutMillis) (if_pos hw)
    · have hv : ¬ .v7 ≤ v := fun hv => hw (Layout.le_trans hv h)
      simp only [kept, write, writeTimeout, hv, hw, ↓reduceIte, Wire.u32]
      rw [UInt64.toNat_toUInt32, toNat_mod_word, UInt64.toNat_toUInt32, Nat.mod_mod]
  · rw [kept_of_ne hf]

/-- An older layout writes the same of settings before and after a backup in
a newer one. -/
theorem writeAll_reduce {v w : Layout} (h : v ≤ w) (answer : Bool) (d : Draft) :
    writeAll v (d.reduce w answer) v.fields = writeAll v d v.fields := by
  refine List.flatMap_congr fun f hf => ?_
  rw [get_reduce_of_mem (Layout.mem_fields_of_le h hf), write_kept h]

end Field

namespace Draft

/-- Settings that a layout keeps whole, every newer one keeps whole, and asks
for nothing unless it is the oldest. -/
theorem reduce_eq_self_of_le {d : Draft} {v w : Layout} {a : Bool} (hd : d.reduce v a = d)
    (hle : v ≤ w) (hw : .v6 ≤ w) (a' : Bool) : d.reduce w a' = d := by
  refine Field.ext_get fun f => ?_
  have hf := congrArg (Field.get · f) hd
  by_cases hm : f ∈ w.fields
  · rw [Field.get_reduce_of_mem hm]
    by_cases hv : f ∈ v.fields
    · rw [Field.get_reduce_of_mem hv] at hf
      rw [← hf, Field.kept_kept hle]
    · have hne : f ≠ .shutdownTimeoutMillis := fun h => hv (h ▸ by cases v <;> decide)
      exact Field.kept_of_ne hne w _
  · have hv : f ∉ v.fields := mt (Layout.mem_fields_of_le hle) hm
    have hne : f ≠ .autoShutdownEnabled := fun h => hm (h ▸ Layout.mem_fields.2 hw)
    rw [Field.get_reduce_of_absent (Layout.mem_absentFields.2 hv)] at hf
    rw [Field.get_reduce_of_absent (Layout.mem_absentFields.2 hm), ← hf]
    exact (Field.get_set_ne {} (f := .autoShutdownEnabled) a' hne).trans
      (Field.get_set_ne {} (f := .autoShutdownEnabled) a hne).symm

theorem Fits.reduce {d : Draft} (h : d.Fits) (l : Layout) (answer : Bool) :
    (d.reduce l answer).Fits :=
  ⟨h.passphrase, h.blocked, h.allowed⟩

end Draft

namespace Backup

open HotspotBackup.Field

/-! ## From older backups to newer ones -/

/-- Settings that a layout keeps whole are restored from it without a lookup. -/
theorem decode_encode_of_reduce {c : Configuration} (hf : c.draft.Fits) {w : Layout}
    (hw : .v6 ≤ w) (hc : c.draft.reduce w true = c.draft) (q : Provider) :
    decode (encode w c) q = (.ok c, 0) := by
  have hne := Layout.ne_v5_of_le hw
  have hr : c.reduce w true = c := Configuration.ext_draft hc
  rw [decode_encode hf, restored, if_neg hne, if_neg hne, hr]

theorem fits_of_decodeLegacy {b : Bytes} {p : Provider} {c : Configuration}
    (h : (decodeLegacy b p).1 = .ok c) : c.draft.Fits := by
  obtain ⟨r, answer, hs, -, hc⟩ := exists_of_decodeLegacy h
  obtain ⟨_, _, _, -, hkey, -, -⟩ := hs
  rw [hc]
  refine ⟨fun phrase hp => ?_, Nat.zero_le _, Nat.zero_le _⟩
  have hp : (if LegacyRecord.securityOfCode r.authType = .wpa2Psk then r.preSharedKey else none) =
      some phrase := hp
  split at hp
  · exact Wire.size_le_of_spellsText hkey hp
  · cases hp

/-- A legacy record holds nothing that the oldest layout does not keep. -/
theorem reduce_v5_of_decodeLegacy {b : Bytes} {p : Provider} {c : Configuration}
    (h : (decodeLegacy b p).1 = .ok c) :
    c.draft.reduce .v5 c.draft.autoShutdownEnabled = c.draft := by
  obtain ⟨r, answer, -, -, hc⟩ := exists_of_decodeLegacy h
  rw [hc]
  rfl

/-- Settings that were restored from a layout, or from a legacy record, are
restored again from every layout that is not older. -/
theorem decode_encode_of_decodeBody {f : Format} {e : Bytes} {p : Provider} {c : Configuration}
    (h : (decodeBody f e p).1 = .ok c) {w : Layout} (hf : f.number ≤ w.number) (hw : .v6 ≤ w)
    (q : Provider) : decode (encode w c) q = (.ok c, 0) := by
  cases f with
  | legacy =>
    have hv : .v5 ≤ w := Layout.le_trans (by decide) hw
    exact decode_encode_of_reduce (fits_of_decodeLegacy h) hw
      (Draft.reduce_eq_self_of_le (reduce_v5_of_decodeLegacy h) hv hw true) q
  | layout l =>
    have hc := congrArg Configuration.draft (reduce_of_decodeLayout h fun _ => rfl)
    exact decode_encode_of_reduce (fits_of_decodeLayout h) hw
      (Draft.reduce_eq_self_of_le hc hf hw true) q

/-- Settings that were restored, from a tagged backup of any format or from a
bare legacy record, are restored again from a backup in any layout that is
not older and not the oldest, without a lookup. -/
theorem decode_encodeAs_of_restored {b : Bytes} {p : Provider} {c : Configuration} {w : Layout}
    (hw : .v6 ≤ w)
    (h : (∃ f, (decode b p).1 = .ok c ∧ peekFormat b = .ok f ∧ f.number ≤ w.number) ∨
      (decodeLegacy b p).1 = .ok c) (q : Provider) :
    ∃ e, encodeAs (.layout w) c = .ok e ∧ decode e q = (.ok c, 0) := by
  refine ⟨encode w c, rfl, ?_⟩
  rcases h with ⟨f, hc, hpeek, hf⟩ | hc
  · obtain ⟨rest, hrest⟩ := peekFormat_eq_ok_iff.1 hpeek
    rw [decode_of_format hrest] at hc
    exact decode_encode_of_decodeBody hc hf hw q
  · have hlegacy : (decodeBody .legacy b p).1 = .ok c := hc
    exact decode_encode_of_decodeBody hlegacy (Nat.le_trans (by decide) hw) hw q

/-- The record of an older device with a key. -/
def attic : LegacyRecord :=
  { ssid := some "attic", band := 1, channel := 36, preSharedKey := some "up the stairs"
    authType := 4 }

/-- What `attic` restores to where the device does not shut down by itself. -/
def atticRestored : Configuration where
  draft :=
    { ssid := some "attic", band := .ghz5, channel := 36, passphrase := some "up the stairs"
      securityType := .wpa2Psk, autoShutdownEnabled := false }
  accepted := by decide

theorem decode_encodeAs_attic :
    ((decodeLegacy attic.write (.ok false)).1 = .ok atticRestored ∧
      ∃ e, encodeAs (.layout .v6) atticRestored = .ok e ∧
        decode e (.error (.unavailable "auto_shutdown_enabled" "gone")) =
          (.ok atticRestored, 0)) ∧
    ((decode (encode .v5 atticRestored) (.ok false)).1 = .ok atticRestored ∧
      peekFormat (encode .v5 atticRestored) = .ok (.layout .v5) ∧
      ∃ e, encodeAs (.layout .v9) atticRestored = .ok e ∧
        decode e (.ok true) = (.ok atticRestored, 0)) := by
  have hbare : (decodeLegacy attic.write (.ok false)).1 = .ok atticRestored := by decide +kernel
  have htagged : (decode (encode .v5 atticRestored) (.ok false)).1 = .ok atticRestored := by
    decide +kernel
  have hpeek : peekFormat (encode .v5 atticRestored) = .ok (.layout .v5) := by decide +kernel
  have hlater : ∃ f, (decode (encode .v5 atticRestored) (.ok false)).1 = .ok atticRestored ∧
      peekFormat (encode .v5 atticRestored) = .ok f ∧ f.number ≤ Layout.v9.number :=
    ⟨.layout .v5, htagged, hpeek, by decide⟩
  exact ⟨⟨hbare, decode_encodeAs_of_restored (by decide) (.inr hbare) _⟩, htagged, hpeek,
    decode_encodeAs_of_restored (by decide) (.inl hlater) _⟩

/-! ## From newer backups to older ones -/

theorem encode_reduce {v w : Layout} (h : v ≤ w) (answer : Bool) (c : Configuration) :
    encode v (c.reduce w answer) = encode v c :=
  congrArg (Wire.i32 (Format.layout v).tag ++ ·) (writeAll_reduce h answer c.draft)

/-- Settings on their way through backups: each step writes them in a layout
and restores them with the answer that a device gives. -/
def relay (c : Configuration) (steps : List (Layout × Bool)) :
    Except BackupError Configuration :=
  steps.foldlM (fun c step => do (decode (← encodeAs (.layout step.1) c) (.ok step.2)).1) c

theorem decode_encode_of_ok {c : Configuration} (hf : c.draft.Fits) (l : Layout)
    (answer : Bool) : (decode (encode l c) (.ok answer)).1 =
      .ok (c.reduce l (if l = .v5 then answer else true)) := by
  rw [decode_encode hf, restored]
  split <;> rfl

theorem relay_cons {c : Configuration} (hf : c.draft.Fits) (step : Layout × Bool)
    (steps : List (Layout × Bool)) : relay c (step :: steps) =
      relay (c.reduce step.1 (if step.1 = .v5 then step.2 else true)) steps := by
  have hd := decode_encode_of_ok hf step.1 step.2
  rw [relay, List.foldlM_cons]
  show ((decode (encode step.1 c) (.ok step.2)).1 >>= fun c => relay c steps) = _
  rw [hd]
  rfl

/-- By induction on the steps: each of them succeeds, since what is left of
settings that fit fits, and none changes what is written in an older layout. -/
theorem exists_of_relay {v : Layout} (steps : List (Layout × Bool)) {c : Configuration}
    (hf : c.draft.Fits) (hs : ∀ step ∈ steps, v ≤ step.1) :
    ∃ d, relay c steps = .ok d ∧ encode v d = encode v c := by
  induction steps generalizing c with
  | nil => exact ⟨c, rfl, rfl⟩
  | cons step steps ih =>
    let answer := if step.1 = .v5 then step.2 else true
    obtain ⟨d, hd, he⟩ := ih (c := c.reduce step.1 answer) (hf.reduce step.1 answer)
      fun s h => hs s (List.mem_cons_of_mem _ h)
    refine ⟨d, (relay_cons hf step steps).trans hd, he.trans ?_⟩
    exact encode_reduce (hs step List.mem_cons_self) _ c

/-- Settings that fit are written in a layout as they would have been at once,
after one backup in a newer layout and after any number of them. -/
theorem encodeAs_of_relayed {c : Configuration} (hf : c.draft.Fits) (v : Layout) :
    (∀ w, v ≤ w → ∀ answer, ∃ b d, encodeAs (.layout w) c = .ok b ∧
      (decode b (.ok answer)).1 = .ok d ∧ encodeAs (.layout v) d = encodeAs (.layout v) c) ∧
    ∀ steps, (∀ step ∈ steps, v ≤ step.1) →
      ∃ d, relay c steps = .ok d ∧ encodeAs (.layout v) d = encodeAs (.layout v) c := by
  refine ⟨fun w hw answer => ?_, fun steps hs => ?_⟩
  · exact ⟨_, _, rfl, decode_encode_of_ok hf w answer, congrArg Except.ok (encode_reduce hw _ c)⟩
  · obtain ⟨d, hd, he⟩ := exists_of_relay steps hf hs
    exact ⟨d, hd, congrArg Except.ok he⟩

/-- Settings of which every older layout loses some. -/
def modern : Configuration where
  draft :=
    { bssid := some ⟨2, 0, 0, 0, 0, 1⟩
      shutdownTimeoutMillis := 4294967301
      autoShutdownEnabled := false
      macRandomizationSetting := .persistent
      channels := ChannelMap.insert .ghz6 5 ∅ }
  accepted := by decide

theorem encodeAs_modern :
    modern.draft.Fits ∧ (∀ step ∈ [(Layout.v9, true), (.v8, true), (.v6, false)], .v5 ≤ step.1) ∧
      (∃ d, relay modern [(.v9, true), (.v8, true), (.v6, false)] = .ok d ∧
        encodeAs (.layout .v5) d = encodeAs (.layout .v5) modern) ∧
      ∃ b d, encodeAs (.layout .v6) modern = .ok b ∧ (decode b (.ok true)).1 = .ok d ∧
        encodeAs (.layout .v5) d = encodeAs (.layout .v5) modern := by
  have hf : modern.draft.Fits := ⟨fun _ h => (nomatch h), by decide, by decide⟩
  have hs : ∀ step ∈ [(Layout.v9, true), (.v8, true), (.v6, false)], .v5 ≤ step.1 := by decide
  obtain ⟨hone, hmany⟩ := encodeAs_of_relayed hf .v5
  exact ⟨hf, hs, hmany _ hs, hone .v6 (by decide) true⟩

end Backup

end HotspotBackup
