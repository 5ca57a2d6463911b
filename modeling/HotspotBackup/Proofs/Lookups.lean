import HotspotBackup.Proofs.LegacyRestoring
import HotspotBackup.Proofs.RoundTrip

/-!
# What the device is asked, and what its answer changes

A restore asks the device once or not at all, and which of the two it is can be
told from the octets (`AsksBare`, `AsksTagged`): the settings of the oldest
layout, or a legacy record with a channel that is not negative, are there to
the last octet.

* `asksOnce_decode` and `silent_decode`, `asksOnce_decodeLegacy` and
  `silent_decodeLegacy`: a restore either puts the answer into one field of a
  draft and then checks the rules, or does not depend on the device.
* `discreet_decode_and_decodeLegacy`: so a failure of the device is the outcome
  wherever the device is asked, and two answers lead to one refusal or to
  configurations that differ in one setting.
-/

namespace HotspotBackup.Backup

open Wire Reader HotspotBackup.Field

/-- Octets of a bare legacy record for which the device is asked. -/
def AsksBare (b : Bytes) : Prop :=
  ∃ r : LegacyRecord, r.Spells b ∧ 0 ≤ r.channel.toInt

/-- Octets of a tagged backup for which the device is asked. -/
def AsksTagged (b : Bytes) : Prop :=
  (∃ e d, b = Bytes.ofNat 4 5 ++ e ∧ Layout.v5.Spells d e) ∨
    ∃ e, b = Bytes.ofNat 4 3 ++ e ∧ AsksBare e

/-- An entry point asks the device about its automatic shutdown exactly for
the octets `Asks`, and learns nothing else from it. -/
structure Discreet (entry : Bytes → Asking Configuration) (Asks : Bytes → Prop) : Prop where
  lookups : ∀ b p, (entry b p).2 ≤ 1 ∧ ((entry b p).2 = 1 ↔ Asks b)
  /-- A failure of the device comes before any broken rule. -/
  failed : ∀ b e, Asks b → (entry b (.error e)).1 = .error e
  unasked : ∀ b p q, ¬ Asks b → entry b p = entry b q
  answered : ∀ b x y, Asks b →
    (∃ e, (entry b (.ok x)).1 = .error e ∧ (entry b (.ok y)).1 = .error e) ∨
      ∃ c c', (entry b (.ok x)).1 = .ok c ∧ (entry b (.ok y)).1 = .ok c' ∧
        c.draft.autoShutdownEnabled = x ∧ c'.draft.autoShutdownEnabled = y ∧
          ∀ f, f ≠ .autoShutdownEnabled → get c.draft f = get c'.draft f

/-! ## Asking or not -/

/-- A restore that does not depend on the device. -/
def Silent (m : Asking Configuration) : Prop :=
  ∃ r, ∀ p, m p = (r, 0)

/-- A restore that asks the device for one field of a draft and then checks
the rules. -/
def AsksOnce (m : Asking Configuration) : Prop :=
  ∃ (d : Draft) (cause : Violation → Malformation), ∀ p,
    m p = (p >>= fun answer => conclude cause (set d autoShutdownEnabled answer), 1)

/-- No rule is about the automatic shutdown. -/
theorem violation?_set_autoShutdownEnabled (d : Draft) (answer : Bool) :
    (set d autoShutdownEnabled answer).violation? = d.violation? :=
  rfl

/-- Two answers lead to one refusal, or to settings that differ in the one
that was asked for. -/
theorem AsksOnce.answered {m : Asking Configuration} (h : AsksOnce m) (x y : Bool) :
    (∃ e, (m (.ok x)).1 = .error e ∧ (m (.ok y)).1 = .error e) ∨
      ∃ c c', (m (.ok x)).1 = .ok c ∧ (m (.ok y)).1 = .ok c' ∧
        c.draft.autoShutdownEnabled = x ∧ c'.draft.autoShutdownEnabled = y ∧
          ∀ f, f ≠ .autoShutdownEnabled → get c.draft f = get c'.draft f := by
  obtain ⟨d, cause, h⟩ := h
  have hrun : ∀ answer, (m (.ok answer)).1 = conclude cause (set d autoShutdownEnabled answer) :=
    fun answer => congrArg Prod.fst (h (.ok answer))
  have hrules := violation?_set_autoShutdownEnabled d
  cases hv : d.violation? with
  | some v =>
    have hrefused : ∀ answer, (m (.ok answer)).1 = .error (.malformed (cause v)) := fun answer =>
      (hrun answer).trans (conclude_of_violation cause ((hrules answer).trans hv))
    exact .inl ⟨_, hrefused x, hrefused y⟩
  | none =>
    have hkept := fun answer => (hrun answer).trans
      (conclude_of_accepted cause ((hrules answer).trans hv))
    refine .inr ⟨_, _, hkept x, hkept y, rfl, rfl, fun f hf => ?_⟩
    exact (get_set_ne d (f := autoShutdownEnabled) x hf).trans
      (get_set_ne d (f := autoShutdownEnabled) y hf).symm

/-- An entry point is discreet if each of its restores asks once or is silent. -/
theorem discreet_of_cases {entry : Bytes → Asking Configuration} {Asks : Bytes → Prop}
    (hasks : ∀ b, Asks b → AsksOnce (entry b)) (hnot : ∀ b, ¬ Asks b → Silent (entry b)) :
    Discreet entry Asks where
  lookups b p := by
    by_cases hb : Asks b
    · obtain ⟨d, cause, h⟩ := hasks b hb
      simp only [h p, hb, Nat.le_refl, and_self]
    · obtain ⟨r, h⟩ := hnot b hb
      simp only [h p, hb, Nat.zero_le, Nat.zero_ne_one, and_self]
  failed b e hb := by
    obtain ⟨d, cause, h⟩ := hasks b hb
    rw [h]
    rfl
  unasked b p q hb := by
    obtain ⟨r, h⟩ := hnot b hb
    rw [h p, h q]
  answered b x y hb := (hasks b hb).answered x y

/-! ## Bare legacy records -/

theorem asksOnce_decodeLegacy {b : Bytes} (h : AsksBare b) : AsksOnce (decodeLegacy b) := by
  obtain ⟨r, hs, hc⟩ := h
  refine ⟨r.translate r.channel.toUInt32, .legacyRejected, fun p => ?_⟩
  rw [decodeLegacy_of_spells hs, restore_of_nonneg hc]
  rfl

theorem silent_decodeLegacy {b : Bytes} (h : ¬ AsksBare b) : Silent (decodeLegacy b) := by
  cases hw : readWhole LegacyRecord.read b with
  | error e => exact ⟨_, decodeLegacy_of_error hw⟩
  | ok r =>
    have hs := (readWhole_eq_ok_iff LegacyRecord.recognizes_read).1 hw
    have hc : r.channel.toInt < 0 := Int.not_le.1 fun hc => h ⟨r, hs, hc⟩
    exact ⟨_, fun p => (decodeLegacy_of_spells hs p).trans (restore_of_negative hc p)⟩

/-! ## Layouts -/

theorem decodeLayout_of_error {l : Layout} {e : Bytes} {failure : BackupError}
    (h : readWhole (readAll l l.fields {}) e = .error failure) (p : Provider) :
    decodeLayout l e p = (.error failure, 0) := by
  unfold decodeLayout
  rw [h]
  exact Asking.bind_of_error rfl

theorem decodeLayout_of_ok {l : Layout} {e : Bytes} {d : Draft}
    (h : readWhole (readAll l l.fields {}) e = .ok d) (p : Provider) :
    decodeLayout l e p = complete l d p := by
  obtain ⟨hs, hd⟩ := readAll_eq_ok_iff.1 h
  exact decodeLayout_of_spells hs hd p

theorem asksOnce_decodeLayout {d : Draft} {e : Bytes} (h : Layout.v5.Spells d e) :
    AsksOnce (decodeLayout .v5 e) := by
  obtain ⟨part, hp, he⟩ := h
  -- what was read is what the layout carries of `d`, on top of the defaults
  have hs : Layout.v5.Spells (d.reduce .v5 true) e := by
    refine ⟨part, fun f hf => ?_, he⟩
    rw [get_reduce_of_mem hf, kept_of_spells (hp f hf)]
    exact hp f hf
  have hd : ∀ f ∈ Layout.v5.absentFields, get (d.reduce .v5 true) f = get {} f :=
    fun f hf => get_reduce_of_absent hf true d
  refine ⟨d.reduce .v5 true, .rejected, fun p => ?_⟩
  rw [decodeLayout_of_spells hs hd, complete_v5]
  simp only [settle_eq_conclude]
  rfl

theorem silent_decodeLayout {l : Layout} {e : Bytes} (h : l = .v5 → ∀ d, ¬ l.Spells d e) :
    Silent (decodeLayout l e) := by
  cases hw : readWhole (readAll l l.fields {}) e with
  | error failure => exact ⟨_, decodeLayout_of_error hw⟩
  | ok d =>
    have hl : l ≠ .v5 := fun hl => h hl d (readAll_eq_ok_iff.1 hw).1
    exact ⟨_, fun p => (decodeLayout_of_ok hw p).trans (complete_of_ne hl d p)⟩

/-! ## Tagged backups -/

theorem asksOnce_decode {b : Bytes} (h : AsksTagged b) : AsksOnce (decode b) := by
  rcases h with ⟨e, d, rfl, hs⟩ | ⟨e, rfl, hb⟩
  · have hf : readFormat (Bytes.ofNat 4 5 ++ e) = .ok (.layout .v5, e) :=
      readFormat_tag (.layout .v5) e
    rw [funext (decode_of_format hf)]
    exact asksOnce_decodeLayout hs
  · have hf : readFormat (Bytes.ofNat 4 3 ++ e) = .ok (.legacy, e) := readFormat_tag .legacy e
    rw [funext (decode_of_format hf)]
    exact asksOnce_decodeLegacy hb

theorem silent_decode {b : Bytes} (h : ¬ AsksTagged b) : Silent (decode b) := by
  rw [AsksTagged, not_or] at h
  cases hf : readFormat b with
  | error e => exact ⟨_, decode_of_error hf⟩
  | ok v =>
    obtain ⟨f, e⟩ := v
    have hb := readFormat_eq_ok_iff.1 hf
    rw [funext (decode_of_format hf)]
    cases f with
    | legacy => exact silent_decodeLegacy fun he => h.2 ⟨e, hb, he⟩
    | layout l =>
      refine silent_decodeLayout fun hl d hs => ?_
      subst hl
      exact h.1 ⟨e, d, hb, hs⟩

/-- For a backup with the tag of a newer layout than the oldest, the device is
not asked. -/
theorem not_asksTagged {b : Bytes} {l : Layout} (h : peekFormat b = .ok (.layout l))
    (hl : l ≠ .v5) : ¬ AsksTagged b := by
  have hother : ∀ (f : Format) (e : Bytes), b = Bytes.ofNat 4 f.number ++ e → f = .layout l := by
    intro f e hb
    obtain ⟨rest, hr⟩ := peekFormat_eq_ok_iff.1 h
    rw [readFormat_eq_ok_iff.2 hb] at hr
    cases hr
    rfl
  rintro (⟨e, d, hb, -⟩ | ⟨e, hb, -⟩)
  · cases hother (.layout .v5) e hb
    exact hl rfl
  · cases hother .legacy e hb

/-- Both entry points are discreet, and no payload of the layouts from the
sixth on restores to anything that depends on the device. -/
theorem discreet_decode_and_decodeLegacy :
    Discreet decode AsksTagged ∧ Discreet decodeLegacy AsksBare ∧
      ∀ b l, peekFormat b = .ok (.layout l) → l ≠ .v5 →
        ∀ p q, decode b p = decode b q ∧ (decode b p).2 = 0 := by
  have hd : Discreet decode AsksTagged :=
    discreet_of_cases (fun _ => asksOnce_decode) fun _ => silent_decode
  refine ⟨hd, discreet_of_cases (fun _ => asksOnce_decodeLegacy) fun _ => silent_decodeLegacy, ?_⟩
  intro b l hb hl p q
  have hnot := not_asksTagged hb hl
  obtain ⟨hle, hiff⟩ := hd.lookups b p
  have hne := mt hiff.1 hnot
  exact ⟨hd.unasked b p q hnot, by omega⟩

/-- The record of an older device that lacks the key it needs. -/
def keyless : LegacyRecord := { ssid := some "attic", channel := 6, authType := 4 }

/-- A device that cannot be asked. -/
def gone : BackupError := .unavailable "auto_shutdown_enabled" "gone"

/-- A device that cannot be asked hides the broken rule, and the newest layout
does not ask. -/
theorem discreet_keyless :
    (AsksBare keyless.write ∧
      (decodeLegacy keyless.write (.ok true)).1 =
        .error (.malformed (.legacyRejected (.passphraseMissing .wpa2Psk))) ∧
      (decodeLegacy keyless.write (.error gone)).1 = .error gone ∧
      (decodeLegacy keyless.write (.error gone)).2 = 1) ∧
    peekFormat (encode .v9 .default) = .ok (.layout .v9) ∧
      decode (encode .v9 .default) (.error gone) = decode (encode .v9 .default) (.ok true) := by
  obtain ⟨-, hbare, hnewer⟩ := discreet_decode_and_decodeLegacy
  have hasks : AsksBare keyless.write := by
    have hssid : SpellsText (some "attic") (Wire.text? (some "attic")) :=
      ⟨5, _, by decide, rfl, rfl, rfl⟩
    exact ⟨keyless, ⟨_, _, [0], hssid, absent_eq, ⟨0, rfl, rfl⟩, rfl⟩, by decide⟩
  have hpeek : peekFormat (encode .v9 .default) = .ok (.layout .v9) := rfl
  exact ⟨⟨hasks, by decide +kernel, hbare.failed _ gone hasks,
    (hbare.lookups _ (.error gone)).2.2 hasks⟩, hpeek, (hnewer _ .v9 hpeek (by decide) _ _).1⟩

end HotspotBackup.Backup
