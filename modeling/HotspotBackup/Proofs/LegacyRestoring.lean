import HotspotBackup.Proofs.LegacyReading
import HotspotBackup.Proofs.Restoring

/-!
# The restore of a legacy record

A bare record is read as a whole, its channel is checked, the device is asked
once, and the translated settings are checked against the rules.

* `decodeLegacy_of_spells`, `restore_of_negative` and `restore_of_nonneg`: what
  each of these stages comes to.
* `exists_of_decodeLegacy`: what was restored is the translation of a record,
  with the answer of the device in it.
-/

namespace HotspotBackup.Backup

open Wire Reader HotspotBackup.Field

/-! ## The rules -/

/-- What a restore makes of its filled draft, where `cause` says how a broken
rule is reported. -/
def conclude (cause : Violation → Malformation) (d : Draft) : Except BackupError Configuration :=
  d.build.mapError fun v => .malformed (cause v)

theorem settle_eq_conclude (d : Draft) : settle d = conclude .rejected d := by
  unfold settle conclude
  cases d.build <;> rfl

theorem conclude_of_accepted {d : Draft} (cause : Violation → Malformation)
    (h : d.violation? = none) : conclude cause d = .ok ⟨d, h⟩ := by
  have hb : d.build = .ok ⟨d, h⟩ := Draft.build_eq_ok_iff.2 rfl
  rw [conclude, hb]
  rfl

theorem conclude_of_violation {d : Draft} (cause : Violation → Malformation) {v : Violation}
    (h : d.violation? = some v) : conclude cause d = .error (.malformed (cause v)) := by
  rw [conclude, Draft.build_eq_error_iff.2 h]
  rfl

theorem draft_of_conclude {d : Draft} {cause : Violation → Malformation} {c : Configuration}
    (h : conclude cause d = .ok c) : c.draft = d := by
  cases hv : d.violation? with
  | none =>
    rw [conclude_of_accepted cause hv] at h
    cases h
    rfl
  | some v =>
    rw [conclude_of_violation cause hv] at h
    cases h

/-! ## The stages -/

theorem decodeLegacy_of_error {b : Bytes} {e : BackupError}
    (h : readWhole LegacyRecord.read b = .error e) (p : Provider) :
    decodeLegacy b p = (.error e, 0) := by
  unfold decodeLegacy
  rw [h]
  exact Asking.bind_of_error rfl

theorem decodeLegacy_of_spells {r : LegacyRecord} {b : Bytes} (h : r.Spells b) (p : Provider) :
    decodeLegacy b p = r.restore p := by
  unfold decodeLegacy
  rw [(readWhole_eq_ok_iff LegacyRecord.recognizes_read).2 h]
  exact Asking.bind_of_ok_zero rfl

theorem restore_of_negative {r : LegacyRecord} (h : r.channel.toInt < 0) (p : Provider) :
    r.restore p = (.error (.malformed (.negativeLegacyChannel r.channel.toInt)), 0) := by
  have hc : r.channel < 0 := Int32.lt_iff_toInt_lt.2 h
  rw [LegacyRecord.restore, if_pos hc]
  rfl

/-- The settings of a record whose channel is not negative, given the answer
of the device. -/
def translated (r : LegacyRecord) (answer : Bool) : Draft :=
  { r.translate r.channel.toUInt32 with autoShutdownEnabled := answer }

theorem restore_of_nonneg {r : LegacyRecord} (h : 0 ≤ r.channel.toInt) (p : Provider) :
    r.restore p = (p >>= fun answer => conclude .legacyRejected (translated r answer), 1) := by
  have hc : ¬ r.channel < 0 := fun hlt => Int.not_le.2 (Int32.lt_iff_toInt_lt.1 hlt) h
  have hfill : fillAll Format.legacy.absentFields (r.translate r.channel.toUInt32) p =
      (translated r <$> p, 1) := fillAll_of_mem (by decide) (by decide) _ p
  rw [LegacyRecord.restore, if_neg hc]
  cases p with
  | error e => exact Asking.bind_of_error hfill
  | ok answer =>
    refine (Asking.bind_of_ok hfill).trans ?_
    show _ = (conclude .legacyRejected (translated r answer), 1)
    unfold conclude translated
    cases Draft.build _ <;> rfl

/-- Whatever is restored from a bare record is the translation of a record
that stood there, with the answer of the device. -/
theorem exists_of_decodeLegacy {b : Bytes} {p : Provider} {c : Configuration}
    (h : (decodeLegacy b p).1 = .ok c) :
    ∃ r answer, r.Spells b ∧ p = .ok answer ∧ c.draft = translated r answer := by
  cases hw : readWhole LegacyRecord.read b with
  | error e =>
    rw [decodeLegacy_of_error hw] at h
    cases h
  | ok r =>
    have hs := (readWhole_eq_ok_iff LegacyRecord.recognizes_read).1 hw
    rw [decodeLegacy_of_spells hs] at h
    rcases Int.lt_or_le r.channel.toInt 0 with hc | hc
    · rw [restore_of_negative hc] at h
      cases h
    · rw [restore_of_nonneg hc] at h
      cases p with
      | error e => cases h
      | ok answer => exact ⟨r, answer, hs, rfl, draft_of_conclude h⟩

end HotspotBackup.Backup
