import HotspotBackup.Proofs.LegacyRestoring

/-!
# What a legacy record restores to

The settings that a record stands for, read off its codes and texts
(`LegacyRecord.RestoresTo`), and the records that stand for settings that obey
the rules (`LegacyRecord.Restorable`).

* `LegacyRecord.restoresTo_iff`: a record whose channel is not negative stands
  for one draft, which is the translated one.
* `LegacyRecord.lawful_iff`: of the rules only those about the name and the
  passphrase can be broken by it.
* `Backup.restore_translates`: so a record restores exactly if it is restorable
  and the device answers, to that draft; each refusal has its place, and a key
  that is not used has no part in any of this.
-/

namespace HotspotBackup

open Backup (translated conclude conclude_of_accepted conclude_of_violation draft_of_conclude
  restore_of_negative restore_of_nonneg)

namespace LegacyRecord

/-- A record that restores wherever the device answers. -/
structure Restorable (r : LegacyRecord) : Prop where
  channel : 0 ≤ r.channel.toInt
  ssid : ∀ name, r.ssid = some name → Utf8.size name ≤ 32
  /-- Where the key is used, there is one that clients accept. -/
  key : r.authType.toInt = 4 →
    ∃ key, r.preSharedKey = some key ∧ 8 ≤ Utf8.size key ∧ Utf8.size key ≤ 63

/-- The settings that a record stands for, given the answer of the device. -/
structure RestoresTo (r : LegacyRecord) (answer : Bool) (d : Draft) : Prop where
  ssid : d.ssid = r.ssid
  hiddenSsid : d.hiddenSsid = r.hiddenSsid
  channel : (d.channel.toNat : Int) = r.channel.toInt
  band : d.band.bits =
    if r.band.toInt = 1 then 0b0010 else if r.band.toInt = -1 then 0b0011 else 0b0001
  keyed : r.authType.toInt = 4 → d.securityType = .wpa2Psk ∧ d.passphrase = r.preSharedKey
  /-- A key that is not used is left behind. -/
  unkeyed : r.authType.toInt ≠ 4 → d.securityType = .unsecured ∧ d.passphrase = none
  autoShutdownEnabled : d.autoShutdownEnabled = answer
  default : ∀ f, f ∉ [.ssid, .hiddenSsid, .channel, .band, .securityType, .passphrase,
    .autoShutdownEnabled] → Field.get d f = Field.get {} f

/-! ## Codes -/

theorem securityOfCode_eq (code : Int32) :
    securityOfCode code = if code.toInt = 4 then .wpa2Psk else .unsecured := by
  have hfour : code = 4 ↔ code.toInt = 4 := Int32.toInt_inj.symm
  simp only [securityOfCode, hfour]

theorem bits_bandOfCode (code : Int32) : (bandOfCode code).bits =
    if code.toInt = 1 then 0b0010 else if code.toInt = -1 then 0b0011 else 0b0001 := by
  have hone : code = 1 ↔ code.toInt = 1 := Int32.toInt_inj.symm
  have hminus : code = -1 ↔ code.toInt = -1 := Int32.toInt_inj.symm
  simp only [bandOfCode, hone, hminus]
  split
  · rfl
  · split <;> rfl

theorem toNat_channel {r : LegacyRecord} (h : 0 ≤ r.channel.toInt) :
    (r.channel.toUInt32.toNat : Int) = r.channel.toInt := by
  have hn : ¬ r.channel < 0 := fun hlt => Int.not_le.2 (Int32.lt_iff_toInt_lt.1 hlt) h
  rw [← Wire.toNat_toInt hn]
  omega

/-! ## The settings of a record -/

variable {r : LegacyRecord} {answer : Bool} {d d' : Draft}

theorem restoresTo_translated (h : 0 ≤ r.channel.toInt) (answer : Bool) :
    r.RestoresTo answer (translated r answer) where
  ssid := rfl
  hiddenSsid := rfl
  channel := toNat_channel h
  band := bits_bandOfCode r.band
  keyed hc := by
    simp only [translated, translate, securityOfCode_eq, hc, ↓reduceIte, and_self]
  unkeyed hc := by
    simp [translated, translate, securityOfCode_eq, hc]
  autoShutdownEnabled := rfl
  default f hf := by
    cases f with
    | ssid | hiddenSsid | channel | band | securityType | passphrase | autoShutdownEnabled =>
      exact absurd (by decide) hf
    | bssid | maxNumberOfClients | shutdownTimeoutMillis | clientControlByUserEnabled
    | blockedClientList | allowedClientList | bridgedModeOpportunisticShutdownEnabled
    | macRandomizationSetting | channels | ieee80211axEnabled => rfl

/-- A record stands for one draft. -/
theorem RestoresTo.unique (h : r.RestoresTo answer d) (h' : r.RestoresTo answer d') : d = d' := by
  have hsecurity : d.securityType = d'.securityType ∧ d.passphrase = d'.passphrase := by
    by_cases hc : r.authType.toInt = 4
    · rw [(h.keyed hc).1, (h'.keyed hc).1, (h.keyed hc).2, (h'.keyed hc).2]
      exact ⟨rfl, rfl⟩
    · rw [(h.unkeyed hc).1, (h'.unkeyed hc).1, (h.unkeyed hc).2, (h'.unkeyed hc).2]
      exact ⟨rfl, rfl⟩
  refine Field.ext_get fun f => ?_
  by_cases hf : f ∈ [.ssid, .hiddenSsid, .channel, .band, .securityType, .passphrase,
    .autoShutdownEnabled]
  · simp only [List.mem_cons, List.not_mem_nil, or_false] at hf
    rcases hf with rfl | rfl | rfl | rfl | rfl | rfl | rfl
    · exact h.ssid.trans h'.ssid.symm
    · exact h.hiddenSsid.trans h'.hiddenSsid.symm
    · exact UInt32.toNat_inj.1 (Int.natCast_inj.1 (h.channel.trans h'.channel.symm))
    · exact Band.ext (h.band.trans h'.band.symm)
    · exact hsecurity.1
    · exact hsecurity.2
    · exact h.autoShutdownEnabled.trans h'.autoShutdownEnabled.symm
  · exact (h.default f hf).trans (h'.default f hf).symm

theorem restoresTo_iff (h : 0 ≤ r.channel.toInt) :
    r.RestoresTo answer d ↔ d = translated r answer := by
  refine ⟨fun hd => hd.unique (restoresTo_translated h answer), fun hd => ?_⟩
  rw [hd]
  exact restoresTo_translated h answer

theorem RestoresTo.usesPassphrase_iff (h : r.RestoresTo answer d) :
    d.securityType.usesPassphrase = true ↔ r.authType.toInt = 4 := by
  by_cases hc : r.authType.toInt = 4
  · rw [(h.keyed hc).1]
    exact iff_of_true rfl hc
  · rw [(h.unkeyed hc).1]
    exact iff_of_false nofun hc

theorem RestoresTo.authType_of_passphrase (h : r.RestoresTo answer d) {key : String}
    (hk : d.passphrase = some key) : r.authType.toInt = 4 := by
  by_contra hc
  rw [(h.unkeyed hc).2] at hk
  cases hk

theorem RestoresTo.restorable (h : r.RestoresTo answer d) (hd : d.Lawful) : r.Restorable where
  channel := by
    rw [← h.channel]
    omega
  ssid name hn := hd.ssid name (h.ssid.trans hn)
  key hc := by
    obtain ⟨hsecurity, hkey⟩ := h.keyed hc
    obtain ⟨key, hk⟩ := Option.ne_none_iff_exists'.1 (hd.needed (h.usesPassphrase_iff.2 hc))
    have hbounded : d.securityType.boundsPassphrase = true := by rw [hsecurity]; rfl
    exact ⟨key, hkey.symm.trans hk, (hd.passphrase key hk).bounded hbounded⟩

theorem RestoresTo.lawful (h : r.RestoresTo answer d) (hr : r.Restorable) : d.Lawful where
  ssid name hn := hr.ssid name (h.ssid.symm.trans hn)
  needed hu := by
    have hc := h.usesPassphrase_iff.1 hu
    obtain ⟨key, hk, -⟩ := hr.key hc
    rw [(h.keyed hc).2, hk]
    exact nofun
  passphrase key hk := by
    have hc := h.authType_of_passphrase hk
    obtain ⟨hsecurity, hkey⟩ := h.keyed hc
    obtain ⟨key', hk', hlow, hhigh⟩ := hr.key hc
    obtain rfl : key' = key := Option.some_inj.1 (by rw [← hk', ← hkey, hk])
    rw [hsecurity]
    exact ⟨rfl, Nat.lt_of_lt_of_le (by decide) hlow, fun _ => ⟨hlow, hhigh⟩⟩
  single band hb := by
    rw [show d.channels = ∅ from h.default .channels (by decide)] at hb
    cases hb
  channel := by
    have hmost := r.channel.toInt_lt
    have hnat := h.channel
    unfold maxStoredNumber
    omega
  channels entry he := by
    rw [show d.channels = ∅ from h.default .channels (by decide)] at he
    cases he
  clients := by
    rw [show d.maxNumberOfClients = 0 from h.default .maxNumberOfClients (by decide)]
    exact Nat.zero_le _

/-- Of the rules, a record can break only those about its name and its key. -/
theorem lawful_iff (h : r.RestoresTo answer d) : d.Lawful ↔ r.Restorable :=
  ⟨h.restorable, h.lawful⟩

end LegacyRecord

namespace Backup

open LegacyRecord

theorem restore_eq_ok_iff {r : LegacyRecord} {p : Provider} {c : Configuration} :
    (r.restore p).1 = .ok c ↔
      r.Restorable ∧ ∃ answer, p = .ok answer ∧ r.RestoresTo answer c.draft := by
  refine ⟨fun h => ?_, fun h => ?_⟩
  · rcases Int.lt_or_le r.channel.toInt 0 with hc | hc
    · rw [restore_of_negative hc] at h
      cases h
    · rw [restore_of_nonneg hc] at h
      cases p with
      | error e => cases h
      | ok answer =>
        have hd : r.RestoresTo answer c.draft := (restoresTo_iff hc).2 (draft_of_conclude h)
        exact ⟨(lawful_iff hd).1 c.lawful, answer, rfl, hd⟩
  · obtain ⟨hr, answer, rfl, hd⟩ := h
    rw [restore_of_nonneg hr.channel]
    show conclude .legacyRejected (translated r answer) = .ok c
    rw [← (restoresTo_iff hr.channel).1 hd]
    exact conclude_of_accepted .legacyRejected c.accepted

/-- Where the device answers, a record that is not restorable stands for settings
that break a rule. -/
theorem restore_of_not_restorable {r : LegacyRecord} {answer : Bool} (hc : 0 ≤ r.channel.toInt)
    (hr : ¬ r.Restorable) : ∃ d v, r.RestoresTo answer d ∧ d.build = .error v ∧
      r.restore (.ok answer) = (.error (.malformed (.legacyRejected v)), 1) := by
  have hd := restoresTo_translated hc answer
  cases hv : (translated r answer).violation? with
  | none => exact absurd ((lawful_iff hd).1 (Draft.violation?_eq_none_iff.1 hv)) hr
  | some v =>
    refine ⟨_, v, hd, Draft.build_eq_error_iff.2 hv, ?_⟩
    rw [restore_of_nonneg hc]
    exact congrArg (·, 1) (conclude_of_violation .legacyRejected hv)

/-- A key that is not used changes nothing. -/
theorem restore_of_unkeyed {r : LegacyRecord} (h : r.authType.toInt ≠ 4) (key : Option String)
    (p : Provider) : { r with preSharedKey := key }.restore p = r.restore p := by
  have hd : ∀ answer, translated { r with preSharedKey := key } answer = translated r answer := by
    intro answer
    simp only [translated, LegacyRecord.translate, securityOfCode_eq, h, ↓reduceIte, reduceCtorEq]
  rcases Int.lt_or_le r.channel.toInt 0 with hc | hc
  · rw [restore_of_negative hc]
    exact restore_of_negative (r := { r with preSharedKey := key }) hc p
  · rw [restore_of_nonneg hc, ← funext hd]
    exact restore_of_nonneg (r := { r with preSharedKey := key }) hc p

/-- A record restores exactly if it is restorable and the device answers, and
then to the settings that it stands for. A negative channel is refused before
the device is asked; a failure of the device is the outcome whatever else is
wrong; and what is left is refused as malformed, for a rule that the settings
break. A key that is not used has no part in any of this. -/
theorem restore_translates (r : LegacyRecord) (p : Provider) :
    ((∃ c, (r.restore p).1 = .ok c) ↔ r.Restorable ∧ ∃ answer, p = .ok answer) ∧
      (∀ c, (r.restore p).1 = .ok c ↔
        r.Restorable ∧ ∃ answer, p = .ok answer ∧ r.RestoresTo answer c.draft) ∧
      (r.channel.toInt < 0 →
        r.restore p = (.error (.malformed (.negativeLegacyChannel r.channel.toInt)), 0)) ∧
      (0 ≤ r.channel.toInt → ∀ e, p = .error e → r.restore p = (.error e, 1)) ∧
      (0 ≤ r.channel.toInt → ∀ answer, p = .ok answer → ¬ r.Restorable →
        ∃ d v, r.RestoresTo answer d ∧ d.build = .error v ∧
          r.restore p = (.error (.malformed (.legacyRejected v)), 1)) ∧
      (r.authType.toInt ≠ 4 → ∀ key, { r with preSharedKey := key }.restore p = r.restore p) := by
  refine ⟨⟨fun h => ?_, fun h => ?_⟩, fun c => restore_eq_ok_iff, fun hc => ?_, fun hc e hp => ?_,
    fun hc answer hp hr => ?_, fun h key => restore_of_unkeyed h key p⟩
  · obtain ⟨c, hc⟩ := h
    obtain ⟨hr, answer, hp, -⟩ := restore_eq_ok_iff.1 hc
    exact ⟨hr, answer, hp⟩
  · obtain ⟨hr, answer, hp⟩ := h
    have hd := restoresTo_translated hr.channel answer
    have hlawful := Draft.violation?_eq_none_iff.2 ((lawful_iff hd).2 hr)
    exact ⟨⟨_, hlawful⟩, restore_eq_ok_iff.2 ⟨hr, answer, hp, hd⟩⟩
  · exact restore_of_negative hc p
  · subst hp
    exact restore_of_nonneg hc _
  · subst hp
    exact restore_of_not_restorable hc hr

/-- The record of an older device with codes that no device knows and a short
key. -/
def pantry : LegacyRecord :=
  { ssid := some "pantry", band := 7, channel := 2147483647, preSharedKey := some "short"
    authType := -9 }

/-- What `pantry` restores to where the device does not shut down by itself. -/
def pantryRestored : Configuration where
  draft := { ssid := some "pantry", channel := 2147483647, autoShutdownEnabled := false }
  accepted := by decide

/-- The same with a use for its key. -/
def lockedPantry : LegacyRecord :=
  { pantry with authType := 4 }

/-- The key of `pantry` is left behind. Where it is used it is too short, which a
device that does not answer hides, and so does a negative channel. -/
theorem restore_translates_pantry :
    (pantry.Restorable ∧ pantry.RestoresTo false pantryRestored.draft ∧
      { pantry with preSharedKey := none }.restore (.ok false) = pantry.restore (.ok false)) ∧
      (¬ lockedPantry.Restorable ∧ ∃ v, lockedPantry.restore (.ok true) =
        (.error (.malformed (.legacyRejected v)), 1)) ∧
      lockedPantry.restore (.error (.unavailable "auto_shutdown_enabled" "gone")) =
        (.error (.unavailable "auto_shutdown_enabled" "gone"), 1) ∧
      { lockedPantry with channel := -3 }.restore (.ok true) =
        (.error (.malformed (.negativeLegacyChannel (-3))), 0) := by
  have hrestored : (pantry.restore (.ok false)).1 = .ok pantryRestored := by decide +kernel
  obtain ⟨hr, answer, hanswer, hd⟩ := ((restore_translates pantry (.ok false)).2.1 _).1 hrestored
  cases hanswer
  have hlocked : ¬ lockedPantry.Restorable := by
    intro h
    obtain ⟨key, hkey, hlow, -⟩ := h.key (by decide)
    cases hkey
    exact absurd hlow (by decide)
  obtain ⟨-, -, -, -, hrejected, -⟩ := restore_translates lockedPantry (.ok true)
  obtain ⟨-, v, -, -, hv⟩ := hrejected (by decide) true rfl hlocked
  refine ⟨⟨hr, hd, ?_⟩, ⟨hlocked, v, hv⟩, ?_, ?_⟩
  · exact (restore_translates pantry (.ok false)).2.2.2.2.2 (by decide) none
  · exact (restore_translates lockedPantry _).2.2.2.1 (by decide) _ rfl
  · exact (restore_translates { lockedPantry with channel := -3 } _).2.2.1 (by decide)

end Backup

end HotspotBackup
