import HotspotBackup.Proofs.FieldWriting
import HotspotBackup.Proofs.Restoring

/-!
# Backing up and restoring

A backup in a layout restores to what the layout keeps of a configuration
(`Configuration.reduce`): settings that it does not carry go back to their
defaults, the timeout loses its high half before the seventh layout, and the
device is asked for the automatic shutdown before the sixth.

* `decode_encodeAs`: this holds of every configuration whose passphrase and
  lists are not too long for a signed word, and of no other, since of a
  longer length only the low 32 bits are written.
-/

namespace HotspotBackup

/-- What is left of a draft after a backup in a layout, where the device
answers `answer` if it is asked. -/
def Draft.reduce (l : Layout) (answer : Bool) (d : Draft) : Draft :=
  { d with
    bssid := if .v9 ≤ l then d.bssid else ({} : Draft).bssid
    shutdownTimeoutMillis :=
      if .v7 ≤ l then d.shutdownTimeoutMillis else d.shutdownTimeoutMillis % 4294967296
    autoShutdownEnabled := if .v6 ≤ l then d.autoShutdownEnabled else answer
    bridgedModeOpportunisticShutdownEnabled :=
      if .v8 ≤ l then d.bridgedModeOpportunisticShutdownEnabled
      else ({} : Draft).bridgedModeOpportunisticShutdownEnabled
    macRandomizationSetting :=
      if .v8 ≤ l then d.macRandomizationSetting else ({} : Draft).macRandomizationSetting
    channels := if .v8 ≤ l then d.channels else ({} : Draft).channels
    ieee80211axEnabled :=
      if .v8 ≤ l then d.ieee80211axEnabled else ({} : Draft).ieee80211axEnabled }

/-- The passphrase and the lists of a draft are counted by signed words. -/
structure Draft.Fits (d : Draft) : Prop where
  passphrase : ∀ phrase, d.passphrase = some phrase → Utf8.size phrase ≤ maxStoredNumber
  blocked : d.blockedClientList.length ≤ maxStoredNumber
  allowed : d.allowedClientList.length ≤ maxStoredNumber

/-! ## Reduction -/

/-- A reduced draft obeys the rules that the whole one obeys. -/
theorem Draft.Lawful.reduce {d : Draft} (h : d.Lawful) (l : Layout) (answer : Bool) :
    (d.reduce l answer).Lawful where
  ssid := h.ssid
  needed := h.needed
  passphrase := h.passphrase
  single := by
    show ∀ band ∈ (if .v8 ≤ l then d.channels else ∅).bands, _
    split
    · exact h.single
    · exact fun band hb => (nomatch hb)
  channel := h.channel
  channels := by
    show ∀ entry ∈ (if .v8 ≤ l then d.channels else ∅).entries, _
    split
    · exact h.channels
    · exact fun entry he => (nomatch he)
  clients := h.clients

/-- What is left of a configuration after a backup in a layout. -/
def Configuration.reduce (l : Layout) (answer : Bool) (c : Configuration) : Configuration where
  draft := c.draft.reduce l answer
  accepted := Draft.violation?_eq_none_iff.2 (c.lawful.reduce l answer)

theorem Configuration.ext_draft {c c' : Configuration} (h : c.draft = c'.draft) : c = c' := by
  cases c
  cases c'
  cases h
  rfl

/-- The newest layout keeps everything. -/
theorem Configuration.reduce_v9 (answer : Bool) (c : Configuration) : c.reduce .v9 answer = c :=
  Configuration.ext_draft rfl

namespace Field

theorem get_reduce_of_mem {l : Layout} {f : Field} (hf : f ∈ l.fields) (answer : Bool)
    (d : Draft) : get (d.reduce l answer) f = kept l f (get d f) := by
  have hc := Layout.mem_fields.1 hf
  cases f with
  | bssid | autoShutdownEnabled | bridgedModeOpportunisticShutdownEnabled
  | macRandomizationSetting | channels | ieee80211axEnabled => exact if_pos hc
  | ssid | band | channel | passphrase | securityType | hiddenSsid | maxNumberOfClients
  | shutdownTimeoutMillis | clientControlByUserEnabled | blockedClientList
  | allowedClientList => rfl

/-- What the layout does not carry goes back to its default, or to the answer
of the device. -/
theorem get_reduce_of_absent {l : Layout} {f : Field} (hf : f ∈ l.absentFields) (answer : Bool)
    (d : Draft) : get (d.reduce l answer) f = get { autoShutdownEnabled := answer } f := by
  have hc := mt Layout.mem_fields.2 (Layout.mem_absentFields.1 hf)
  cases f with
  | bssid | autoShutdownEnabled | bridgedModeOpportunisticShutdownEnabled
  | macRandomizationSetting | channels | ieee80211axEnabled => exact if_neg hc
  | ssid | band | channel | passphrase | securityType | hiddenSsid | maxNumberOfClients
  | shutdownTimeoutMillis | clientControlByUserEnabled | blockedClientList
  | allowedClientList => exact absurd (by cases l <;> decide) hc

/-- Of a configuration that fits, every setting can be stored. -/
theorem storable_of_fits {d : Draft} (hl : d.Lawful) (hf : d.Fits) (f : Field) :
    f.Storable (get d f) := by
  cases f with
  | ssid =>
    intro name hn
    have := hl.ssid name hn
    unfold maxSsidSize at this
    unfold maxStoredNumber
    omega
  | passphrase => exact hf.passphrase
  | channel => exact hl.channel
  | maxNumberOfClients => exact hl.clients
  | blockedClientList => exact hf.blocked
  | allowedClientList => exact hf.allowed
  | channels => exact hl.channels
  | bssid | band | securityType | hiddenSsid | shutdownTimeoutMillis
  | clientControlByUserEnabled | autoShutdownEnabled | bridgedModeOpportunisticShutdownEnabled
  | macRandomizationSetting | ieee80211axEnabled => trivial

/-- What is written of a draft spells another one that holds what is kept. -/
theorem spellsAll_writeAll {l : Layout} {fields : List Field} {d d' : Draft}
    (hs : ∀ f ∈ fields, f.Storable (get d f)) (hk : ∀ f ∈ fields, get d' f = kept l f (get d f)) :
    SpellsAll l fields d' (writeAll l d fields) :=
  ⟨fun f => f.write l (get d f), fun f hf => hk f hf ▸ spells_write l (hs f hf), rfl⟩

end Field

namespace Backup

open HotspotBackup.Field

/-! ## Restoring what was written -/

/-- What restoring a backup in a layout makes of a configuration: only the
oldest layout needs an answer of the device, and fails with it. -/
def restored (l : Layout) (p : Provider) (c : Configuration) : Except BackupError Configuration :=
  if l = .v5 then (fun answer => c.reduce l answer) <$> p else .ok (c.reduce l true)

theorem readFormat_encode (l : Layout) (c : Configuration) :
    readFormat (encode l c) = .ok (.layout l, writeAll l c.draft l.fields) := by
  rw [encode, i32_tag, readFormat_tag]

/-- A configuration that fits is restored as its reduced one. -/
theorem decode_encode {c : Configuration} (hf : c.draft.Fits) (l : Layout) (p : Provider) :
    decode (encode l c) p = (restored l p c, if l = .v5 then 1 else 0) := by
  have hs : l.Spells (c.draft.reduce l true) (writeAll l c.draft l.fields) :=
    spellsAll_writeAll (fun f _ => storable_of_fits c.lawful hf f)
      fun f hf => get_reduce_of_mem hf true c.draft
  -- the answer `true` is the default, so that the draft is as it is before it is filled
  have hd : ∀ f ∈ l.absentFields, get (c.draft.reduce l true) f = get {} f :=
    fun f hf => get_reduce_of_absent hf true c.draft
  have hc : ∀ answer, settle (c.draft.reduce l answer) = .ok (c.reduce l answer) :=
    fun answer => settle_eq_ok_iff.2 rfl
  rw [decode_of_layout (readFormat_encode l c), decodeLayout_of_spells hs hd]
  by_cases hl : l = .v5
  · subst hl
    rw [complete_v5]
    cases p with
    | error e => rfl
    | ok answer => exact Prod.ext (hc answer) rfl
  · rw [complete_of_ne hl, hc, restored, if_neg hl, if_neg hl]

/-- Whatever is restored from a layout fits. -/
theorem fits_of_decodeLayout {l : Layout} {b : Bytes} {p : Provider} {c : Configuration}
    (h : (decodeLayout l b p).1 = .ok c) : c.draft.Fits := by
  obtain ⟨⟨part, hp, -⟩, -⟩ := decodeLayout_eq_ok_iff.1 h
  have hs : ∀ f : Field, f.since = .v5 → f.Storable (get c.draft f) := by
    intro f hf
    have hm : f ∈ l.fields := Layout.mem_fields.2 (by rw [hf]; cases l <;> decide)
    exact storable_of_spells (hp f hm)
  exact ⟨hs passphrase rfl, hs blockedClientList rfl, hs allowedClientList rfl⟩

/-- A backup in a layout restores to the reduced configuration exactly if the
passphrase and the lists of the whole one fit. The newest layout keeps all of
it, and is what backups are written in. -/
theorem decode_encodeAs (l : Layout) (c : Configuration) (p : Provider) :
    ∃ b, encodeAs (.layout l) c = .ok b ∧
      (c.draft.Fits → decode b p = (restored l p c, if l = .v5 then 1 else 0)) ∧
      (¬ c.draft.Fits → ∀ answer, (decode b p).1 ≠ .ok (c.reduce l answer)) ∧
      (l = .v9 → restored l p c = .ok c ∧ encodeCurrent c = b) := by
  refine ⟨encode l c, rfl, fun h => decode_encode h l p, fun h answer hc => ?_, fun h => ?_⟩
  · rw [decode_of_layout (readFormat_encode l c)] at hc
    have hr : (c.draft.reduce l answer).Fits := fits_of_decodeLayout hc
    exact h ⟨hr.passphrase, hr.blocked, hr.allowed⟩
  · subst h
    exact ⟨congrArg Except.ok (c.reduce_v9 _), rfl⟩

/-- A configuration with more blocked clients than a signed word counts. -/
def crowded : Configuration where
  draft := { blockedClientList := List.replicate 2147483648 ⟨2, 0, 0, 0, 0, 1⟩ }
  accepted := by decide

theorem decode_encodeAs_default_and_crowded :
    (Configuration.default.draft.Fits ∧
      ∃ b, encodeAs (.layout .v5) .default = .ok b ∧
        decode b (.ok false) = (.ok (Configuration.default.reduce .v5 false), 1)) ∧
    ¬ crowded.draft.Fits ∧
      ∃ b, encodeAs (.layout .v9) crowded = .ok b ∧ (decode b (.ok true)).1 ≠ .ok crowded := by
  have hd : Configuration.default.draft.Fits := ⟨fun _ h => (nomatch h), by decide, by decide⟩
  have hc : ¬ crowded.draft.Fits := by
    intro h
    have hb := h.blocked
    have hn : crowded.draft.blockedClientList.length = 2147483648 := List.length_replicate
    rw [hn] at hb
    exact absurd hb (by decide)
  obtain ⟨b, hb, hfits, -⟩ := decode_encodeAs .v5 .default (.ok false)
  obtain ⟨b', hb', -, hnot, -⟩ := decode_encodeAs .v9 crowded (.ok true)
  exact ⟨⟨hd, b, hb, hfits hd⟩, hc, b', hb', crowded.reduce_v9 true ▸ hnot hc true⟩

end Backup

end HotspotBackup
