import HotspotBackup.Proofs.AddressOctets
import HotspotBackup.Proofs.FieldReading

/-!
# The field writers keep to the grammar

`Field.Storable` says which values can be stored at all: the length of a
text and the count of a list are signed words, and so are the channels and
the client count. `Field.kept` is what a layout keeps of a value, which is
all but the high half of the shutdown timeout before the seventh layout.

* `spells_write`: what is written for a storable value spells what is kept.
* `storable_of_spells`, `kept_of_spells`: conversely, what is spelt can be
  stored and is kept as a whole.
-/

namespace HotspotBackup

namespace Wire

theorem length_eq {n : Nat} (h : n ≤ maxStoredNumber) : length n = Bytes.ofNat 4 n := by
  have hn : n ≤ 2147483647 := h
  rw [length, u32, UInt32.toNat_ofNat', Nat.mod_eq_of_lt (by omega)]

theorem spellsText_text? {s : Option String} (h : ∀ t, s = some t → Utf8.size t ≤ maxStoredNumber) :
    SpellsText s (text? s) := by
  cases s with
  | none => exact absent_eq
  | some t =>
    have ht := h t rfl
    refine ⟨Utf8.size t, Utf8.encode t, ht, rfl, rfl, ?_⟩
    rw [text?, length_eq ht]

theorem size_le_of_spellsText {s : Option String} {e : Bytes} (h : SpellsText s e) {t : String}
    (ht : s = some t) : Utf8.size t ≤ maxStoredNumber := by
  subst ht
  obtain ⟨n, raw, hn, rfl, hraw, -⟩ := h
  rw [Utf8.size, hraw]
  exact hn

theorem spellsAddress_text? (m : Option MacAddress) : SpellsAddress m (text? (m.map (·.text))) := by
  refine ⟨m.map (·.text), spellsText_text? fun t ht => ?_, ?_⟩
  · obtain ⟨a, -, rfl⟩ := Option.map_eq_some_iff.1 ht
    rw [Utf8.size, MacAddress.length_encode_text]
    decide
  · cases m with
    | none => exact .none
    | some a => exact .some a.speltBy_text

theorem spellsFlag_flag (b : Bool) : SpellsFlag b (flag b) := by
  refine ⟨if b then 1 else 0, rfl, ?_⟩
  cases b <;> rfl

theorem spellsAddresses_addresses {macs : List MacAddress} (h : macs.length ≤ maxStoredNumber) :
    SpellsAddresses macs (addresses macs) :=
  ⟨h, by rw [addresses, length_eq h]⟩

theorem length_entries_le (m : ChannelMap) : m.entries.length ≤ maxStoredNumber := by
  have := m.length_entries_lt
  unfold maxStoredNumber
  omega

theorem writeChannels_eq (m : ChannelMap) : Field.writeChannels m =
    Bytes.ofNat 4 m.entries.length ++ m.entries.flatMap entryOctets := by
  have hentry : ∀ entry : Band × UInt32,
      u32 (UInt32.ofNat entry.1.bits) ++ u32 entry.2 = entryOctets entry := by
    intro entry
    have hb := entry.1.bounds.2
    rw [u32, u32, entryOctets, UInt32.toNat_ofNat', Nat.mod_eq_of_lt (by omega)]
  rw [Field.writeChannels, length_eq (length_entries_le m)]
  simp only [hentry]

theorem spellsChannels_writeChannels {m : ChannelMap}
    (h : ∀ entry ∈ m.entries, entry.2.toNat ≤ maxStoredNumber) :
    SpellsChannels m (Field.writeChannels m) :=
  ⟨m.entries, length_entries_le m, m.nodup_bands, h, .refl _, writeChannels_eq m⟩

end Wire

open Wire

namespace Field

@[simp] theorem writeAll_nil (l : Layout) (d : Draft) : writeAll l d [] = [] := rfl

theorem writeAll_cons (l : Layout) (d : Draft) (f : Field) (fields : List Field) :
    writeAll l d (f :: fields) = f.write l (get d f) ++ writeAll l d fields :=
  List.flatMap_cons

theorem writeAll_append (l : Layout) (d : Draft) (fields more : List Field) :
    writeAll l d (fields ++ more) = writeAll l d fields ++ writeAll l d more :=
  List.flatMap_append

/-- The values of a field that a backup can store. -/
def Storable : (f : Field) → f.Value → Prop
  | ssid, v | passphrase, v => ∀ text, v = some text → Utf8.size text ≤ maxStoredNumber
  | channel, v | maxNumberOfClients, v => UInt32.toNat v ≤ maxStoredNumber
  | blockedClientList, v | allowedClientList, v => List.length v ≤ maxStoredNumber
  | channels, v => ∀ entry ∈ ChannelMap.entries v, entry.2.toNat ≤ maxStoredNumber
  | _, _ => True

/-- What a layout keeps of a value. -/
def kept (l : Layout) : (f : Field) → f.Value → f.Value
  | shutdownTimeoutMillis, v => if .v7 ≤ l then v else (v : UInt64) % 4294967296
  | _, v => v

theorem toNat_mod_word (v : UInt64) : (v % 4294967296).toNat = v.toUInt32.toNat := by
  rw [UInt64.toNat_mod, UInt64.toNat_toUInt32]
  rfl

/-- What is written for a value that can be stored spells what is kept of it. -/
theorem spells_write (l : Layout) {f : Field} {v : f.Value} (h : f.Storable v) :
    f.Spells l (f.kept l v) (f.write l v) := by
  cases f with
  | ssid | passphrase => exact spellsText_text? h
  | bssid => exact spellsAddress_text? v
  | band =>
    have hv := v.bounds.2
    show Wire.u32 (UInt32.ofNat v.bits) = Bytes.ofNat 4 v.bits
    rw [Wire.u32, UInt32.toNat_ofNat', Nat.mod_eq_of_lt (by omega)]
  | channel | maxNumberOfClients => exact ⟨h, rfl⟩
  | securityType => exact congrArg (Bytes.ofNat 4) (toNat_code_securityType v)
  | macRandomizationSetting => exact congrArg (Bytes.ofNat 4) (toNat_code_macRandomization v)
  | shutdownTimeoutMillis =>
    simp only [Spells, kept, write, writeTimeout]
    split
    · rfl
    · rw [toNat_mod_word]
      exact ⟨UInt32.toNat_lt _, rfl⟩
  | blockedClientList | allowedClientList => exact spellsAddresses_addresses h
  | channels => exact spellsChannels_writeChannels h
  | hiddenSsid | clientControlByUserEnabled | autoShutdownEnabled
  | bridgedModeOpportunisticShutdownEnabled | ieee80211axEnabled => exact spellsFlag_flag v

theorem storable_of_spells {l : Layout} {f : Field} {v : f.Value} {e : Bytes}
    (h : f.Spells l v e) : f.Storable v := by
  cases f with
  | ssid | passphrase => exact fun text ht => size_le_of_spellsText h ht
  | channel | maxNumberOfClients => exact h.1
  | blockedClientList | allowedClientList => exact h.1
  | channels =>
    obtain ⟨entries, -, -, hc, hp, -⟩ := h
    exact fun entry he => hc entry (hp.mem_iff.2 he)
  | bssid | band | securityType | hiddenSsid | shutdownTimeoutMillis
  | clientControlByUserEnabled | autoShutdownEnabled | bridgedModeOpportunisticShutdownEnabled
  | macRandomizationSetting | ieee80211axEnabled => trivial

theorem kept_of_spells {l : Layout} {f : Field} {v : f.Value} {e : Bytes}
    (h : f.Spells l v e) : f.kept l v = v := by
  by_cases hf : f = .shutdownTimeoutMillis
  · subst hf
    simp only [Spells] at h
    simp only [kept]
    by_cases hl : .v7 ≤ l
    · simp only [hl, ↓reduceIte]
    · simp only [hl, ↓reduceIte] at h ⊢
      have hw : v.toUInt32.toNat = v.toNat := by rw [UInt64.toNat_toUInt32]; omega
      rw [← UInt64.toNat_inj, toNat_mod_word, hw]
  · cases f <;> first | rfl | exact absurd rfl hf

end Field

end HotspotBackup
