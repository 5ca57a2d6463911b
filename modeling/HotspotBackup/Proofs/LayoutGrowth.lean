import HotspotBackup.Proofs.RoundTrip

/-!
# How the layouts grew

Each layout holds what the one before it holds, octet for octet, with some octets
put in between (`Backup.Grows`): at the end in the sixth and in the eighth layout,
before the low half of the timeout in the seventh, and behind the network name in
the ninth.

* `Field.write_of_width`: layouts with a timeout of one width write every field
  alike, and all layouts write alike every other field (`Field.write_of_ne`).
* `Field.writeTimeout_wide`: the wide timeout is its high half and the narrow one.
* `Backup.grows`: so a layout that names more fields writes the others as before.
* `Backup.layouts_grow`: this of whole backups, with their lengths.
-/

namespace HotspotBackup

open Wire

namespace Field

/-! ## One field and some fields -/

/-- Layouts with a timeout of one width write every field alike. -/
theorem write_of_width {l m : Layout} (h : .v7 ≤ l ↔ .v7 ≤ m) (f : Field) (v : f.Value) :
    f.write l v = f.write m v := by
  cases f with
  | shutdownTimeoutMillis => simp only [write, writeTimeout, h]
  | _ => rfl

/-- All layouts write every other field alike. -/
theorem write_of_ne {f : Field} (hf : f ≠ .shutdownTimeoutMillis) (l m : Layout) (v : f.Value) :
    f.write l v = f.write m v := by
  cases f <;> first | rfl | exact absurd rfl hf

theorem writeAll_of_width {l m : Layout} (h : .v7 ≤ l ↔ .v7 ≤ m) (d : Draft)
    (fields : List Field) : writeAll l d fields = writeAll m d fields :=
  List.flatMap_congr fun f _ => write_of_width h f _

theorem writeAll_of_not_mem {fields : List Field} (h : .shutdownTimeoutMillis ∉ fields)
    (l m : Layout) (d : Draft) : writeAll l d fields = writeAll m d fields :=
  List.flatMap_congr fun _ hf => write_of_ne (fun heq => h (heq ▸ hf)) l m _

/-! ## The timeout -/

theorem writeTimeout_narrow {l : Layout} (h : ¬ .v7 ≤ l) (millis : UInt64) :
    writeTimeout l millis = Bytes.ofNat 4 (millis.toNat % 2 ^ 32) := by
  rw [writeTimeout, if_neg h, Wire.u32, UInt64.toNat_toUInt32]

theorem writeTimeout_wide {l : Layout} (h : .v7 ≤ l) (millis : UInt64) :
    writeTimeout l millis =
      Bytes.ofNat 4 (millis.toNat / 2 ^ 32) ++ Bytes.ofNat 4 (millis.toNat % 2 ^ 32) := by
  have hlow := Bytes.ofNat_mod 4 millis.toNat
  rw [writeTimeout, if_pos h, Wire.u64]
  exact (Bytes.ofNat_add 4 4 millis.toNat).trans (congrArg (_ ++ ·) hlow.symm)

/-- The fields before the timeout that are as old as it. -/
def beforeTimeout : List Field :=
  [ssid, band, channel, passphrase, securityType, hiddenSsid, maxNumberOfClients]

/-- The fields behind the timeout in the sixth and the seventh layout. -/
def behindTimeout : List Field :=
  [clientControlByUserEnabled, blockedClientList, allowedClientList, autoShutdownEnabled]

end Field

namespace Backup

open HotspotBackup.Field

/-- The octets behind the tag of a backup in a layout. -/
def contents (l : Layout) (c : Configuration) : Bytes :=
  (encode l c).drop 4

theorem contents_eq (l : Layout) (c : Configuration) :
    contents l c = writeAll l c.draft l.fields := by
  rw [contents, encode]
  exact List.drop_left' (length_i32 _)

theorem encode_eq (l : Layout) (c : Configuration) :
    encode l c = Bytes.ofNat 4 l.number ++ contents l c := by
  rw [contents_eq, encode, i32_tag]
  rfl

/-- An address takes the length of its text and its text, and no address the mark of
an absent one. -/
theorem length_address (bssid : Option MacAddress) :
    (Wire.text? (bssid.map (·.text))).length = if bssid.isSome then 21 else 4 := by
  cases bssid with
  | none => rfl
  | some a =>
    simp only [Option.map_some, text?, List.length_append, length_length,
      MacAddress.length_encode_text, Option.isSome_some, ↓reduceIte]

/-- How the octets behind the tag grow from one layout to the next. -/
structure Grows (c : Configuration) : Prop where
  /-- Whether to shut down at all stands at the end. -/
  sixth : contents .v6 c = contents .v5 c ++ Wire.flag c.draft.autoShutdownEnabled
  /-- The high half of the timeout stands before its low half, which was there before. -/
  seventh : ∃ behind,
    contents .v6 c = writeAll .v6 c.draft beforeTimeout ++
      (Bytes.ofNat 4 (c.draft.shutdownTimeoutMillis.toNat % 2 ^ 32) ++ behind) ∧
    contents .v7 c = writeAll .v6 c.draft beforeTimeout ++
      (Bytes.ofNat 4 (c.draft.shutdownTimeoutMillis.toNat / 2 ^ 32) ++
        (Bytes.ofNat 4 (c.draft.shutdownTimeoutMillis.toNat % 2 ^ 32) ++ behind))
  /-- The settings of bridged hotspots and newer radios stand at the end. -/
  eighth : contents .v8 c = contents .v7 c ++
    (Wire.flag c.draft.bridgedModeOpportunisticShutdownEnabled ++
      (Wire.i32 c.draft.macRandomizationSetting.code ++
        (Bytes.ofNat 4 c.draft.channels.entries.length ++
          (c.draft.channels.entries.flatMap entryOctets ++
            Wire.flag c.draft.ieee80211axEnabled))))
  /-- The entries of the eighth layout are in ascending order. -/
  ascending : (c.draft.channels.entries.map (·.1.bits)).Pairwise (· < ·)
  /-- The address stands behind the network name. -/
  ninth : ∃ behind, contents .v8 c = Wire.text? c.draft.ssid ++ behind ∧
    contents .v9 c = Wire.text? c.draft.ssid ++ (Wire.text? (c.draft.bssid.map (·.text)) ++ behind)

theorem grows (c : Configuration) : Grows c where
  sixth := by
    have hfields : Layout.v6.fields = Layout.v5.fields ++ [autoShutdownEnabled] := by decide
    rw [contents_eq, contents_eq, hfields, writeAll_append, writeAll_of_width (m := .v5) (by decide),
      writeAll_cons]
    rfl
  seventh := by
    have hsix : Layout.v6.fields = beforeTimeout ++ shutdownTimeoutMillis :: behindTimeout := by
      decide
    have hseven : Layout.v7.fields = beforeTimeout ++ shutdownTimeoutMillis :: behindTimeout := by
      decide
    refine ⟨writeAll .v6 c.draft behindTimeout, ?_, ?_⟩
    · rw [contents_eq, hsix, writeAll_append, writeAll_cons, write, writeTimeout_narrow (by decide)]
      rfl
    · rw [contents_eq, hseven, writeAll_append, writeAll_cons, write, writeTimeout_wide (by decide),
        writeAll_of_not_mem (by decide) .v7 .v6, writeAll_of_not_mem (by decide) .v7 .v6,
        List.append_assoc]
      rfl
  eighth := by
    have hfields : Layout.v8.fields = Layout.v7.fields ++ [bridgedModeOpportunisticShutdownEnabled,
        macRandomizationSetting, channels, ieee80211axEnabled] := by decide
    rw [contents_eq, contents_eq, hfields, writeAll_append, writeAll_of_width (m := .v7) (by decide)]
    simp only [writeAll_cons, writeAll_nil, write, Field.get, writeChannels_eq, List.append_assoc,
      List.append_nil]
  ascending := List.pairwise_map.2 c.draft.channels.ascending
  ninth := by
    have hnine : Layout.v9.fields = ssid :: bssid :: Layout.v8.fields.tail := by decide
    have height : Layout.v8.fields = ssid :: Layout.v8.fields.tail := by decide
    refine ⟨writeAll .v8 c.draft Layout.v8.fields.tail, ?_, ?_⟩
    · rw [contents_eq, height, writeAll_cons]
      rfl
    · rw [contents_eq, hnine, writeAll_cons, writeAll_cons, writeAll_of_width (m := .v8) (by decide)]
      rfl

/-- Each layout holds what the one before it holds, with the octets in between that
`Grows` names, so the length of a backup in a layout is told by that in the one
before it. -/
theorem layouts_grow (c : Configuration) :
    (∀ l, encodeAs (.layout l) c = .ok (encode l c) ∧
      encode l c = Bytes.ofNat 4 l.number ++ contents l c) ∧
      Grows c ∧
      (encode .v6 c).length = (encode .v5 c).length + 1 ∧
      (encode .v7 c).length = (encode .v6 c).length + 4 ∧
      (encode .v8 c).length = (encode .v7 c).length + 10 + 8 * c.draft.channels.entries.length ∧
      (encode .v9 c).length = (encode .v8 c).length + if c.draft.bssid.isSome then 21 else 4 := by
  have hg := grows c
  have hlength : ∀ l, (encode l c).length = 4 + (contents l c).length := fun l => by
    rw [encode_eq, List.length_append, Bytes.length_ofNat]
  have h6 := congrArg List.length hg.sixth
  have h8 := congrArg List.length hg.eighth
  obtain ⟨between, hsix, hseven⟩ := hg.seventh
  obtain ⟨behind, height, hnine⟩ := hg.ninth
  simp only [List.length_append, Bytes.length_ofNat, length_flag, length_i32,
    length_flatMap_entryOctets] at h6 h8
  refine ⟨fun l => ⟨rfl, encode_eq l c⟩, hg, ?_, ?_, ?_, ?_⟩
  · rw [hlength, hlength, h6]
    omega
  · rw [hlength, hlength, hsix, hseven]
    simp only [List.length_append, Bytes.length_ofNat]
    omega
  · rw [hlength, hlength, h8]
    omega
  · rw [hlength, hlength, height, hnine, List.length_append, List.length_append,
      List.length_append, length_address]
    omega

end Backup

end HotspotBackup
