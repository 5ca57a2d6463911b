import HotspotBackup.Proofs.Channels
import HotspotBackup.Proofs.DocumentMembers
import HotspotBackup.Proofs.JsonReports
import HotspotBackup.Proofs.Rules

/-!
# A draft that was shown in JSON is read back

The document of a draft has all of its fields, and each of them is read as the
value that it was shown for (`Field.ofJson?_content`). So the document of a
draft is that draft again (`Draft.parse?_report`), and the document of a
configuration that configuration (`Configuration.parse?_document`), in either
spacing.
-/

namespace HotspotBackup

/-! ## Single values -/

open Json.Quoted (content)
open Utf8 (octets)

namespace Scalar

theorem text?_toJson (s : String) : (text s).toJson.text? = some s :=
  Json.Quoted.decode?_content s

theorem choice?_toJson (s : String) : (text s).toJson.choice? = some s :=
  Json.Quoted.decode?_content s

theorem below?_toJson {n bound : Nat} (h : n < bound) :
    (number n).toJson.below? bound = some n := by
  rw [toJson, Json.below?, plainDecimal?_decimal]
  simp [Option.filter, h]

theorem u32?_toJson (n : UInt32) : (number n.toNat).toJson.u32? = some n := by
  have hn : n.toNat < UInt32.size := n.toNat_lt
  rw [Json.u32?, below?_toJson hn]
  exact congrArg some UInt32.ofNat_toNat

theorem u64?_toJson (n : UInt64) : (number n.toNat).toJson.u64? = some n := by
  have hn : n.toNat < UInt64.size := n.toNat_lt
  rw [Json.u64?, below?_toJson hn]
  exact congrArg some UInt64.ofNat_toNat

theorem ofJson?_address (m : MacAddress) : MacAddress.ofJson? (address m).toJson = some m := by
  rw [MacAddress.ofJson?, address, text?_toJson, Option.bind_eq_bind, Option.bind_some,
    MacAddress.parse?_text]

theorem ofJson?_band (b : Band) : Band.ofJson? (number b.bits).toJson = some b := by
  have hb : b.bits < UInt32.size := Nat.lt_trans b.bounds.2 (by decide)
  rw [Band.ofJson?, below?_toJson hb]
  exact Band.ofBits?_bits b

/-- A value that may be missing, where the reader of it is never shown null. -/
theorem optional?_toJson {read : Json → Option α} {scalar : α → Scalar}
    (h : ∀ a, read (scalar a).toJson = some a) (hnull : ∀ a, (scalar a).toJson ≠ .null)
    (v : Option α) : (Scalar.ofOption scalar v).toJson.optional? read = some v := by
  cases v with
  | none => rfl
  | some a =>
    rw [ofOption, Json.optional?]
    · rw [h]
      rfl
    · exact hnull a

theorem list?_toJson {read : Json → Option α} {scalar : α → Scalar}
    (h : ∀ a, read (scalar a).toJson = some a) (items : List α) :
    (Content.list (items.map scalar)).toJson.list? read = some items := by
  rw [Content.toJson, Json.list?, MacAddress.mapM_eq_some_iff, List.map_map, List.map_map]
  exact List.map_congr_left fun a _ => h a

end Scalar

theorem ChannelMap.entryOfJson?_member (entry : Band × UInt32) :
    entryOfJson? ((Label.number entry.1.bits).key, (Scalar.number entry.2.toNat).toJson) =
      some entry := by
  have hkey : (octets (Scalar.decimal entry.1.bits)).map (fun octet => Char.ofNat octet.toNat) =
      Scalar.decimal entry.1.bits := by
    have hascii : ∀ c ∈ Scalar.decimal entry.1.bits, c.toNat < 128 := fun c hc => by
      have := Scalar.toNat_of_isDigit (Scalar.isDigit_of_mem_decimal hc)
      omega
    rw [octets, Utf8.flatMap_encodeChar_ascii hascii, List.map_map]
    refine (List.map_congr_left fun c hc => ?_).trans (List.map_id _)
    exact Json.charOfNat_asciiOctet (hascii c hc)
  rw [entryOfJson?, Label.key, hkey, Scalar.plainDecimal?_decimal]
  simp [Scalar.u32?_toJson]

theorem ChannelMap.ofJson?_record (m : ChannelMap) :
    ofJson? (Content.record (m.entries.map fun e =>
      (.number e.1.bits, .number e.2.toNat))).toJson = some m := by
  have h : (m.entries.map fun e =>
      ((Label.number e.1.bits).key, (Scalar.number e.2.toNat).toJson)).mapM entryOfJson? =
        some m.entries := by
    rw [MacAddress.mapM_eq_some_iff, List.map_map]
    exact List.map_congr_left fun e _ => entryOfJson?_member e
  rw [Content.toJson, List.map_map, ofJson?]
  refine (congrArg (ofList <$> ·) h).trans ?_
  exact congrArg some m.ofList_entries

/-! ## Fields -/

namespace Field

/-- A field is read as the value that it was shown for. -/
theorem ofJson?_content (f : Field) (v : f.Value) : f.ofJson? (f.content v).toJson = some v := by
  cases f with
  | ssid | passphrase => exact Scalar.optional?_toJson Scalar.text?_toJson (fun _ => nofun) v
  | bssid => exact Scalar.optional?_toJson Scalar.ofJson?_address (fun _ => nofun) v
  | band => exact Scalar.ofJson?_band v
  | channel | maxNumberOfClients => exact Scalar.u32?_toJson v
  | securityType =>
    rw [content, Content.toJson, ofJson?, SecurityType.ofJson?, Scalar.choice?_toJson]
    exact SecurityType.ofName?_name v
  | macRandomizationSetting =>
    rw [content, Content.toJson, ofJson?, MacRandomization.ofJson?, Scalar.choice?_toJson]
    exact MacRandomization.ofName?_name v
  | shutdownTimeoutMillis => exact Scalar.u64?_toJson v
  | blockedClientList | allowedClientList => exact Scalar.list?_toJson Scalar.ofJson?_address v
  | channels => exact ChannelMap.ofJson?_record v
  | hiddenSsid | clientControlByUserEnabled | autoShutdownEnabled
  | bridgedModeOpportunisticShutdownEnabled | ieee80211axEnabled => rfl

end Field

/-! ## Drafts -/

namespace Draft

open HotspotBackup.Field (get)

/-- The document of a field of a draft. -/
def shown (d : Draft) (f : Field) : Json :=
  (f.content (get d f)).toJson

/-- The document of some fields of a draft gives their values. By induction on
the fields. -/
theorem gives_shown (d : Draft) (fields : List Field) :
    Gives (fields.map fun f => (octets (content f.name.toList), d.shown f))
      (fields.map fun f => ⟨f, get d f⟩) := by
  induction fields with
  | nil => exact .nil
  | cons f fields ih =>
    exact .field (Json.Quoted.decode?_content f.name) (Field.ofJson?_content f (get d f)) ih

theorem ofJson?_report (d : Draft) : ofJson? d.report.toJson = some d := by
  have hfields : (Field.all.map fun f => (⟨f, get d f⟩ : FieldValue)).map (·.1) = Field.all := by
    rw [List.map_map]
    exact List.map_id _
  have hn : ((Field.all.map fun f => (⟨f, get d f⟩ : FieldValue)).map (·.1)).Nodup := by
    rw [hfields]
    decide
  have hself : d.Assembles (Field.all.map fun f => ⟨f, get d f⟩) := by
    refine ⟨fun a ha => ?_, fun f hf => absurd (hfields ▸ Field.mem_all f) hf⟩
    obtain ⟨f, -, rfl⟩ := List.mem_map.1 ha
    rfl
  have hshown : d.report.toJson = .object (Field.all.map fun f =>
      (octets (content f.name.toList), d.shown f)) := by
    rw [report, Report.toJson, List.map_map]
    rfl
  rw [hshown, ofJson?_object (d.gives_shown Field.all) hn, (assembles_assign hn).unique hself]

/-- The document of a draft is that draft again, with nothing but white space
after it. -/
theorem parse?_report (s : Spacing) (d : Draft) {after : String}
    (h : ∀ c ∈ after.toList, Json.isBlank c = true) :
    parse? (Utf8.encode (d.report.json s ++ after)) = some d := by
  rw [parse?, Json.parse?_report s _ h, Option.bind_eq_bind, Option.bind_some, ofJson?_report]

end Draft

namespace Configuration

theorem parse?_of_draft {text : Bytes} {c : Configuration} (h : Draft.parse? text = some c.draft) :
    parse? text = some c := by
  have hbuild : c.draft.build = .ok c := Draft.build_eq_ok_iff.2 rfl
  rw [parse?, h, Option.bind_eq_bind, Option.bind_some, hbuild]
  rfl

/-- A configuration as a document. -/
def document (s : Spacing) (c : Configuration) : Bytes :=
  Utf8.encode (c.draft.report.json s)

/-- The document of a configuration is that configuration again, whether it is
read at once or as a draft that is then checked. -/
theorem parse?_document (s : Spacing) (c : Configuration) :
    parse? (c.document s) = some c ∧
      (Draft.parse? (c.document s)).map Draft.build = some (.ok c) := by
  have hdraft : Draft.parse? (c.document s) = some c.draft := by
    have h : Draft.parse? (Utf8.encode (c.draft.report.json s ++ "")) = some c.draft :=
      c.draft.parse?_report s (fun _ h => nomatch h)
    rwa [String.append_empty] at h
  have hbuild : c.draft.build = .ok c := Draft.build_eq_ok_iff.2 rfl
  refine ⟨parse?_of_draft hdraft, ?_⟩
  rw [hdraft, Option.map_some, hbuild]

end Configuration

end HotspotBackup
