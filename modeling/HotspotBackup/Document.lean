import HotspotBackup.Field
import HotspotBackup.Json.Tree
import HotspotBackup.Report

/-!
# Drafts as documents

`Draft.report` shows a draft, one entry a field in wire order, and
`Draft.ofJson?` reads one from a JSON document: an object of any of the
fields, or an array of the first ones in wire order. Fields that the
document leaves out keep their defaults; members that are no field are
passed over; no field may come twice.

`Configuration.parse?` reads a draft and checks it.
-/

namespace HotspotBackup

/-! ## Showing -/

/-- A value that may be missing. -/
def Scalar.ofOption (scalar : α → Scalar) : Option α → Scalar
  | none => null
  | some a => scalar a

/-- An address as a value. -/
def Scalar.address (m : MacAddress) : Scalar :=
  text m.text

/-- The value of a field, as a report shows it. -/
def Field.content : (f : Field) → f.Value → Content
  | ssid, v => .scalar (.ofOption .text v)
  | bssid, v => .scalar (.ofOption .address v)
  | band, v => .scalar (.number v.bits)
  | channel, v => .scalar (.number v.toNat)
  | passphrase, v => .scalar (.ofOption .text v)
  | securityType, v => .scalar (.text v.name)
  | hiddenSsid, v => .scalar (.flag v)
  | maxNumberOfClients, v => .scalar (.number v.toNat)
  | shutdownTimeoutMillis, v => .scalar (.number v.toNat)
  | clientControlByUserEnabled, v => .scalar (.flag v)
  | blockedClientList, v => .list (v.map .address)
  | allowedClientList, v => .list (v.map .address)
  | autoShutdownEnabled, v => .scalar (.flag v)
  | bridgedModeOpportunisticShutdownEnabled, v => .scalar (.flag v)
  | macRandomizationSetting, v => .scalar (.text v.name)
  | channels, v => .record (v.entries.map fun e => (.number e.1.bits, .number e.2.toNat))
  | ieee80211axEnabled, v => .scalar (.flag v)

/-- The fields of a draft, in wire order. -/
def Draft.report (d : Draft) : Report :=
  Field.all.map fun f => (f.name, f.content (f.get d))

/-! ## Reading -/

namespace Json

/-- The value that a reader finds, or none where the document says null. -/
def optional? (read : Json → Option α) : Json → Option (Option α)
  | null => some none
  | v => some <$> read v

/-- The values that a reader finds in an array. -/
def list? (read : Json → Option α) : Json → Option (List α)
  | array items => items.mapM read
  | _ => none

/-- The name of a choice: a string, or the only member of an object, whose
value is null. -/
def choice? : Json → Option String
  | string raw => Quoted.decode? raw
  | object [(key, null)] => Quoted.decode? key
  | _ => none

/-- A number of 32 bits. -/
def u32? (v : Json) : Option UInt32 :=
  UInt32.ofNat <$> v.below? UInt32.size

/-- A number of 64 bits. -/
def u64? (v : Json) : Option UInt64 :=
  UInt64.ofNat <$> v.below? UInt64.size

end Json

/-- The band of a bit mask in a document. -/
def Band.ofJson? (v : Json) : Option Band := do
  ofBits? (← v.below? UInt32.size)

/-- The address that a document spells. -/
def MacAddress.ofJson? (v : Json) : Option MacAddress := do
  parse? (← v.text?)

/-- The security type that a document names. -/
def SecurityType.ofJson? (v : Json) : Option SecurityType := do
  ofName? (← v.choice?)

/-- The address setting that a document names. -/
def MacRandomization.ofJson? (v : Json) : Option MacRandomization := do
  ofName? (← v.choice?)

/-- A channel with its band: the key is the bit mask in plain decimal. -/
def ChannelMap.entryOfJson? (member : Bytes × Json) : Option (Band × UInt32) := do
  let bits ← Digits.plainDecimal? (member.1.map fun octet => Char.ofNat octet.toNat)
  return (← Band.ofBits? bits, ← member.2.u32?)

/-- The channels by band of an object, of which a later member wins. -/
def ChannelMap.ofJson? : Json → Option ChannelMap
  | .object members => ofList <$> members.mapM entryOfJson?
  | _ => none

/-- The value of a field in a document. -/
def Field.ofJson? : (f : Field) → Json → Option f.Value
  | ssid, v => v.optional? Json.text?
  | bssid, v => v.optional? MacAddress.ofJson?
  | band, v => Band.ofJson? v
  | channel, v => v.u32?
  | passphrase, v => v.optional? Json.text?
  | securityType, v => SecurityType.ofJson? v
  | hiddenSsid, v => v.flag?
  | maxNumberOfClients, v => v.u32?
  | shutdownTimeoutMillis, v => v.u64?
  | clientControlByUserEnabled, v => v.flag?
  | blockedClientList, v => v.list? MacAddress.ofJson?
  | allowedClientList, v => v.list? MacAddress.ofJson?
  | autoShutdownEnabled, v => v.flag?
  | bridgedModeOpportunisticShutdownEnabled, v => v.flag?
  | macRandomizationSetting, v => MacRandomization.ofJson? v
  | channels, v => ChannelMap.ofJson? v
  | ieee80211axEnabled, v => v.flag?

namespace Draft

/-- The draft with some fields replaced by the values of a document. -/
def assign? : List (Field × Json) → Draft → Option Draft
  | [], d => some d
  | (f, v) :: rest, d => do assign? rest (f.set d (← f.ofJson? v))

/-- A member of an object by its field; none for a member that is no field.
Its name must be text in any case. -/
def member? (member : Bytes × Json) : Option (Option (Field × Json)) := do
  let name ← Json.Quoted.decode? member.1
  return (Field.ofName? name).map (·, member.2)

/-- The members of an object that are fields. -/
def members? (members : List (Bytes × Json)) : Option (List (Field × Json)) := do
  return (← members.mapM member?).filterMap id

/-- The draft of a document. -/
def ofJson? : Json → Option Draft
  | .object members => do
    let assignments ← members? members
    if (assignments.map (·.1)).Nodup then assign? assignments {} else none
  | .array items =>
    if items.length ≤ Field.all.length then assign? (Field.all.zip items) {} else none
  | _ => none

/-- The draft of the text of a document. -/
def parse? (text : Bytes) : Option Draft := do
  ofJson? (← Json.parse? text)

end Draft

/-- The configuration of the text of a document. -/
def Configuration.parse? (text : Bytes) : Option Configuration := do
  (← Draft.parse? text).build.toOption

end HotspotBackup
