import HotspotBackup.Asking
import HotspotBackup.Layout
import HotspotBackup.Wire.Reader

/-!
# The field table

One row per setting, in wire order (`Field.all`). A row gives the type of
the setting, its place in a draft (`get`, `set`), the layout that first
carries it (`since`), how it is written and read, and what a restore does
where a layout does not carry it (`fill`).

Writing, reading and restoring all walk this one table: a layout carries
the rows that are not newer than itself (`Layout.fields`). The laws
`get_set` and `get_set_ne` say that each row is a place of its own.
-/

namespace HotspotBackup

/-- A setting of a hotspot. -/
inductive Field where
  | ssid
  | bssid
  | band
  | channel
  | passphrase
  | securityType
  | hiddenSsid
  | maxNumberOfClients
  | shutdownTimeoutMillis
  | clientControlByUserEnabled
  | blockedClientList
  | allowedClientList
  | autoShutdownEnabled
  | bridgedModeOpportunisticShutdownEnabled
  | macRandomizationSetting
  | channels
  | ieee80211axEnabled
  deriving DecidableEq, Repr

namespace Field

/-- Every field, in wire order. -/
def all : List Field :=
  [ssid, bssid, band, channel, passphrase, securityType, hiddenSsid, maxNumberOfClients,
    shutdownTimeoutMillis, clientControlByUserEnabled, blockedClientList, allowedClientList,
    autoShutdownEnabled, bridgedModeOpportunisticShutdownEnabled, macRandomizationSetting,
    channels, ieee80211axEnabled]

theorem mem_all (f : Field) : f ∈ all := by cases f <;> decide

/-- The name of a field in documents and messages. -/
def name : Field → String
  | ssid => "ssid"
  | bssid => "bssid"
  | band => "band"
  | channel => "channel"
  | passphrase => "passphrase"
  | securityType => "security_type"
  | hiddenSsid => "hidden_ssid"
  | maxNumberOfClients => "max_number_of_clients"
  | shutdownTimeoutMillis => "shutdown_timeout_millis"
  | clientControlByUserEnabled => "client_control_by_user_enabled"
  | blockedClientList => "blocked_client_list"
  | allowedClientList => "allowed_client_list"
  | autoShutdownEnabled => "auto_shutdown_enabled"
  | bridgedModeOpportunisticShutdownEnabled => "bridged_mode_opportunistic_shutdown_enabled"
  | macRandomizationSetting => "mac_randomization_setting"
  | channels => "channels"
  | ieee80211axEnabled => "ieee80211ax_enabled"

/-- The field of a name. -/
def ofName? (name : String) : Option Field :=
  all.find? (·.name = name)

/-- The first layout that carries a field. -/
def since : Field → Layout
  | bssid => .v9
  | autoShutdownEnabled => .v6
  | bridgedModeOpportunisticShutdownEnabled | macRandomizationSetting | channels
  | ieee80211axEnabled => .v8
  | _ => .v5

/-! ## Values -/

/-- The values of a field. -/
abbrev Value : Field → Type
  | ssid | passphrase => Option String
  | bssid => Option MacAddress
  | band => Band
  | channel | maxNumberOfClients => UInt32
  | securityType => SecurityType
  | shutdownTimeoutMillis => UInt64
  | blockedClientList | allowedClientList => List MacAddress
  | macRandomizationSetting => MacRandomization
  | channels => ChannelMap
  | hiddenSsid | clientControlByUserEnabled | autoShutdownEnabled
  | bridgedModeOpportunisticShutdownEnabled | ieee80211axEnabled => Bool

/-- The value of a field in a draft. -/
def get (d : Draft) : (f : Field) → f.Value
  | ssid => d.ssid
  | bssid => d.bssid
  | band => d.band
  | channel => d.channel
  | passphrase => d.passphrase
  | securityType => d.securityType
  | hiddenSsid => d.hiddenSsid
  | maxNumberOfClients => d.maxNumberOfClients
  | shutdownTimeoutMillis => d.shutdownTimeoutMillis
  | clientControlByUserEnabled => d.clientControlByUserEnabled
  | blockedClientList => d.blockedClientList
  | allowedClientList => d.allowedClientList
  | autoShutdownEnabled => d.autoShutdownEnabled
  | bridgedModeOpportunisticShutdownEnabled => d.bridgedModeOpportunisticShutdownEnabled
  | macRandomizationSetting => d.macRandomizationSetting
  | channels => d.channels
  | ieee80211axEnabled => d.ieee80211axEnabled

/-- The draft with one field replaced. -/
def set (d : Draft) : (f : Field) → f.Value → Draft
  | ssid, v => { d with ssid := v }
  | bssid, v => { d with bssid := v }
  | band, v => { d with band := v }
  | channel, v => { d with channel := v }
  | passphrase, v => { d with passphrase := v }
  | securityType, v => { d with securityType := v }
  | hiddenSsid, v => { d with hiddenSsid := v }
  | maxNumberOfClients, v => { d with maxNumberOfClients := v }
  | shutdownTimeoutMillis, v => { d with shutdownTimeoutMillis := v }
  | clientControlByUserEnabled, v => { d with clientControlByUserEnabled := v }
  | blockedClientList, v => { d with blockedClientList := v }
  | allowedClientList, v => { d with allowedClientList := v }
  | autoShutdownEnabled, v => { d with autoShutdownEnabled := v }
  | bridgedModeOpportunisticShutdownEnabled, v =>
    { d with bridgedModeOpportunisticShutdownEnabled := v }
  | macRandomizationSetting, v => { d with macRandomizationSetting := v }
  | channels, v => { d with channels := v }
  | ieee80211axEnabled, v => { d with ieee80211axEnabled := v }

@[simp] theorem get_set (d : Draft) (f : Field) (v : f.Value) : get (set d f v) f = v := by
  cases f <;> rfl

theorem get_set_ne (d : Draft) {f g : Field} (v : f.Value) (h : g ≠ f) :
    get (set d f v) g = get d g := by
  cases f <;> cases g <;> first | rfl | exact absurd rfl h

/-- A draft is its fields. -/
theorem ext_get {d e : Draft} (h : ∀ f, get d f = get e f) : d = e := by
  cases d; cases e
  simp only [Draft.mk.injEq]
  exact ⟨h ssid, h bssid, h band, h channel, h passphrase, h securityType, h hiddenSsid,
    h maxNumberOfClients, h shutdownTimeoutMillis, h clientControlByUserEnabled,
    h blockedClientList, h allowedClientList, h autoShutdownEnabled,
    h bridgedModeOpportunisticShutdownEnabled, h macRandomizationSetting, h channels,
    h ieee80211axEnabled⟩

/-! ## Writing -/

/-- The channels by band: a count, then a band and a channel for each entry. -/
def writeChannels (m : ChannelMap) : Bytes :=
  Wire.length m.entries.length ++
    m.entries.flatMap fun e => Wire.u32 (UInt32.ofNat e.1.bits) ++ Wire.u32 e.2

/-- The shutdown timeout: a 64-bit word since the seventh layout, and its
low 32 bits before. -/
def writeTimeout (l : Layout) (millis : UInt64) : Bytes :=
  if .v7 ≤ l then Wire.u64 millis else Wire.u32 millis.toUInt32

/-- A value as a layout writes it. -/
def write (l : Layout) : (f : Field) → f.Value → Bytes
  | ssid, v => Wire.text? v
  | bssid, v => Wire.text? (v.map (·.text))
  | band, v => Wire.u32 (UInt32.ofNat v.bits)
  | channel, v => Wire.u32 v
  | passphrase, v => Wire.text? v
  | securityType, v => Wire.i32 v.code
  | hiddenSsid, v => Wire.flag v
  | maxNumberOfClients, v => Wire.u32 v
  | shutdownTimeoutMillis, v => writeTimeout l v
  | clientControlByUserEnabled, v => Wire.flag v
  | blockedClientList, v => Wire.addresses v
  | allowedClientList, v => Wire.addresses v
  | autoShutdownEnabled, v => Wire.flag v
  | bridgedModeOpportunisticShutdownEnabled, v => Wire.flag v
  | macRandomizationSetting, v => Wire.i32 v.code
  | channels, v => writeChannels v
  | ieee80211axEnabled, v => Wire.flag v

/-! ## Reading -/

open Wire (Reader)

/-- A band by its bit mask. -/
def readBand (field : String) : Reader Band := do
  let bits ← Reader.u32 field
  Reader.ofOption (.badBand field bits.toNat) (Band.ofBits? bits.toNat)

/-- An address as text, or none. -/
def readAddress (field : String) : Reader (Option MacAddress) := do
  match ← Reader.text? field with
  | none => return none
  | some text => some <$> Reader.ofOption (.badAddress field text) (MacAddress.parse? text)

/-- A security type by its code. -/
def readSecurityType (field : String) : Reader SecurityType := do
  let code ← Reader.i32 field
  Reader.ofOption (.unknownSecurityType code.toInt) (SecurityType.ofCode? code)

/-- An address setting by its code. -/
def readMacRandomization (field : String) : Reader MacRandomization := do
  let code ← Reader.i32 field
  Reader.ofOption (.unknownMacRandomization code.toInt) (MacRandomization.ofCode? code)

/-- The next `n` entries, on top of those already read. No band may come twice. -/
def readEntries (field : String) : Nat → ChannelMap → Reader ChannelMap
  | 0, m => pure m
  | n + 1, m => do
    let band ← readBand field
    let channel ← Reader.nonNegative field
    if (m.get? band).isSome then Reader.fail (.duplicateChannel band)
    else readEntries field n (m.insert band channel)

/-- Channels by band, after their count. -/
def readChannels (field : String) : Reader ChannelMap := do
  readEntries field (← Reader.count field 8) ∅

/-- The shutdown timeout, in the width that a layout gives it. -/
def readTimeout (l : Layout) (field : String) : Reader UInt64 :=
  if .v7 ≤ l then Reader.u64 field else UInt32.toUInt64 <$> Reader.u32 field

/-- The reader of a value in a layout. -/
def read (l : Layout) : (f : Field) → Reader f.Value
  | ssid => Reader.text? ssid.name
  | bssid => readAddress bssid.name
  | band => readBand band.name
  | channel => Reader.nonNegative channel.name
  | passphrase => Reader.text? passphrase.name
  | securityType => readSecurityType securityType.name
  | hiddenSsid => Reader.flag hiddenSsid.name
  | maxNumberOfClients => Reader.nonNegative maxNumberOfClients.name
  | shutdownTimeoutMillis => readTimeout l shutdownTimeoutMillis.name
  | clientControlByUserEnabled => Reader.flag clientControlByUserEnabled.name
  | blockedClientList => Reader.addresses blockedClientList.name
  | allowedClientList => Reader.addresses allowedClientList.name
  | autoShutdownEnabled => Reader.flag autoShutdownEnabled.name
  | bridgedModeOpportunisticShutdownEnabled =>
    Reader.flag bridgedModeOpportunisticShutdownEnabled.name
  | macRandomizationSetting => readMacRandomization macRandomizationSetting.name
  | channels => readChannels channels.name
  | ieee80211axEnabled => Reader.flag ieee80211axEnabled.name

/-! ## Walks over the table -/

/-- What a restore puts where the layout carries no value: the device is
asked about its automatic shutdown, and all else stays at its default. -/
def fill (d : Draft) : Field → Asking Draft
  | autoShutdownEnabled => (fun b => { d with autoShutdownEnabled := b }) <$> Asking.ask
  | _ => pure d

/-- The values of some fields of a draft, one after another. -/
def writeAll (l : Layout) (d : Draft) (fields : List Field) : Bytes :=
  fields.flatMap fun f => f.write l (get d f)

/-- Reading of some fields, one after another, into a draft. -/
def readAll (l : Layout) : List Field → Draft → Reader Draft
  | [], d => pure d
  | f :: rest, d => do readAll l rest (set d f (← f.read l))

/-- Filling of some fields, one after another, of a draft. -/
def fillAll : List Field → Draft → Asking Draft
  | [], d => pure d
  | f :: rest, d => do fillAll rest (← fill d f)

end Field

namespace Layout

/-- Whether a layout carries a field. -/
def carries (l : Layout) (f : Field) : Bool :=
  f.since ≤ l

/-- The fields that a layout carries, in wire order. -/
def fields (l : Layout) : List Field :=
  Field.all.filter l.carries

/-- The fields that a layout does not carry. -/
def absentFields (l : Layout) : List Field :=
  Field.all.filter (!l.carries ·)

end Layout

/-- The fields that a format carries; a legacy record has fields of its own. -/
def Format.fields : Format → List Field
  | .legacy => []
  | .layout l => l.fields

/-- The fields of the table that a format does not carry. -/
def Format.absentFields : Format → List Field
  | .legacy => Field.all
  | .layout l => l.absentFields

end HotspotBackup
