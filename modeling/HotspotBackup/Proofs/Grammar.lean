import HotspotBackup.LegacyRecord
import HotspotBackup.Proofs.AddressText

/-!
# The grammar of payloads

Which octets stand for which values, stated without the readers and writers:
`Field.Spells l f v e` if `e` is an encoding of the value `v` of the field
`f` in the layout `l`, and `Layout.Spells l d e` if `e` is one encoding
after another of the settings in `d` that the layout carries, in wire order.
`Layout.Filled` says what stands in a restored draft where the layout carries
nothing, and `LegacyRecord.Spells` gives the encodings of bare legacy records.

A value may have several encodings: a flag is true in any octet but zero, an
address is text in any of its notations, and the channels of a map may stand
in any order.
-/

namespace HotspotBackup

namespace Wire

/-- An absent text is the length `-1`; any other is its length, which is not
negative, and as many octets of UTF-8. -/
def SpellsText : Option String → Bytes → Prop
  | none, e => e = [0xFF, 0xFF, 0xFF, 0xFF]
  | some s, e => ∃ n raw, n ≤ maxStoredNumber ∧ raw.length = n ∧ Utf8.encode s = raw ∧
      e = Bytes.ofNat 4 n ++ raw

/-- An address is a text in one of its notations. -/
def SpellsAddress (m : Option MacAddress) (e : Bytes) : Prop :=
  ∃ text, SpellsText text e ∧ Option.Rel MacAddress.SpeltBy m text

/-- A number is a word that is not negative as a signed one. -/
def SpellsNumber (n : UInt32) (e : Bytes) : Prop :=
  n.toNat ≤ maxStoredNumber ∧ e = Bytes.ofNat 4 n.toNat

/-- A flag is any octet, and true if that is not zero. -/
def SpellsFlag (b : Bool) (e : Bytes) : Prop :=
  ∃ octet : UInt8, e = [octet] ∧ b = (octet != 0)

/-- Addresses are their count and the octets of each. -/
def SpellsAddresses (macs : List MacAddress) (e : Bytes) : Prop :=
  macs.length ≤ maxStoredNumber ∧
    e = Bytes.ofNat 4 macs.length ++ macs.flatMap (·.octets)

/-- One entry of a channel map. -/
def entryOctets (entry : Band × UInt32) : Bytes :=
  Bytes.ofNat 4 entry.1.bits ++ Bytes.ofNat 4 entry.2.toNat

/-- Channels are their count and the entries of the map in any order, no
band twice and no channel negative. -/
def SpellsChannels (m : ChannelMap) (e : Bytes) : Prop :=
  ∃ entries : List (Band × UInt32), entries.length ≤ maxStoredNumber ∧
    (entries.map (·.1)).Nodup ∧ (∀ entry ∈ entries, entry.2.toNat ≤ maxStoredNumber) ∧
    entries.Perm m.entries ∧ e = Bytes.ofNat 4 entries.length ++ entries.flatMap entryOctets

end Wire

open Wire

/-- The encodings of the values of a field in a layout. -/
def Field.Spells (l : Layout) : (f : Field) → f.Value → Bytes → Prop
  | ssid, v, e => SpellsText v e
  | bssid, v, e => SpellsAddress v e
  | band, v, e => e = Bytes.ofNat 4 v.bits
  | channel, v, e => SpellsNumber v e
  | passphrase, v, e => SpellsText v e
  | securityType, v, e => e = Bytes.ofNat 4 v.code.toInt.toNat
  | hiddenSsid, v, e => SpellsFlag v e
  | maxNumberOfClients, v, e => SpellsNumber v e
  | shutdownTimeoutMillis, v, e =>
    if .v7 ≤ l then e = Bytes.ofNat 8 v.toNat
    else v.toNat < 4294967296 ∧ e = Bytes.ofNat 4 v.toNat
  | clientControlByUserEnabled, v, e => SpellsFlag v e
  | blockedClientList, v, e => SpellsAddresses v e
  | allowedClientList, v, e => SpellsAddresses v e
  | autoShutdownEnabled, v, e => SpellsFlag v e
  | bridgedModeOpportunisticShutdownEnabled, v, e => SpellsFlag v e
  | macRandomizationSetting, v, e => e = Bytes.ofNat 4 v.code.toInt.toNat
  | channels, v, e => SpellsChannels v e
  | ieee80211axEnabled, v, e => SpellsFlag v e

/-- Some fields of a draft, one encoding after another. -/
def Field.SpellsAll (l : Layout) (fields : List Field) (d : Draft) (e : Bytes) : Prop :=
  ∃ part : Field → Bytes, (∀ f ∈ fields, f.Spells l (get d f) (part f)) ∧ e = fields.flatMap part

/-- The settings that a layout carries, as they stand behind its tag. -/
def Layout.Spells (l : Layout) (d : Draft) (e : Bytes) : Prop :=
  Field.SpellsAll l l.fields d e

/-- What stands in a restored draft where the layout carries no setting: the
answer of the device about its automatic shutdown, which only the oldest
layout does not carry, and otherwise the default. -/
structure Layout.Filled (l : Layout) (p : Provider) (d : Draft) : Prop where
  default : ∀ f ∈ l.absentFields, f ≠ .autoShutdownEnabled → Field.get d f = Field.get {} f
  asked : l = .v5 → p = .ok d.autoShutdownEnabled

/-- A bare legacy record: its six fields, of which the numbers are words of
any sign. -/
def LegacyRecord.Spells (r : LegacyRecord) (e : Bytes) : Prop :=
  ∃ ssid key flag, SpellsText r.ssid ssid ∧ SpellsText r.preSharedKey key ∧
    SpellsFlag r.hiddenSsid flag ∧
    e = ssid ++ (Bytes.ofNat 4 r.band.toUInt32.toNat ++ (Bytes.ofNat 4 r.channel.toUInt32.toNat ++
      (key ++ (Bytes.ofNat 4 r.authType.toUInt32.toNat ++ flag))))

end HotspotBackup
