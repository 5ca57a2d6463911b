import HotspotBackup.ChannelMap
import HotspotBackup.MacAddress
import HotspotBackup.Security
import HotspotBackup.Text.Utf8

/-!
# Hotspot configurations

A `Draft` holds the seventeen settings of a hotspot, in any combination. A
`Configuration` is a draft that keeps every rule, and the only way to one
is `Draft.build`, which reports the first rule that the draft breaks
(`Draft.violation?`).

The default draft is also what fills the settings that an older backup does
not carry.
-/

namespace HotspotBackup

/-- The settings of a hotspot, not yet checked against each other. -/
structure Draft where
  ssid : Option String := none
  bssid : Option MacAddress := none
  band : Band := .ghz2
  /-- The channel on `band`; zero leaves the choice to the radio. -/
  channel : UInt32 := 0
  passphrase : Option String := none
  securityType : SecurityType := .unsecured
  hiddenSsid : Bool := false
  maxNumberOfClients : UInt32 := 0
  shutdownTimeoutMillis : UInt64 := 0
  clientControlByUserEnabled : Bool := false
  blockedClientList : List MacAddress := []
  allowedClientList : List MacAddress := []
  autoShutdownEnabled : Bool := true
  bridgedModeOpportunisticShutdownEnabled : Bool := true
  macRandomizationSetting : MacRandomization := .off
  /-- Channels by band, for a hotspot on several radios. -/
  channels : ChannelMap := ∅
  ieee80211axEnabled : Bool := true
  deriving DecidableEq

instance : Inhabited Draft := ⟨{}⟩

/-- The longest network name, in octets. -/
def maxSsidSize : Nat := 32

/-- The shortest passphrase that clients with WPA2 only accept, in octets. -/
def minWpa2PassphraseSize : Nat := 8

/-- The longest passphrase that clients with WPA2 only accept, in octets. -/
def maxWpa2PassphraseSize : Nat := 63

/-- The largest channel and client count: backups store them as signed words. -/
def maxStoredNumber : Nat := 2147483647

/-- A rule that a draft breaks. -/
inductive Violation where
  /-- The network name has `size` octets, more than the radio accepts. -/
  | ssidTooLong (size : Nat)
  /-- There is a passphrase, but none is used. -/
  | passphraseUnused (security : SecurityType)
  /-- There is no passphrase, but one is needed. -/
  | passphraseMissing (security : SecurityType)
  | passphraseEmpty
  /-- The passphrase has a length that clients with WPA2 only refuse. -/
  | passphraseSize (security : SecurityType)
  /-- A channel is assigned to several bands at once. -/
  | sharedChannel (band : Band)
  | channelTooLarge
  | tooManyClients
  deriving DecidableEq

/-- The wording of a violation. -/
def Violation.message : Violation → String
  | ssidTooLong size => s!"SSID is {size} bytes, at most {maxSsidSize} allowed"
  | passphraseUnused security => s!"security type {security.name} does not take a passphrase"
  | passphraseMissing security => s!"security type {security.name} requires a passphrase"
  | passphraseEmpty => "passphrase must not be empty"
  | passphraseSize security =>
    s!"passphrase for {security.name} must be " ++
      s!"{minWpa2PassphraseSize}..={maxWpa2PassphraseSize} bytes"
  | sharedChannel band => s!"channel map key {band.text} must be a single band"
  | channelTooLarge => s!"channel must be at most {maxStoredNumber}"
  | tooManyClients => s!"max_number_of_clients must be at most {maxStoredNumber}"

namespace Draft

/-- The network name fits the radio. -/
def ssidViolation? (d : Draft) : Option Violation :=
  match d.ssid with
  | some name => if Utf8.size name ≤ maxSsidSize then none else some (.ssidTooLong (Utf8.size name))
  | none => none

/-- A passphrase is there exactly if it is used, and is one that clients accept. -/
def passphraseViolation? (d : Draft) : Option Violation :=
  match d.passphrase, d.securityType.usesPassphrase with
  | some _, false => some (.passphraseUnused d.securityType)
  | none, true => some (.passphraseMissing d.securityType)
  | none, false => none
  | some phrase, true =>
    if Utf8.size phrase = 0 then some .passphraseEmpty
    else if d.securityType.boundsPassphrase ∧
        ¬ (minWpa2PassphraseSize ≤ Utf8.size phrase ∧ Utf8.size phrase ≤ maxWpa2PassphraseSize) then
      some (.passphraseSize d.securityType)
    else none

/-- Channels are assigned to single bands; the smallest other key is named. -/
def bandViolation? (d : Draft) : Option Violation :=
  (d.channels.bands.find? (!·.isSingle)).map .sharedChannel

/-- A number that backups can store. -/
def isStorable (n : UInt32) : Bool :=
  n.toNat ≤ maxStoredNumber

/-- Every channel can be stored. -/
def channelViolation? (d : Draft) : Option Violation :=
  if isStorable d.channel && d.channels.entries.all (isStorable ·.2) then none
  else some .channelTooLarge

/-- The client count can be stored. -/
def clientsViolation? (d : Draft) : Option Violation :=
  if isStorable d.maxNumberOfClients then none else some .tooManyClients

/-- The first rule that a draft breaks. -/
def violation? (d : Draft) : Option Violation :=
  d.ssidViolation? <|> d.passphraseViolation? <|> d.bandViolation? <|> d.channelViolation? <|>
    d.clientsViolation?

end Draft

/-- The settings of a hotspot that break no rule. -/
structure Configuration where
  draft : Draft
  accepted : draft.violation? = none

instance : DecidableEq Configuration := fun a b =>
  decidable_of_iff (a.draft = b.draft)
    ⟨fun h => by cases a; cases b; cases h; rfl, fun h => h ▸ rfl⟩

/-- The configuration of the default draft. -/
def Configuration.default : Configuration := ⟨{}, by decide⟩

instance : Inhabited Configuration := ⟨.default⟩

/-- The configuration of a draft, or the first rule that the draft breaks. -/
def Draft.build (d : Draft) : Except Violation Configuration :=
  match h : d.violation? with
  | none => .ok ⟨d, h⟩
  | some v => .error v

end HotspotBackup
