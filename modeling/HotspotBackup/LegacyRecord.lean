import HotspotBackup.Field

/-!
# Legacy records

Older devices backed up their hotspot as a record of six fields, either
bare or behind tag 3. Restoring one translates its band and authentication
codes and fills every newer setting as for an older layout.
-/

namespace HotspotBackup

/-- The record of older devices, as it stands on the wire. -/
structure LegacyRecord where
  ssid : Option String := none
  band : Int32 := 0
  channel : Int32 := 0
  preSharedKey : Option String := none
  authType : Int32 := 0
  hiddenSsid : Bool := false
  deriving DecidableEq, Repr

namespace LegacyRecord

/-- The names of the fields, in wire order. -/
def fieldNames : List String :=
  ["ssid", "band", "channel", "pre_shared_key", "auth_type", "hidden_ssid"]

/-- The bare record. -/
def write (r : LegacyRecord) : Bytes :=
  Wire.text? r.ssid ++ Wire.i32 r.band ++ Wire.i32 r.channel ++ Wire.text? r.preSharedKey ++
    Wire.i32 r.authType ++ Wire.flag r.hiddenSsid

/-- The record behind its tag. -/
def writeTagged (r : LegacyRecord) : Bytes :=
  Wire.i32 Format.legacy.tag ++ r.write

open Wire (Reader)

/-- The reader of a bare record. -/
def read : Reader LegacyRecord := do
  let ssid ← Reader.text? "legacy ssid"
  let band ← Reader.i32 "legacy band"
  let channel ← Reader.i32 "legacy channel"
  let preSharedKey ← Reader.text? "legacy pre-shared key"
  let authType ← Reader.i32 "legacy auth type"
  let hiddenSsid ← Reader.flag "legacy hidden ssid"
  return { ssid, band, channel, preSharedKey, authType, hiddenSsid }

/-- The band of a band code: 1 is 5 GHz, -1 leaves the choice between the
two, and any other code is 2.4 GHz. -/
def bandOfCode (code : Int32) : Band :=
  if code = 1 then .ghz5 else if code = -1 then Band.ghz2.union .ghz5 else .ghz2

/-- The security type of an authentication code: 4 is WPA2 with a key, and
any other code restores as an open network. -/
def securityOfCode (code : Int32) : SecurityType :=
  if code = 4 then .wpa2Psk else .unsecured

/-- The settings that a record carries; only WPA2 takes its key along. -/
def translate (r : LegacyRecord) (channel : UInt32) : Draft where
  ssid := r.ssid
  band := bandOfCode r.band
  channel := channel
  passphrase := if securityOfCode r.authType = .wpa2Psk then r.preSharedKey else none
  securityType := securityOfCode r.authType
  hiddenSsid := r.hiddenSsid

/-- The configuration of a record, with newer settings filled. -/
def restore (r : LegacyRecord) : Asking Configuration := do
  if r.channel < 0 then
    Asking.fail (.malformed (.negativeLegacyChannel r.channel.toInt))
  else
    let filled ← Field.fillAll Format.legacy.absentFields (r.translate r.channel.toUInt32)
    match filled.build with
    | .ok c => return c
    | .error v => Asking.fail (.malformed (.legacyRejected v))

end LegacyRecord

end HotspotBackup
