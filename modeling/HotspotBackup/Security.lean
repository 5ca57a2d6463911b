/-!
# Security and privacy settings

How clients authenticate (`SecurityType`) and how the access point chooses
its own address (`MacRandomization`). Each value has the integer code that
backups store and the name that documents use.
-/

namespace HotspotBackup

/-- How clients of the hotspot authenticate. -/
inductive SecurityType where
  /-- No authentication. -/
  | unsecured
  | wpa2Psk
  | wpa3SaeTransition
  | wpa3Sae
  | wpa3OweTransition
  | wpa3Owe
  deriving DecidableEq, Repr, Inhabited

namespace SecurityType

/-- Every security type, by ascending code. -/
def all : List SecurityType :=
  [unsecured, wpa2Psk, wpa3SaeTransition, wpa3Sae, wpa3OweTransition, wpa3Owe]

/-- The code stored in backups. -/
def code : SecurityType → Int32
  | unsecured => 0
  | wpa2Psk => 1
  | wpa3SaeTransition => 2
  | wpa3Sae => 3
  | wpa3OweTransition => 4
  | wpa3Owe => 5

/-- The security type of a stored code. -/
def ofCode? (code : Int32) : Option SecurityType :=
  all.find? (·.code = code)

/-- The name used in documents. -/
def name : SecurityType → String
  | unsecured => "open"
  | wpa2Psk => "wpa2_psk"
  | wpa3SaeTransition => "wpa3_sae_transition"
  | wpa3Sae => "wpa3_sae"
  | wpa3OweTransition => "wpa3_owe_transition"
  | wpa3Owe => "wpa3_owe"

/-- The security type of a name. -/
def ofName? (name : String) : Option SecurityType :=
  all.find? (·.name = name)

/-- Whether a passphrase keys this security type. -/
def usesPassphrase : SecurityType → Bool
  | wpa2Psk | wpa3SaeTransition | wpa3Sae => true
  | unsecured | wpa3OweTransition | wpa3Owe => false

/-- Whether clients that know WPA2 only bound the length of the passphrase. -/
def boundsPassphrase : SecurityType → Bool
  | wpa2Psk | wpa3SaeTransition => true
  | unsecured | wpa3Sae | wpa3OweTransition | wpa3Owe => false

theorem mem_all (s : SecurityType) : s ∈ all := by cases s <;> decide

@[simp] theorem ofCode?_code (s : SecurityType) : ofCode? s.code = some s := by
  cases s <;> decide

@[simp] theorem ofName?_name (s : SecurityType) : ofName? s.name = some s := by
  cases s <;> decide

theorem code_of_ofCode? {c : Int32} {s : SecurityType} (h : ofCode? c = some s) : s.code = c := by
  simpa using List.find?_some h

end SecurityType

/-- How the access point chooses the address it beacons from. -/
inductive MacRandomization where
  /-- The factory address. -/
  | off
  | persistent
  | nonPersistent
  deriving DecidableEq, Repr, Inhabited

namespace MacRandomization

/-- Every setting, by ascending code. -/
def all : List MacRandomization :=
  [off, persistent, nonPersistent]

/-- The code stored in backups. -/
def code : MacRandomization → Int32
  | off => 0
  | persistent => 1
  | nonPersistent => 2

/-- The setting of a stored code. -/
def ofCode? (code : Int32) : Option MacRandomization :=
  all.find? (·.code = code)

/-- The name used in documents. -/
def name : MacRandomization → String
  | off => "none"
  | persistent => "persistent"
  | nonPersistent => "non_persistent"

/-- The setting of a name. -/
def ofName? (name : String) : Option MacRandomization :=
  all.find? (·.name = name)

theorem mem_all (r : MacRandomization) : r ∈ all := by cases r <;> decide

@[simp] theorem ofCode?_code (r : MacRandomization) : ofCode? r.code = some r := by
  cases r <;> decide

@[simp] theorem ofName?_name (r : MacRandomization) : ofName? r.name = some r := by
  cases r <;> decide

theorem code_of_ofCode? {c : Int32} {r : MacRandomization} (h : ofCode? c = some r) :
    r.code = c := by
  simpa using List.find?_some h

end MacRandomization

end HotspotBackup
