/-!
# Values of settings

What a layer of settings may hold, whichever way it is written. A layer is a
table; a later layer is merged over an earlier one name by name, and only
two tables are merged further (`merge`).
-/

namespace HotspotBackup

/-- A value of a layer. No setting is a number, so a number is kept without
its value. -/
inductive Setting where
  | text (s : String)
  | flag (b : Bool)
  | number
  | list (items : List Setting)
  | table (members : List (String × Setting))

/-- Named values, at most one for each name. -/
abbrev SettingTable := List (String × Setting)

namespace SettingTable

/-- The value of a name. -/
def get? (name : String) (t : SettingTable) : Option Setting :=
  (t.find? (·.1 = name)).map (·.2)

/-- The table without a name. -/
def erase (name : String) (t : SettingTable) : SettingTable :=
  t.filter (·.1 ≠ name)

/-- The table with the value of a name replaced, or added. -/
def put (name : String) (value : Setting) (t : SettingTable) : SettingTable :=
  t.erase name ++ [(name, value)]

end SettingTable

mutual

/-- A value under a later one: two tables are merged, and otherwise the later
value stands alone. -/
def Setting.mergeAt (earlier : Option Setting) : Setting → Setting
  | .table members =>
    match earlier with
    | some (.table base) => .table (SettingTable.merge base members)
    | _ => .table members
  | later => later

/-- A table under a later one, name by name. -/
def SettingTable.merge (base : SettingTable) : SettingTable → SettingTable
  | [] => base
  | (name, value) :: rest =>
    SettingTable.merge (base.put name (Setting.mergeAt (base.get? name) value)) rest

end

end HotspotBackup
