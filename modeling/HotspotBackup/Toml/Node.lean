import HotspotBackup.Settings.Value

/-!
# Tables under construction

A TOML document builds its tables in pieces: headers open them, and dotted
keys and longer headers imply those on the way. How a table came to be
(`Origin`) decides what may still be added to it: a header may take over a
table that longer headers implied, and a dotted key may extend what dotted
keys made, never what a header opened.
-/

namespace HotspotBackup.Toml

/-- How a table came to be. -/
inductive Origin where
  /-- A header names it, or it is the document itself. -/
  | header
  /-- A longer header goes through it. -/
  | implied
  /-- A dotted key goes through it. -/
  | dotted
  deriving DecidableEq, Repr

/-- What a key of a table under construction stands for. -/
inductive Node where
  /-- A value, which is never extended. -/
  | value (v : Setting)
  | table (origin : Origin) (members : List (String × Node))
  /-- The tables of an array of tables, of which only the last is extended. -/
  | tables (earlier : List Setting) (last : List (String × Node))

/-- The members of a table under construction. -/
abbrev Members := List (String × Node)

mutual

/-- The value of a node. -/
def Node.setting : Node → Setting
  | .value v => v
  | .table _ members => .table (Members.settings members)
  | .tables earlier last => .list (earlier ++ [.table (Members.settings last)])

/-- The values of the members of a table. -/
def Members.settings : Members → SettingTable
  | [] => []
  | (key, node) :: rest => (key, node.setting) :: Members.settings rest

end

namespace Members

/-- The node of a key. -/
def get? (key : String) (members : Members) : Option Node :=
  (members.find? (·.1 = key)).map (·.2)

/-- The members with the node of a key replaced, or added. -/
def put (key : String) (node : Node) (members : Members) : Members :=
  members.filter (·.1 ≠ key) ++ [(key, node)]

/-- A change of a table, which depends on how the table came to be. -/
abbrev Change := Origin → Members → Option Members

/-- The change `change` of the table at a path below a table. Tables that are
missing on the way are made, by a dotted key or by a header; a dotted key
goes through no table that a header opened. -/
def within (dotted : Bool) (change : Change) : List String → Change
  | [], origin, members => change origin members
  | key :: path, _, members =>
    match members.get? key with
    | none => do
      let origin := if dotted then Origin.dotted else .implied
      return members.put key (.table origin (← within dotted change path origin []))
    | some (.table origin inner) =>
      if dotted && origin = .header then none
      else do return members.put key (.table origin (← within dotted change path origin inner))
    | some (.tables earlier last) => do
      return members.put key (.tables earlier (← within dotted change path .header last))
    | some (.value _) => none

/-- A key that a table does not hold yet, with its value. A table that dotted
keys made is extended by dotted keys only, and another one is not. -/
def assignKey (viaDots : Bool) (key : String) (value : Setting) : Change := fun origin members =>
  if decide (origin = .dotted) ≠ viaDots || (members.get? key).isSome then none
  else some (members.put key (.value value))

/-- The value of a dotted key below a table; the key has at least one part. -/
def assign (path : List String) (value : Setting) : Change := fun origin members =>
  match path.reverse with
  | [] => none
  | key :: before =>
    within true (assignKey (!before.isEmpty) key value) before.reverse origin members

/-- The change of a table in its member `key`, which a header opens. -/
def openKey (key : String) : Change := fun _ members =>
  match members.get? key with
  | none => some (members.put key (.table .header []))
  | some (.table .implied inner) => some (members.put key (.table .header inner))
  | some _ => none

/-- The change of a table in its member `key`, to which a header adds a
table. -/
def appendKey (key : String) : Change := fun _ members =>
  match members.get? key with
  | none => some (members.put key (.tables [] []))
  | some (.tables earlier last) =>
    some (members.put key (.tables (earlier ++ [.table (settings last)]) []))
  | some _ => none

/-- The change that the last part of a path names, of the table that the
other parts lead to. -/
def atHeader (change : String → Change) (path : List String) : Change := fun origin members =>
  match path.reverse with
  | [] => none
  | key :: before => within false (change key) before.reverse origin members

/-- The table at a path, opened by a header. -/
def openTable (path : List String) : Change :=
  atHeader openKey path

/-- The array of tables at a path, with one more table. -/
def appendTable (path : List String) : Change :=
  atHeader appendKey path

end Members

end HotspotBackup.Toml
