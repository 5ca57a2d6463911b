import HotspotBackup.Text.Utf8
import HotspotBackup.Toml.Statement

/-!
# TOML documents

The table that a document describes. Its statements are carried out one
after another: a header makes its table the one that later keys belong to.
-/

namespace HotspotBackup.Toml

/-- The members of a document after further statements, given the table that
keys belong to. -/
def build? : List String → Members → List Statement → Option Members
  | _, members, [] => some members
  | current, members, .assign path value :: rest => do
    build? current (← members.within false (Members.assign path value) current .header) rest
  | _, members, .openTable path :: rest => do
    build? path (← members.openTable path .header) rest
  | _, members, .appendTable path :: rest => do
    build? path (← members.appendTable path .header) rest

/-- The table of a document. -/
def parse? (text : List Char) : Option SettingTable := do
  let statements ← Statement.ofTokens? (← Token.scan text)
  return (← build? [] [] statements).settings

/-- The table of a file's content, which must be UTF-8 text. -/
def read? (content : Bytes) : Option SettingTable := do
  parse? (← Utf8.decode? content).toList

end HotspotBackup.Toml
