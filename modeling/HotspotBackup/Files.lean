import HotspotBackup.Text.Pieces
import HotspotBackup.Text.Utf8

/-!
# Files and directories

`Files` says what stands at each location of a file system and which
directory relative paths start from. Paths are walked one component after
another through directories that exist; what cannot be reached can be
neither read nor written. A change (`Change`) says whether it succeeded.

A path can also be searched for (`Files.find?`): a relative one is then tried
from the start, and from each directory above it in turn, until it leads to a
file.
-/

namespace HotspotBackup

/-! ## Paths -/

namespace Path

/-- Whether a path starts from the root. -/
def isAbsolute (path : String) : Bool :=
  path.toList.head? = some '/'

/-- The components of a path, with an empty one for each slash that no name
follows. -/
def rawComponents (path : String) : List String :=
  (pieces '/' path.toList).map String.ofList

/-- The components of a path that lead anywhere. -/
def components (path : String) : List String :=
  (rawComponents path).filter fun c => c ≠ "" && c ≠ "."

/-- A path below another one. -/
def join (path name : String) : String :=
  if path.isEmpty || path.toList.getLast? = some '/' then path ++ name else path ++ "/" ++ name

/-- The path of what a path stands in; empty if that is where relative paths
start. -/
def parent (path : String) : String :=
  (if isAbsolute path then "/" else "") ++ "/".intercalate (components path).dropLast

/-- The longest path, in octets. -/
def maxSize : Nat := 4095

/-- The longest name of a component, in octets. -/
def maxNameSize : Nat := 255

/-- Whether a path can name anything at all. -/
def isUsable (path : String) : Bool :=
  !path.isEmpty && !path.toList.contains '\x00' && Utf8.size path ≤ maxSize

end Path

/-! ## What stands where -/

/-- The names on the way from the root. -/
abbrev Location := List String

/-- What stands at a location. -/
inductive Entry where
  | file (content : Bytes)
  | directory (writable : Bool)
  deriving DecidableEq

/-- A file system, and the directory that relative paths start from. -/
structure Files where
  start : Location
  entry : Location → Option Entry

namespace Files

/-- Whether a directory stands at a location. -/
def isDirectory (f : Files) (l : Location) : Bool :=
  match f.entry l with
  | some (.directory _) => true
  | _ => false

/-- Whether a directory that can be written stands at a location. -/
def isWritable (f : Files) (l : Location) : Bool :=
  f.entry l = some (.directory true)

/-- The files with one location replaced. -/
def put (f : Files) (l : Location) (e : Option Entry) : Files :=
  { f with entry := fun k => if k = l then e else f.entry k }

/-- Where a component leads from a directory. -/
def next? (l : Location) (component : String) : Option Location :=
  if component = "" ∨ component = "." then some l
  else if component = ".." then some l.dropLast
  else if Utf8.size component ≤ Path.maxNameSize then some (l ++ [component])
  else none

/-- Where components lead, each from a directory that exists. -/
def walk (f : Files) : Location → List String → Option Location
  | l, [] => some l
  | l, component :: rest => do
    if f.isDirectory l then f.walk (← next? l component) rest else none

/-- Where a path begins. -/
def base (f : Files) (path : String) : Location :=
  if Path.isAbsolute path then [] else f.start

/-- Where a path leads from a directory, whether or not something stands
there. -/
def locateFrom? (f : Files) (l : Location) (path : String) : Option Location :=
  if Path.isUsable path then f.walk l (Path.rawComponents path) else none

/-- Where a path leads. -/
def locate? (f : Files) (path : String) : Option Location :=
  f.locateFrom? (f.base path) path

/-- The content of the file at a location. -/
def contentAt? (f : Files) (l : Location) : Option Bytes :=
  match f.entry l with
  | some (.file content) => some content
  | _ => none

/-- The content of the file that a path leads to from a directory. -/
def readFrom? (f : Files) (l : Location) (path : String) : Option Bytes :=
  (f.locateFrom? l path).bind f.contentAt?

/-- The content of the file at a path. -/
def read? (f : Files) (path : String) : Option Bytes :=
  f.readFrom? (f.base path) path

/-! ## Searching -/

/-- A location and those above it, the root last. -/
def upward : Location → List Location
  | [] => [[]]
  | name :: below => (upward below).map (name :: ·) ++ [[]]

/-- The directories that a path is tried from, one after another. A relative
path is tried from none if the start is gone. -/
def searched (f : Files) (path : String) : List Location :=
  if Path.isAbsolute path then [[]]
  else if f.isDirectory f.start then upward f.start
  else []

/-- The content of the first file that a path leads to from the directories
that it is tried from. Whatever else it leads to is passed over. -/
def find? (f : Files) (path : String) : Option Bytes :=
  (f.searched path).findSome? fun l => f.readFrom? l path

/-! ## Changes -/

/-- The directories that components lead through, made where they are
missing, and whether all of them are there. -/
def makeAll (f : Files) : Location → List String → Bool × Files
  | _, [] => (true, f)
  | l, component :: rest =>
    match next? l component with
    | none => (false, f)
    | some next =>
      match f.entry next with
      | some (.directory _) => makeAll f next rest
      | some (.file _) => (false, f)
      | none =>
        if f.isWritable l then makeAll (f.put next (some (.directory true))) next rest
        else (false, f)

/-- The directories of a path, made where they are missing. -/
def makeDirectories (f : Files) (path : String) (components : List String) : Bool × Files :=
  if components.isEmpty then (true, f)
  else if Path.isUsable path then f.makeAll (f.base path) components
  else (false, f)

/-- The files with the content of a path replaced, or the file made. -/
def write (f : Files) (path : String) (content : Bytes) : Bool × Files :=
  match f.locate? path with
  | none => (false, f)
  | some l =>
    match f.entry l with
    | some (.file _) => (true, f.put l (some (.file content)))
    | some (.directory _) => (false, f)
    | none =>
      if f.isWritable l.dropLast then (true, f.put l (some (.file content))) else (false, f)

/-- The files without what stands at a path and below it. -/
def remove (f : Files) (path : String) : Files :=
  match f.locate? path with
  | none => f
  | some l => { f with entry := fun k => if l.isPrefixOf k then none else f.entry k }

end Files

/-- A change of the files. -/
inductive Change where
  /-- Every directory of a path. -/
  | directories (path : String)
  /-- Every directory that a path leads through. -/
  | parents (path : String)
  | write (path : String) (content : Bytes)
  deriving DecidableEq

/-- Whether a change succeeds, and the files after it. -/
def Files.apply (f : Files) : Change → Bool × Files
  | .directories path => f.makeDirectories path (Path.components path)
  | .parents path => f.makeDirectories path (Path.components path).dropLast
  | .write path content => f.write path content

/-- Whether some changes succeed, and the files after them: the first that
fails is the last one tried. -/
def Files.applyAll (f : Files) : List Change → Bool × Files
  | [] => (true, f)
  | change :: rest =>
    match f.apply change with
    | (true, after) => after.applyAll rest
    | (false, after) => (false, after)

end HotspotBackup
