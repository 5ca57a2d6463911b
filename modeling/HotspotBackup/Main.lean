import HotspotBackup.CommandLine.Run

/-!
# The program

Reads the files, the environment and the standard input that a command line
asks for, and carries its plan out. What the plan is, is decided by
`CommandLine.parse` and `CommandLine.Invocation.plan`.
-/

namespace HotspotBackup.CommandLine

/-- How the program is used. -/
def usage : String :=
  "Encode, decode and inspect soft AP configuration backups\n\n" ++
  "Usage: softap [OPTIONS] <COMMAND>\n\n" ++
  "Commands:\n" ++
  "  encode [--out FILE] [--format-version N] [--hex] INPUT\n" ++
  "  decode [--legacy] [--hex] [--auto-shutdown true|false] INPUT\n" ++
  "  inspect [--hex] INPUT\n" ++
  "  config show | path | set KEY VALUE\n" ++
  "  help [COMMAND]\n\n" ++
  "Options:\n" ++
  "      --config FILE\n" ++
  "  -o, --output json|json-compact|yaml\n" ++
  "  -v, --verbose\n" ++
  "  -q, --quiet\n" ++
  "  -h, --help\n" ++
  "  -V, --version\n"

/-- The octets of a file, unless it cannot be read. -/
def content? (path : String) : IO (Option Bytes) := do
  try
    return some (← IO.FS.readBinFile path).toList
  catch _ =>
    return none

/-- The rest of a stream, after what has been read of it. -/
partial def restOf (input : IO.FS.Stream) (found : ByteArray) : IO ByteArray := do
  let next ← input.read 65536
  if next.isEmpty then return found
  restOf input (found ++ next)

/-- The variables of this process that are text. -/
def processEnvironment : IO Environment := do
  let content := (← content? "/proc/self/environ").getD []
  return (pieces 0 content).filterMap fun entry => do
    let cs := (← Utf8.decode? entry).toList
    match cs.dropWhile (· ≠ '=') with
    | _ :: value => some (String.ofList (cs.takeWhile (· ≠ '=')), String.ofList value)
    | [] => none

/-- Makes a change, and says whether it succeeded. -/
def make (change : Change) : IO Bool := do
  try
    match change with
    | .directories path => IO.FS.createDirAll path
    | .parents path =>
      let parent := Path.parent path
      unless parent.isEmpty do IO.FS.createDirAll parent
    | .write path content => IO.FS.writeBinFile path (ByteArray.mk content.toArray)
    return true
  catch _ =>
    return false

/-- A path from a directory and from each above it. -/
def candidates (directory path : String) : List String :=
  if Path.isAbsolute path then [path]
  else (Files.upward (Path.components directory)).map fun l =>
    Path.join ("/" ++ "/".intercalate l) path

/-- The content of the first file that a path leads to from the directory that
the process is in, or from one above it. -/
def found? (path : String) : IO (Option Bytes) := do
  try
    (candidates (← IO.currentDir).toString path).findSomeM? content?
  catch _ =>
    return none

/-- What is said of a file that cannot be read or written, or be understood. -/
def unusable : String :=
  "the file cannot be used"

/-- The system that the program runs on. It has no scripts. -/
def platform : Platform where
  settingsDirectory? := Settings.directoryOfVariables? none
  unreadable _ _ _ := unusable
  completions _ := []

/-- Tells of a failure. -/
def report (failure : Failure) : IO UInt32 := do
  let output ← IO.getStderr
  output.putStrLn (failure.message unusable)
  for line in failure.advice? do
    output.putStrLn line
  return UInt32.ofNat failure.exitStatus

/-- Carries a plan out. -/
def carryOut (plan : Plan) : IO UInt32 := do
  for change in plan.changes do
    unless ← make change do return ← report plan.refused
  let output ← IO.getStdout
  output.write (ByteArray.mk plan.output.toArray)
  output.flush
  (← IO.getStderr).putStr plan.notice
  return 0

end HotspotBackup.CommandLine

open HotspotBackup HotspotBackup.CommandLine

/-- The program. -/
def main (arguments : List String) : IO UInt32 := do
  let environment ← processEnvironment
  match parse environment arguments with
  | .error .display =>
    (← IO.getStdout).putStr usage
    return 0
  | .error .usage =>
    (← IO.getStderr).putStr usage
    return 2
  | .ok invocation =>
    let settings ← found? (invocation.options.settingsPath platform environment)
    let source ← (invocation.reads.mapM content? : IO (Option (Option Bytes)))
    let input ← if invocation.readsStandardInput
      then restOf (← IO.getStdin) ByteArray.empty
      else pure ByteArray.empty
    let world : World :=
      { platform
        read := fun _ => source.join
        find := fun _ => settings
        unreadable := fun _ => unusable
        environment
        input := input.toList }
    match invocation.plan world with
    | .ok plan => carryOut plan
    | .error failure => report failure
