import HotspotBackup.Backup
import HotspotBackup.CommandLine.Failure
import HotspotBackup.CommandLine.Invocation
import HotspotBackup.Summary

/-!
# Running commands

A command looks at its world, which is the files it can read, its
environment, its standard input and the platform it runs on, and makes a plan
or fails (`Invocation.plan`). A plan says which files change and what is shown
afterwards, so a command that fails to make one changes nothing.

`run` carries the plan of a command line out on a file system.
-/

namespace HotspotBackup.CommandLine

/-- What the system has for programs, and what the libraries of this one say. -/
structure Platform where
  /-- The directory for the settings of the program, if the system has one. -/
  settingsDirectory? : Environment → Option String
  /-- What is said of settings that cannot be read, given the files, the path of
  the one that holds them, and the environment. -/
  unreadable : Files → String → Environment → String
  /-- The script that completes command lines in a shell. -/
  completions : Shell → Bytes
  deriving Inhabited

/-- What a command can look at. -/
structure World where
  platform : Platform
  /-- The content of the file at a path. -/
  read : String → Option Bytes
  /-- The content of the file that is found for a path. -/
  find : String → Option Bytes
  /-- What is said of settings that cannot be read, given the path of their
  file. -/
  unreadable : String → String
  environment : Environment
  /-- The standard input. -/
  input : Bytes

/-- What there is to look at in files. -/
def World.of (platform : Platform) (e : Environment) (input : Bytes) (f : Files) : World where
  platform
  read := f.read?
  find := f.find?
  unreadable := (platform.unreadable f · e)
  environment := e
  input

/-- What a command does in the end. -/
structure Plan where
  changes : List Change := []
  /-- The failure if a change is refused. -/
  refused : Failure := .file
  /-- What is written to standard output if no change is refused. -/
  output : Bytes := []
  /-- What is written to standard error then. -/
  notice : String := ""
  deriving DecidableEq

/-! ## Input -/

/-- Whether a path stands for standard input. -/
def isStandardInput (path : String) : Bool :=
  path = "-" || (!Path.isAbsolute path && Path.components path = ["-"] &&
    path.toList.head? = some '-')

/-- The content of an input. -/
def World.load (w : World) (path : String) : Except Failure Bytes :=
  if isStandardInput path then .ok w.input
  else match w.read path with
  | some content => .ok content
  | none => .error .file

/-- The payload of an input, which may be hexadecimal text. -/
def World.payload (w : World) (path : String) (hex : Bool) : Except Failure Bytes := do
  let content ← w.load path
  if hex then (Hex.decode content).mapError .hexText else .ok content

/-! ## Settings -/

/-- The path of the file of settings. -/
def Options.settingsPath (o : Options) (platform : Platform) (e : Environment) : String :=
  o.config.getD (Settings.defaultPath (platform.settingsDirectory? e) e)

/-- The path of the file of settings in a world. -/
def World.settingsPath (w : World) (o : Options) : String :=
  o.settingsPath w.platform w.environment

/-- The content of the file of settings, which is searched for. -/
def World.settingsContent (w : World) (o : Options) : Option Bytes :=
  w.find (w.settingsPath o)

/-- The settings, if they can be read. -/
def World.settings (w : World) (o : Options) : Except Failure Settings :=
  (Settings.load (w.settingsContent o) w.environment).mapError .settings

/-- The settings, or the defaults. -/
def World.settingsOrDefault (w : World) (o : Options) : Settings :=
  Settings.loadOrDefault (w.settingsContent o) w.environment

/-- The device: the answer given on the command line, or the one of the
settings. -/
def World.provider (w : World) (o : Options) (autoShutdown : Option Bool) : Provider :=
  match autoShutdown with
  | some b => .ok b
  | none =>
    Settings.provider (w.unreadable (w.settingsPath o)) (w.settingsContent o) w.environment

/-! ## Plans -/

/-- A report on standard output, unless nothing is to be shown. -/
def Options.shown (o : Options) (s : Settings) (r : Report) : Plan :=
  if o.quiet then {}
  else { output := Utf8.encode (r.render (o.output.getD s.format) ++ "\n") }

/-- A line on standard error, unless nothing is to be shown. -/
def Options.noticed (o : Options) (line : String) : String :=
  if o.quiet then "" else line ++ "\n"

/-- A payload as it is written, raw or as a line of hexadecimal text. -/
def written (hex : Bool) (payload : Bytes) : Bytes :=
  if hex then Hex.encode payload ++ [10] else payload

/-- The format of a tag that may be given. -/
def formatOf (version : Option Int32) : Except Failure Format :=
  match version with
  | some tag => (Format.ofTag tag).mapError .backup
  | none => .ok .current

/-- The configuration of a document. -/
def configurationOf (text : Bytes) : Except Failure Configuration :=
  match Draft.parse? text with
  | some d => d.build.mapError fun v => .backup (.invalid v)
  | none => .error .document

/-- The plan to write the backup of a document. -/
def encode (w : World) (o : Options) (input : String) (out : Option String)
    (version : Option Int32) (hex : Bool) : Except Failure Plan := do
  let settings := w.settingsOrDefault o
  let configuration ← configurationOf (← w.load input)
  let format ← formatOf version
  let payload ← (Backup.encodeAs format configuration).mapError .backup
  let content := written (hex || settings.hex) payload
  match out with
  | none => return { output := content }
  | some path => return {
      changes := [.write path content]
      notice := o.noticed s!"✓ Wrote {payload.length} byte {format.text} backup to {path}" }

/-- The plan to show the configuration of a backup. -/
def decode (w : World) (o : Options) (input : String) (legacy hex : Bool)
    (autoShutdown : Option Bool) : Except Failure Plan := do
  let settings := w.settingsOrDefault o
  let payload ← w.payload input (hex || settings.hex)
  let restore := if legacy then Backup.decodeLegacy payload else Backup.decode payload
  let configuration ← (restore.run (w.provider o autoShutdown)).1.mapError .backup
  return o.shown settings configuration.draft.report

/-- The plan to show what a backup says of itself. -/
def inspect (w : World) (o : Options) (input : String) (hex : Bool) : Except Failure Plan := do
  let settings := w.settingsOrDefault o
  let payload ← w.payload input (hex || settings.hex)
  let format ← (Backup.peekFormat payload).mapError .backup
  return o.shown settings (format.summary payload.length)

/-- The plan to show the settings. -/
def configShow (w : World) (o : Options) : Except Failure Plan := do
  let settings ← w.settings o
  return o.shown settings settings.report

/-- The plan to show the path of the file of settings. -/
def configPath (w : World) (o : Options) : Plan :=
  { output := Utf8.encode (w.settingsPath o ++ "\n") }

/-- The plan to edit a setting. The result must be settings that can be
loaded again. -/
def configSet (w : World) (o : Options) (name value : String) : Except Failure Plan := do
  let path := w.settingsPath o
  let settings ← w.settings o
  let edited ← (settings.edit name value).mapError (.setting name)
  let valid ← edited.validate.mapError .settings
  return {
    changes := [.parents path, .write path valid.document]
    refused := .settingsFile
    notice := o.noticed s!"✓ Set {name} in {path}" }

/-- The plan of an invocation. -/
def Invocation.plan (i : Invocation) (w : World) : Except Failure Plan :=
  match i.command with
  | .encode input out version hex => encode w i.options input out version hex
  | .decode input legacy hex autoShutdown => decode w i.options input legacy hex autoShutdown
  | .inspect input hex => inspect w i.options input hex
  | .configShow => configShow w i.options
  | .configPath => .ok (configPath w i.options)
  | .configSet name value => configSet w i.options name value
  | .completions shell => .ok { output := w.platform.completions shell }

/-- The path of what a command works on. -/
def Command.input? : Command → Option String
  | encode input .. | decode input .. | inspect input _ => some input
  | configShow | configPath | configSet .. | completions _ => none

/-- Whether an invocation looks at standard input. -/
def Invocation.readsStandardInput (i : Invocation) : Bool :=
  i.command.input?.any isStandardInput

/-- The path of the file that an invocation may read. -/
def Invocation.reads (i : Invocation) : Option String :=
  i.command.input?.filter (!isStandardInput ·)

/-! ## Outcomes -/

/-- How a run ends. -/
inductive Outcome where
  | refused (r : Refusal)
  | failed (f : Failure)
  /-- With what was written to standard output and to standard error. -/
  | done (output : Bytes) (notice : String)
  deriving DecidableEq

/-- The outcome of a plan, and the files after it. -/
def Plan.carryOut (p : Plan) (f : Files) : Outcome × Files :=
  match f.applyAll p.changes with
  | (true, after) => (.done p.output p.notice, after)
  | (false, after) => (.failed p.refused, after)

/-- The outcome of a command line, and the files after it. -/
def run (platform : Platform) (e : Environment) (input : Bytes) (arguments : List String)
    (f : Files) : Outcome × Files :=
  match parse e arguments with
  | .error r => (.refused r, f)
  | .ok invocation =>
    match invocation.plan (.of platform e input f) with
    | .error failure => (.failed failure, f)
    | .ok plan => plan.carryOut f

end HotspotBackup.CommandLine
