import HotspotBackup.CommandLine.Run

/-!
# Processes

A process carries out a command as it comes: it looks at the files when it
needs them, changes them, and writes to its streams. What it did before it
fails stays done (`Activity`).

`execute` is the process of a command line. It has no plan; that it ends as
`run` says is a theorem.
-/

namespace HotspotBackup.CommandLine

/-- What a process works on, and what it has written so far. -/
structure Process where
  files : Files
  /-- To standard output. -/
  output : Bytes := []
  /-- The notices to standard error. -/
  notice : String := ""

/-- Something that a process does, which may fail. -/
abbrev Activity : Type → Type :=
  ExceptT Failure (StateM Process)

namespace Activity

/-- What comes of an activity, and the process after it. -/
def outcome (a : Activity α) (p : Process) : Except Failure α × Process :=
  a.run.run p

/-- A result that was found without doing anything. -/
def attempt (r : Except Failure α) : Activity α :=
  ExceptT.mk (pure r)

/-- What the process sees at this moment. -/
def look (platform : Platform) (e : Environment) (input : Bytes) : Activity World := do
  return .of platform e input (← get).files

/-- A change of the files. -/
def change (refused : Failure) (c : Change) : Activity Unit := do
  let p ← get
  let after := p.files.apply c
  set { p with files := after.2 }
  unless after.1 do
    throw refused

/-- Writes to standard output. -/
def print (content : Bytes) : Activity Unit :=
  modify fun p => { p with output := p.output ++ content }

/-- Writes a notice to standard error. -/
def notify (line : String) : Activity Unit :=
  modify fun p => { p with notice := p.notice ++ line }

end Activity

open Activity

section

variable (platform : Platform) (e : Environment) (input : Bytes) (o : Options)

/-- Shows a report, unless nothing is to be shown. -/
def present (s : Settings) (r : Report) : Activity Unit :=
  unless o.quiet do
    print (Utf8.encode (r.render (o.output.getD s.format) ++ "\n"))

/-- Writes the backup of a document. -/
def performEncode (source : String) (out : Option String) (version : Option Int32)
    (hex : Bool) : Activity Unit := do
  let settings := (← look platform e input).settingsOrDefault o
  let text ← attempt ((← look platform e input).load source)
  let configuration ← attempt (configurationOf text)
  let format ← attempt (formatOf version)
  let payload ← attempt ((Backup.encodeAs format configuration).mapError .backup)
  let content := written (hex || settings.hex) payload
  match out with
  | none => print content
  | some path =>
    change .file (.write path content)
    notify (o.noticed s!"✓ Wrote {payload.length} byte {format.text} backup to {path}")

/-- Shows the configuration of a backup. -/
def performDecode (source : String) (legacy hex : Bool) (autoShutdown : Option Bool) :
    Activity Unit := do
  let settings := (← look platform e input).settingsOrDefault o
  let payload ← attempt ((← look platform e input).payload source (hex || settings.hex))
  let restore := if legacy then Backup.decodeLegacy payload else Backup.decode payload
  let device := (← look platform e input).provider o autoShutdown
  let configuration ← attempt ((restore.run device).1.mapError .backup)
  present o settings configuration.draft.report

/-- Shows what a backup says of itself. -/
def performInspect (source : String) (hex : Bool) : Activity Unit := do
  let settings := (← look platform e input).settingsOrDefault o
  let payload ← attempt ((← look platform e input).payload source (hex || settings.hex))
  let format ← attempt ((Backup.peekFormat payload).mapError .backup)
  present o settings (format.summary payload.length)

/-- Shows the settings. -/
def performShow : Activity Unit := do
  let settings ← attempt ((← look platform e input).settings o)
  present o settings settings.report

/-- Edits a setting. -/
def performSet (name value : String) : Activity Unit := do
  let path := o.settingsPath platform e
  let settings ← attempt ((← look platform e input).settings o)
  let edited ← attempt ((settings.edit name value).mapError (.setting name))
  let valid ← attempt (edited.validate.mapError .settings)
  change .settingsFile (.parents path)
  change .settingsFile (.write path valid.document)
  notify (o.noticed s!"✓ Set {name} in {path}")

end

/-- Carries out what an invocation asks for. -/
def Invocation.perform (i : Invocation) (platform : Platform) (e : Environment)
    (input : Bytes) : Activity Unit :=
  match i.command with
  | .encode source out version hex =>
    performEncode platform e input i.options source out version hex
  | .decode source legacy hex autoShutdown =>
    performDecode platform e input i.options source legacy hex autoShutdown
  | .inspect source hex => performInspect platform e input i.options source hex
  | .configShow => performShow platform e input i.options
  | .configPath => print (Utf8.encode (i.options.settingsPath platform e ++ "\n"))
  | .configSet name value => performSet platform e input i.options name value
  | .completions shell => print (platform.completions shell)

/-- How a process ends. -/
inductive Ending where
  | refused (r : Refusal)
  | failed (f : Failure)
  | done
  deriving DecidableEq

/-- The status that a process exits with. -/
def Ending.exitStatus : Ending → Nat
  | refused .display | done => 0
  | refused .usage => 2
  | failed f => f.exitStatus

/-- The process of a command line: how it ends, and what it leaves. -/
def execute (platform : Platform) (e : Environment) (input : Bytes) (arguments : List String)
    (f : Files) : Ending × Process :=
  match parse e arguments with
  | .error r => (.refused r, { files := f })
  | .ok invocation =>
    match (invocation.perform platform e input).outcome { files := f } with
    | (.ok (), p) => (.done, p)
    | (.error failure, p) => (.failed failure, p)

/-- The outcome of a process that has ended. -/
def Ending.outcome (p : Process) : Ending → Outcome
  | refused r => .refused r
  | failed f => .failed f
  | done => .done p.output p.notice

end HotspotBackup.CommandLine
