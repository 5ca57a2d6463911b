import HotspotBackup.CommandLine.Run
import HotspotBackup.Proofs.CommandLines
import HotspotBackup.Proofs.Documents
import HotspotBackup.Proofs.FileSearch
import HotspotBackup.Proofs.HexText
import HotspotBackup.Proofs.Migration

/-!
# Backed up, shown, and backed up again

A document is backed up to a file, the backup is shown in JSON, and what is shown
is backed up to another file. Both files then hold the same octets: what is shown
is the document of what the layout keeps, and of that the layout writes the same.

* `Call.ofEncode` and `Call.ofDecode`: arguments that ask for the two commands.
* `Call.run_encode` and `Call.run_decode`: what the commands come to where nothing
  is in their way.
* `Pipeline`: the three commands, with the files that they run on.
* `Pipeline.runs_to_equal_backups`: each of them succeeds, and the second backup is the first.
-/

namespace HotspotBackup

namespace Backup

/-- What a layout keeps depends on the answer of the device only if the layout
is the oldest. -/
theorem reduce_congr {l : Layout} (hl : l ≠ .v5) (a a' : Bool) (c : Configuration) :
    c.reduce l a = c.reduce l a' := by
  cases l with
  | v5 => exact absurd rfl hl
  | v6 | v7 | v8 | v9 => exact Configuration.ext_draft rfl

/-- A configuration that fits is restored as its reduced one, where the device
answers if it is asked. -/
theorem decode_encode_of_device {c : Configuration} (hf : c.draft.Fits) {l : Layout}
    {p : Provider} {answer : Bool} (hp : l = .v5 → p = .ok answer) :
    (decode (encode l c) p).1 = .ok (c.reduce l answer) := by
  rw [decode_encode hf, restored]
  by_cases hl : l = .v5
  · rw [if_pos hl, hp hl]
    rfl
  · rw [if_neg hl, reduce_congr hl]

end Backup

namespace Settings

variable {words : String} {content : Option Bytes} {e : Environment}

theorem provider_eq_ok_iff {answer : Bool} : provider words content e = .ok answer ↔
    ∃ s, load content e = .ok s ∧ answer = s.autoShutdownEnabled := by
  unfold provider
  cases load content e <;> simp [eq_comm]

theorem provider_eq_error_iff {failure : BackupError} :
    provider words content e = .error failure ↔ ∃ fault, load content e = .error fault ∧
      failure = .unavailable "auto_shutdown_enabled" (fault.message words) := by
  unfold provider
  cases load content e <;> simp [eq_comm]

end Settings

namespace CommandLine

/-! ## Calls -/

/-- Arguments that ask for a command, on a platform and in an environment. -/
structure Call (command : Command) where
  platform : Platform
  environment : Environment
  arguments : List String
  options : Options
  parsed : parse environment arguments = .ok { options, command }

namespace Call

variable {command : Command} (call : Call command)

/-- The outcome of a call, and the files after it. -/
def run (input : Bytes) (f : Files) : Outcome × Files :=
  CommandLine.run call.platform call.environment input call.arguments f

/-- What a call can look at. -/
def world (input : Bytes) (f : Files) : World :=
  .of call.platform call.environment input f

/-- The path of the file of settings of a call. -/
def settingsPath : String :=
  call.options.settingsPath call.platform call.environment

/-- The settings that a call sees, or the defaults. -/
def settings (f : Files) : Settings :=
  Settings.loadOrDefault (f.find? call.settingsPath) call.environment

/-- The arguments that back a document up in a layout. -/
def ofEncode (platform : Platform) (e : Environment) (he : e.get? "SOFTAP_CONFIG" ≠ some "")
    {input path : String} (hinput : NamesFile input) (hpath : NamesFile path) (l : Layout)
    (hex : Bool) : Call (.encode input (some path) (some (Format.layout l).tag) hex) where
  platform := platform
  environment := e
  arguments := ["encode", input, "--format-version", toString l.number, "--out", path] ++
    if hex then ["--hex"] else []
  options := { config := e.get? "SOFTAP_CONFIG" }
  parsed := by
    have hplain : Plain (toString l.number) := by cases l <;> decide
    have hnumber : int32? (toString l.number) = some (Format.layout l).tag := by
      cases l <;> decide +kernel
    exact parse_encode he hinput hplain hnumber hpath hex

/-- The arguments that show a backup in a format. -/
def ofDecode (platform : Platform) (e : Environment) (he : e.get? "SOFTAP_CONFIG" ≠ some "")
    {path : String} (hpath : NamesFile path) (format : OutputFormat) (shutdown : Option Bool)
    (hex : Bool) : Call (.decode path false hex shutdown) where
  platform := platform
  environment := e
  arguments := ["decode", path, "--output", format.name] ++
    (shutdown.toList.flatMap fun b => ["--auto-shutdown", toString b]) ++
    if hex then ["--hex"] else []
  options := { config := e.get? "SOFTAP_CONFIG", output := some format }
  parsed := parse_decode he hpath format shutdown hex

theorem settingsOrDefault_world (input : Bytes) (f : Files) :
    (call.world input f).settingsOrDefault call.options = call.settings f := rfl

theorem run_of_plan {input : Bytes} {f : Files} {p : Plan}
    (h : Invocation.plan { options := call.options, command } (call.world input f) = .ok p) :
    call.run input f = p.carryOut f := by
  have hplan : Invocation.plan { options := call.options, command }
      (.of call.platform call.environment input f) = .ok p := h
  rw [run, CommandLine.run, call.parsed]
  simp only [hplan]

end Call

/-! ## The two commands -/

/-- The plan for a document that is accepted. -/
theorem encode_of_accepted {w : World} (o : Options) {input : String} (path : String)
    {text : Bytes} {c : Configuration} (l : Layout) (hex : Bool) (htext : w.load input = .ok text)
    (hc : configurationOf text = .ok c) : ∃ notice,
      encode w o input (some path) (some (Format.layout l).tag) hex = .ok {
        changes := [.write path (written (hex || (w.settingsOrDefault o).hex) (Backup.encode l c))]
        notice } := by
  have hformat : formatOf (some (Format.layout l).tag) = .ok (.layout l) := by
    rw [formatOf, Format.ofTag, Format.ofTag?_tag]
    rfl
  rw [encode, htext]
  simp only [bind, Except.bind, hc, hformat]
  exact ⟨_, rfl⟩

/-- A file is written with the backup of a document that is accepted. -/
theorem Call.run_encode {input path : String} {l : Layout} {hex : Bool}
    (call : Call (.encode input (some path) (some (Format.layout l).tag) hex))
    {stdin text : Bytes} {f g : Files} {c : Configuration}
    (htext : (call.world stdin f).load input = .ok text) (hc : configurationOf text = .ok c)
    (hg : f.write path (written (hex || (call.settings f).hex) (Backup.encode l c)) = (true, g)) :
    ∃ notice, call.run stdin f = (.done [] notice, g) := by
  obtain ⟨notice, hplan⟩ := encode_of_accepted call.options path l hex htext hc
  rw [call.settingsOrDefault_world] at hplan
  have hchanges : f.applyAll
      [.write path (written (hex || (call.settings f).hex) (Backup.encode l c))] = (true, g) := by
    rw [Files.applyAll, Files.apply, hg]
    rfl
  refine ⟨notice, (call.run_of_plan hplan).trans ?_⟩
  rw [Plan.carryOut, hchanges]

/-- A payload is read as it was written. -/
theorem payload_written {w : World} {path : String} {hex : Bool} {payload : Bytes}
    (h : w.load path = .ok (written hex payload)) : w.payload path hex = .ok payload := by
  rw [World.payload, h]
  cases hex with
  | false => rfl
  | true =>
    have hline : Hex.decode (written true payload) = .ok payload := Hex.decode_line payload
    simp only [bind, Except.bind, ↓reduceIte, hline]
    rfl

/-- A backup is shown as what it is restored to. -/
theorem Call.run_decode {path : String} {hex : Bool} {shutdown : Option Bool}
    (call : Call (.decode path false hex shutdown)) {stdin payload : Bytes} {f : Files}
    {c : Configuration} (hpath : isStandardInput path = false)
    (hread : f.read? path = some (written (hex || (call.settings f).hex) payload))
    (hc : (Backup.decode payload ((call.world stdin f).provider call.options shutdown)).1 = .ok c)
    (hloud : call.options.quiet = false) :
    call.run stdin f = (.done (Utf8.encode (c.draft.report.render
      (call.options.output.getD (call.settings f).format) ++ "\n")) "", f) := by
  have hload : (call.world stdin f).load path =
      .ok (written (hex || (call.settings f).hex) payload) := by
    have hworld : (call.world stdin f).read path = f.read? path := rfl
    rw [World.load, hpath, hworld, hread]
    rfl
  have hpayload := payload_written hload
  have hplan : decode (call.world stdin f) call.options path false hex shutdown =
      .ok (call.options.shown (call.settings f) c.draft.report) := by
    rw [decode, call.settingsOrDefault_world, hpayload]
    simp only [bind, Except.bind, Asking.run, Bool.false_eq_true, ↓reduceIte, hc]
    rfl
  rw [call.run_of_plan hplan, Options.shown, hloud]
  rfl

/-- What is shown in JSON is read back, in either spacing. -/
theorem parse?_render {format : OutputFormat} (h : format ≠ .yaml) (d : Draft) :
    Draft.parse? (Utf8.encode (d.report.render format ++ "\n")) = some d := by
  have hbreak : ∀ c ∈ "\n".toList, Json.isBlank c = true := by
    intro c hc
    cases List.mem_singleton.1 hc
    rfl
  cases format with
  | json => exact d.parse?_report .pretty hbreak
  | jsonCompact => exact d.parse?_report .compact hbreak
  | yaml => exact absurd rfl h

/-- A configuration that is shown is accepted as itself. -/
theorem configurationOf_of_parse? {text : Bytes} {c : Configuration}
    (h : Draft.parse? text = some c.draft) : configurationOf text = .ok c := by
  have hbuild : c.draft.build = .ok c := Draft.build_eq_ok_iff.2 rfl
  rw [configurationOf, h]
  simp only [hbuild]
  rfl

/-! ## Settings beside a written file -/

namespace Call

variable {command : Command} (call : Call command) {f g : Files} {path : String} {content : Bytes}

/-- A file beside the search for that of settings is written past the settings. -/
theorem settings_of_write (h : f.write path content = (true, g))
    (hbeside : f.Beside call.settingsPath path) : call.settings g = call.settings f := by
  rw [settings, settings, Files.find?_of_write_beside h hbeside]

theorem provider_of_write (h : f.write path content = (true, g))
    (hbeside : f.Beside call.settingsPath path) (input input' : Bytes) {shutdown : Option Bool}
    {answer : Bool} (ha : (call.world input' f).provider call.options shutdown = .ok answer) :
    (call.world input g).provider call.options shutdown = .ok answer := by
  cases shutdown with
  | some told => exact ha
  | none =>
    obtain ⟨s, hs, rfl⟩ := Settings.provider_eq_ok_iff.1 ha
    have hsettings : Settings.load (f.find? call.settingsPath) call.environment = .ok s := hs
    rw [← Files.find?_of_write_beside h hbeside] at hsettings
    exact Settings.provider_eq_ok_iff.2 ⟨s, hsettings, rfl⟩

end Call

/-! ## The pipeline -/

/-- Three calls: a document is backed up in a layout, the backup is shown, and
what is shown is backed up in that layout again. -/
structure Pipeline where
  layout : Layout
  document : String
  backup : String
  again : String
  /-- Whether the calls are told that payloads are hexadecimal text. -/
  writeHex : Bool
  showHex : Bool
  rewriteHex : Bool
  /-- What the second call is told about the device. -/
  shutdown : Option Bool
  writing : Call (.encode document (some backup) (some (Format.layout layout).tag) writeHex)
  showing : Call (.decode backup false showHex shutdown)
  rewriting : Call (.encode "-" (some again) (some (Format.layout layout).tag) rewriteHex)
  /-- The standard input of the first call. -/
  input : Bytes
  files : Files

namespace Pipeline

/-- Nothing is in the way of a pipeline whose document is that of `c`, whose
payloads are hexadecimal text if `hex` says so, and whose device answers
`answer`. -/
structure Unhindered (t : Pipeline) (c : Configuration) (hex answer : Bool) : Prop where
  accepted : ∃ text, (t.writing.world t.input t.files).load t.document = .ok text ∧
    configurationOf text = .ok c
  fits : c.draft.Fits
  writes : (t.writeHex || (t.writing.settings t.files).hex) = hex
  shows : (t.showHex || (t.showing.settings t.files).hex) = hex
  rewrites : (t.rewriteHex || (t.rewriting.settings t.files).hex) = hex
  device : t.layout = .v5 →
    (t.showing.world t.input t.files).provider t.showing.options t.shutdown = .ok answer
  loud : t.showing.options.quiet = false
  json : t.showing.options.output.getD (t.showing.settings t.files).format ≠ .yaml
  writable : t.files.Writable t.backup
  writableAgain : t.files.Writable t.again
  isFile : isStandardInput t.backup = false
  /-- The backup is not where the calls after it search for their settings. -/
  besideShown : t.files.Beside t.showing.settingsPath t.backup
  besideRewritten : t.files.Beside t.rewriting.settingsPath t.backup

/-- Each of the three calls succeeds, what is shown is the document of what the
layout keeps, and the second backup is the first. -/
theorem runs_to_equal_backups (t : Pipeline) {c : Configuration} {hex answer : Bool}
    (h : t.Unhindered c hex answer) (idle : Bytes) :
    ∃ shown f₁ f₂ notice notice',
      t.writing.run t.input t.files = (.done [] notice, f₁) ∧
      t.showing.run idle f₁ = (.done shown "", f₁) ∧
      Configuration.parse? shown = some (c.reduce t.layout answer) ∧
      t.rewriting.run shown f₁ = (.done [] notice', f₂) ∧
      f₂.read? t.backup = some (written hex (Backup.encode t.layout c)) ∧
      f₂.read? t.again = f₂.read? t.backup := by
  -- the first backup
  obtain ⟨text, hload, hc⟩ := h.accepted
  obtain ⟨f₁, hf₁⟩ := h.writable (written hex (Backup.encode t.layout c))
  have hwrite := hf₁
  rw [← h.writes] at hwrite
  obtain ⟨notice, hwriting⟩ := t.writing.run_encode hload hc hwrite
  have hbackup := Files.read?_of_write hf₁
  -- what is shown of it
  have hshows := t.showing.settings_of_write hf₁ h.besideShown
  have hread : f₁.read? t.backup = some (written (t.showHex || (t.showing.settings f₁).hex)
      (Backup.encode t.layout c)) := by
    rw [hshows, h.shows, hbackup]
  have hrestored := Backup.decode_encode_of_device h.fits fun hl =>
    t.showing.provider_of_write hf₁ h.besideShown idle t.input (h.device hl)
  have hshowing := t.showing.run_decode h.isFile hread hrestored h.loud
  rw [hshows] at hshowing
  have hdraft := parse?_render h.json (c.reduce t.layout answer).draft
  -- the second backup, of the same octets
  have hsame : Backup.encode t.layout (c.reduce t.layout answer) = Backup.encode t.layout c :=
    Backup.encode_reduce (Nat.le_refl _) answer c
  obtain ⟨f₂, hf₂⟩ := h.writableAgain.of_write hf₁ (written hex (Backup.encode t.layout c))
  have hrewrite := hf₂
  rw [← hsame, ← h.rewrites, ← t.rewriting.settings_of_write hf₁ h.besideRewritten] at hrewrite
  obtain ⟨notice', hrewriting⟩ :=
    t.rewriting.run_encode rfl (configurationOf_of_parse? hdraft) hrewrite
  have hkept := Files.read?_of_write_same hf₂ hbackup
  exact ⟨_, f₁, f₂, notice, notice', hwriting, hshowing, Configuration.parse?_of_draft hdraft,
    hrewriting, hkept, (Files.read?_of_write hf₂).trans hkept.symm⟩

/-- Settings of which the oldest layout loses some. -/
def porch : Configuration where
  draft := { ssid := some "porch", channels := ChannelMap.insert .ghz5 36 ∅ }
  accepted := by decide

/-- Files with a document of them. -/
def porchFiles : Files where
  start := []
  entry l :=
    if l = [] then some (.directory true)
    else if l = ["porch.json"] then
      some (.file (Utf8.encode "\x7b\"ssid\": \"porch\", \"channels\": \x7b\"2\": 36\x7d\x7d"))
    else none

/-- An environment in which payloads are hexadecimal text. -/
def hexEnvironment : Environment :=
  [("SOFTAP_DEFAULTS__HEX", "true")]

/-- Backed up by that environment, and shown and backed up again by switches, in
the oldest layout. -/
def porchPipeline : Pipeline where
  layout := .v5
  document := "porch.json"
  backup := "porch.hex"
  again := "again.hex"
  writeHex := false
  showHex := true
  rewriteHex := true
  shutdown := some false
  writing := .ofEncode default hexEnvironment (by decide) ⟨by decide, by decide⟩
    ⟨by decide, by decide⟩ .v5 false
  showing := .ofDecode default [] (by decide) ⟨by decide, by decide⟩ .jsonCompact (some false) true
  rewriting := .ofEncode default [] (by decide) ⟨by decide, by decide⟩
    ⟨by decide, by decide⟩ .v5 true
  input := []
  files := porchFiles

theorem unhindered_porch : porchPipeline.Unhindered porch true false where
  accepted := by
    refine ⟨_, rfl, ?_⟩
    decide +kernel
  fits := ⟨fun _ h => (nomatch h), by decide, by decide⟩
  writes := by decide +kernel
  shows := by decide +kernel
  rewrites := by decide +kernel
  device _ := rfl
  loud := rfl
  json := by decide +kernel
  writable := by
    refine Files.writable_of_entry (l := ["porch.hex"]) (by decide +kernel) (.inr ⟨?_, ?_⟩) <;>
      decide +kernel
  writableAgain := by
    refine Files.writable_of_entry (l := ["again.hex"]) (by decide +kernel) (.inr ⟨?_, ?_⟩) <;>
      decide +kernel
  isFile := by decide +kernel
  besideShown := Files.beside_of_searched (by decide +kernel)
  besideRewritten := Files.beside_of_searched (by decide +kernel)

theorem runs_to_equal_backups_porch : porchPipeline.Unhindered porch true false ∧
    ∃ shown f₁ f₂ notice notice',
      porchPipeline.writing.run [] porchFiles = (.done [] notice, f₁) ∧
      porchPipeline.showing.run [] f₁ = (.done shown "", f₁) ∧
      Configuration.parse? shown = some (porch.reduce .v5 false) ∧
      porchPipeline.rewriting.run shown f₁ = (.done [] notice', f₂) ∧
      f₂.read? "porch.hex" = some (written true (Backup.encode .v5 porch)) ∧
      f₂.read? "again.hex" = f₂.read? "porch.hex" :=
  ⟨unhindered_porch, porchPipeline.runs_to_equal_backups unhindered_porch []⟩

end Pipeline

end CommandLine

end HotspotBackup
