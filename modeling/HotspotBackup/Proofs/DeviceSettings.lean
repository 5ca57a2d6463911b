import HotspotBackup.Proofs.Pipeline
import HotspotBackup.Proofs.Processes
import HotspotBackup.Proofs.Stages

/-!
# What a restore takes from the settings

A restore on the command line looks at the settings twice. For the form of its
payload and of its report it takes the defaults where there are no settings; for
the device, which it asks only where the payload lacks a setting, it fails.

* `restoring_eq_error_iff`, `provider_of_restoring`: where a payload asks, the
  device is what the restore fails with, or what it takes over.
* `parse_environment`: arguments ask for the same in every environment, the file
  of settings apart.
* `Call.execute_decode`: a process that restores shows what its payload is
  restored to.
* `Call.restore_fails_closed`: so it fails for want of settings only if they are
  needed, and what they do not decide does not depend on them.
-/

namespace HotspotBackup

namespace Backup

/-! ## Payloads -/

/-- The restore of a payload, which is a bare legacy record if it is said to be
one. -/
def restoring (legacy : Bool) (b : Bytes) : Asking Configuration :=
  if legacy then decodeLegacy b else decode b

/-- Payloads for which the device is asked. -/
def Asks (legacy : Bool) (b : Bytes) : Prop :=
  if legacy then AsksBare b else AsksTagged b

/-- Payloads with the tag of a newer layout than the oldest. -/
def Newer (legacy : Bool) (b : Bytes) : Prop :=
  legacy = false ∧ ∃ l, peekFormat b = .ok (.layout l) ∧ l ≠ .v5

section

variable {legacy : Bool} {b : Bytes} {p : Provider} {failure : BackupError} {c : Configuration}

theorem asksOnce_restoring (h : Asks legacy b) : AsksOnce (restoring legacy b) := by
  cases legacy with
  | true => exact asksOnce_decodeLegacy h
  | false => exact asksOnce_decode h

theorem silent_restoring (h : ¬ Asks legacy b) : Silent (restoring legacy b) := by
  cases legacy with
  | true => exact silent_decodeLegacy h
  | false => exact silent_decode h

theorem not_asks_of_newer (h : Newer legacy b) : ¬ Asks legacy b := by
  obtain ⟨rfl, l, hl, hne⟩ := h
  exact not_asksTagged hl hne

/-- A restore fails because of the octets, or with the device. -/
theorem isMalformed_of_restoring (h : (restoring legacy b p).1 = .error failure) :
    failure.isMalformed = true ∨ p = .error failure := by
  cases legacy with
  | true =>
    obtain ⟨stage, hf⟩ := ((decidedBy_decodeBody .legacy b p).error_iff failure).1 h
    rcases malformed_of_bodyFault hf.here with ⟨cause, rfl⟩ | ⟨-, hp⟩
    · exact .inl rfl
    · exact .inr hp
  | false =>
    obtain ⟨stage, hf⟩ := ((decidedBy_decode b p).error_iff failure).1 h
    exact (isMalformed_of_fault hf.here).imp_right And.right

/-- What is not the fault of the octets is the failure of a device that is
asked. -/
theorem restoring_eq_error_iff (hf : failure.isMalformed = false) :
    (restoring legacy b p).1 = .error failure ↔ Asks legacy b ∧ p = .error failure := by
  have hdevice : ∀ q, (restoring legacy b q).1 = .error failure → q = .error failure := by
    intro q hq
    rcases isMalformed_of_restoring hq with hm | hq
    · rw [hf] at hm
      cases hm
    · exact hq
  refine ⟨fun h => ⟨Classical.byContradiction fun hasks => ?_, hdevice p h⟩, fun ⟨hasks, hp⟩ => ?_⟩
  · -- a silent restore would fail in the same way with a device that answers
    obtain ⟨r, hr⟩ := silent_restoring hasks
    rw [hr p] at h
    have hother := hdevice (.ok true) (by rw [hr, h])
    cases hother
  · obtain ⟨d, cause, h⟩ := asksOnce_restoring hasks
    rw [h, hp]
    rfl

/-- What is restored from an older payload has the answer of the device. -/
theorem provider_of_restoring (hb : ¬ Newer legacy b) (h : (restoring legacy b p).1 = .ok c) :
    p = .ok c.draft.autoShutdownEnabled := by
  have hbare : ∀ {e : Bytes}, (decodeLegacy e p).1 = .ok c →
      p = .ok c.draft.autoShutdownEnabled := by
    intro e he
    obtain ⟨r, answer, -, hp, hc⟩ := exists_of_decodeLegacy he
    rw [hp, hc]
    rfl
  cases legacy with
  | true => exact hbare h
  | false =>
    have h : (decode b p).1 = .ok c := h
    cases hr : readFormat b with
    | error e =>
      rw [decode_of_error hr] at h
      cases h
    | ok found =>
      obtain ⟨format, rest⟩ := found
      rw [decode_of_format hr] at h
      cases format with
      | legacy => exact hbare h
      | layout l =>
        have hl : l = .v5 := Classical.byContradiction fun hne =>
          hb ⟨rfl, l, peekFormat_eq_ok_iff.2 ⟨rest, hr⟩, hne⟩
        exact (decodeLayout_eq_ok_iff.1 h).2.asked hl

end

end Backup

namespace CommandLine

/-! ## Arguments in another environment -/

theorem of_guard_eq_ok {α ε : Type} {p : Prop} [Decidable p] {fault : ε} {r : Except ε α} {a : α}
    (h : (if p then .error fault else r) = .ok a) : r = .ok a := by
  split at h
  · cases h
  · exact h

theorem settle_of_close {e : Environment} {s t : Scope} (h : s.close e = .ok t) :
    s.settle = .ok t := by
  obtain ⟨settled, hsettle, h⟩ := bind_eq_ok_iff.1 h
  exact hsettle.trans (of_guard_eq_ok (of_guard_eq_ok h))

/-- By induction on the list: what succeeds for each element succeeds for all of
them, with the same result. -/
theorem mapM_eq_ok_of_imp {α β ε : Type} {f g : α → Except ε β}
    (h : ∀ a b, f a = .ok b → g a = .ok b) {l : List α} {found : List β}
    (hf : l.mapM f = .ok found) : l.mapM g = .ok found := by
  induction l generalizing found with
  | nil => exact hf
  | cons a l ih =>
    rw [List.mapM_cons] at hf ⊢
    obtain ⟨b, hb, hf⟩ := bind_eq_ok_iff.1 hf
    obtain ⟨bs, hbs, hf⟩ := bind_eq_ok_iff.1 hf
    exact bind_eq_ok_iff.2 ⟨b, h a b hb, bind_eq_ok_iff.2 ⟨bs, ih hbs, hf⟩⟩

variable {e e' : Environment} {arguments : List String}

/-- The environment can only turn scopes away. -/
theorem scopes_environment {found found' : List Scope} (h : scopes e arguments = .ok found)
    (h' : scopes e' arguments = .ok found') : found' = found := by
  obtain ⟨progress, hprogress, h⟩ := bind_eq_ok_iff.1 h
  obtain ⟨progress', hprogress', h'⟩ := bind_eq_ok_iff.1 h'
  cases hprogress.symm.trans hprogress'
  cases progress with
  | helping l => cases h
  | reading s outer =>
    obtain ⟨closed, hclosed, h⟩ := bind_eq_ok_iff.1 h
    obtain ⟨closed', hclosed', h'⟩ := bind_eq_ok_iff.1 h'
    have hsettled := mapM_eq_ok_of_imp (fun _ _ => settle_of_close) hclosed
    have hsettled' := mapM_eq_ok_of_imp (fun _ _ => settle_of_close) hclosed'
    cases hsettled.symm.trans hsettled'
    cases hlevel : s.level.subcommands.isEmpty with
    | true =>
      simp only [hlevel, ↓reduceIte] at h h'
      cases h
      cases h'
      rfl
    | false =>
      rw [hlevel] at h
      cases h

/-- Arguments ask for the same in two environments, the file of settings apart. -/
theorem parse_environment {i i' : Invocation} (hi : parse e arguments = .ok i)
    (hi' : parse e' arguments = .ok i') :
    i'.command = i.command ∧ i'.options.output = i.options.output ∧
      i'.options.quiet = i.options.quiet := by
  obtain ⟨found, hfound, hi⟩ := bind_eq_ok_iff.1 hi
  obtain ⟨found', hfound', hi'⟩ := bind_eq_ok_iff.1 hi'
  cases scopes_environment hfound hfound'
  cases hcommand : found.head? >>= command? with
  | none =>
    rw [hcommand] at hi
    cases hi
  | some command =>
    rw [hcommand] at hi hi'
    cases hi
    cases hi'
    exact ⟨rfl, rfl, rfl⟩

/-! ## Restores -/

section

variable (w : World) (o : Options) (source : String) (legacy hex : Bool) (shutdown : Option Bool)

/-- The payload that a restore reads. -/
def World.restoredPayload : Except Failure Bytes :=
  w.payload source (hex || (w.settingsOrDefault o).hex)

/-- The configuration that a payload is restored to. -/
def World.restored : Except Failure Configuration := do
  let payload ← w.restoredPayload o source hex
  ((Backup.restoring legacy payload).run (w.provider o shutdown)).1.mapError .backup

/-- What is shown is the configuration that the payload is restored to. -/
theorem decode_eq_map : decode w o source legacy hex shutdown =
    (fun c => o.shown (w.settingsOrDefault o) c.draft.report) <$>
      w.restored o source legacy hex shutdown := by
  simp only [decode, World.restored, World.restoredPayload, Backup.restoring,
    map_eq_pure_bind, bind_assoc]

end

theorem failure_of_load {w : World} {path : String} {failure : Failure}
    (h : w.load path = .error failure) : failure = .file := by
  unfold World.load at h
  split at h
  · cases h
  · split at h
    · cases h
    · cases h
      rfl

theorem exitStatus_of_payload {w : World} {path : String} {hex : Bool} {failure : Failure}
    (h : w.payload path hex = .error failure) : failure.exitStatus ≠ 6 := by
  unfold World.payload at h
  cases hload : w.load path with
  | error failure' =>
    rw [hload] at h
    cases h
    rw [failure_of_load hload]
    decide
  | ok content =>
    rw [hload] at h
    cases hex with
    | false => cases h
    | true =>
      have h : (Hex.decode content).mapError Failure.hexText = .error failure := h
      cases hdecode : Hex.decode content with
      | error fault =>
        rw [hdecode] at h
        cases h
        show 4 ≠ 6
        decide
      | ok b =>
        rw [hdecode] at h
        cases h

theorem exitStatus_backup_iff {failure : BackupError} : (Failure.backup failure).exitStatus = 6 ↔
    ∃ what reason, failure = .unavailable what reason := by
  cases failure <;> simp [Failure.exitStatus]

namespace Call

/-- The process of a call. -/
def execute {command : Command} (call : Call command) (input : Bytes) (f : Files) :
    Ending × Process :=
  CommandLine.execute call.platform call.environment input call.arguments f

variable {source : String} {legacy hex : Bool} {shutdown : Option Bool}
  (call : Call (.decode source legacy hex shutdown)) (input : Bytes) (f : Files)

/-- The payload that a call restores. -/
def payload : Except Failure Bytes :=
  (call.world input f).restoredPayload call.options source hex

/-- What a call restores it to. -/
def restored : Except Failure Configuration :=
  (call.world input f).restored call.options source legacy hex shutdown

/-- How a call shows a configuration. -/
def shown (c : Configuration) : Bytes :=
  (call.options.shown (call.settings f) c.draft.report).output

/-- A process that restores shows what its payload is restored to, or fails as
the restore does. -/
theorem execute_decode : call.execute input f = match call.restored input f with
    | .error failure => (.failed failure, { files := f })
    | .ok c => (.done, { files := f, output := call.shown f c }) := by
  have hplan : Invocation.plan
      { options := call.options, command := .decode source legacy hex shutdown }
      (.of call.platform call.environment input f) =
        (fun c => call.options.shown (call.settings f) c.draft.report) <$>
          call.restored input f := decode_eq_map ..
  cases hc : call.restored input f with
  | error failure =>
    rw [hc] at hplan
    exact execute_of_failure call.parsed hplan
  | ok c =>
    rw [hc] at hplan
    refine (execute_of_plan call.parsed hplan).trans ?_
    rw [changes_shown]
    show (Ending.done, _) = _
    rw [notice_shown]
    rfl

/-! ## Failures and answers of the device -/

/-- The settings that a call finds. -/
def found (f : Files) : Except SettingsFault Settings :=
  Settings.load (f.find? call.settingsPath) call.environment

/-- What a call is told of settings that cannot be read. -/
def words (f : Files) : String :=
  call.platform.unreadable f call.settingsPath call.environment

/-- The device that a call asks. -/
def device (input : Bytes) (f : Files) : Provider :=
  (call.world input f).provider call.options shutdown

/-- What the device is taken to answer: what the call is told, or what it finds
in the settings. -/
def Answers (f : Files) (answer : Bool) : Prop :=
  (∀ told, shutdown = some told → answer = told) ∧
    (shutdown = none → ∃ s, call.found f = .ok s ∧ answer = s.autoShutdownEnabled)

theorem device_eq_ok_iff {input : Bytes} {f : Files} {answer : Bool} :
    call.device input f = .ok answer ↔ call.Answers f answer := by
  cases shutdown with
  | some told =>
    have hdevice : call.device input f = .ok told := rfl
    simp [hdevice, Answers, eq_comm]
  | none =>
    have hdevice : call.device input f = .ok answer ↔
        ∃ s, call.found f = .ok s ∧ answer = s.autoShutdownEnabled := Settings.provider_eq_ok_iff
    simp [hdevice, Answers]

theorem device_eq_error_iff {input : Bytes} {f : Files} {failure : BackupError} :
    call.device input f = .error failure ↔ shutdown = none ∧ ∃ fault,
      call.found f = .error fault ∧
        failure = .unavailable "auto_shutdown_enabled" (fault.message (call.words f)) := by
  cases shutdown with
  | some told => exact ⟨nofun, fun h => nomatch h.1⟩
  | none => exact Settings.provider_eq_error_iff.trans (and_iff_right rfl).symm

theorem restored_of_unread {failure : Failure} (h : call.payload input f = .error failure) :
    call.restored input f = .error failure := by
  have hpayload : (call.world input f).restoredPayload call.options source hex =
      .error failure := h
  rw [restored, World.restored, hpayload]
  rfl

theorem restored_of_payload {b : Bytes} (h : call.payload input f = .ok b) :
    call.restored input f =
      (Backup.restoring legacy b (call.device input f)).1.mapError .backup := by
  have hpayload : (call.world input f).restoredPayload call.options source hex = .ok b := h
  rw [restored, World.restored, hpayload]
  rfl

/-- A restore fails for want of settings exactly if its payload asks for them,
and they are neither told nor found. -/
theorem exitStatus_restored_iff :
    (∃ failure, call.restored input f = .error failure ∧ failure.exitStatus = 6) ↔
      shutdown = none ∧ ∃ b fault, call.payload input f = .ok b ∧ Backup.Asks legacy b ∧
        call.found f = .error fault := by
  cases hb : call.payload input f with
  | error failure =>
    refine ⟨fun ⟨failure', h, hstatus⟩ => ?_, fun ⟨_, _, _, h, _⟩ => nomatch h⟩
    cases (call.restored_of_unread input f hb).symm.trans h
    exact absurd hstatus (exitStatus_of_payload hb)
  | ok b =>
    rw [call.restored_of_payload input f hb]
    constructor
    · rintro ⟨failure, h, hstatus⟩
      cases hr : (Backup.restoring legacy b (call.device input f)).1 with
      | ok c =>
        rw [hr] at h
        cases h
      | error e =>
        rw [hr] at h
        cases h
        obtain ⟨what, reason, rfl⟩ := exitStatus_backup_iff.1 hstatus
        obtain ⟨hasks, hdevice⟩ := (Backup.restoring_eq_error_iff rfl).1 hr
        obtain ⟨hnone, fault, hfault, -⟩ := call.device_eq_error_iff.1 hdevice
        exact ⟨hnone, b, fault, rfl, hasks, hfault⟩
    · rintro ⟨hnone, b', fault, hb', hasks, hfault⟩
      cases hb'
      have hdevice : call.device input f = .error _ :=
        call.device_eq_error_iff.2 ⟨hnone, fault, hfault, rfl⟩
      rw [(Backup.restoring_eq_error_iff rfl).2 ⟨hasks, hdevice⟩]
      exact ⟨_, rfl, rfl⟩

/-- What is restored from an older payload has what the device is taken to
answer. -/
theorem answers_of_restored {c : Configuration} (h : call.restored input f = .ok c) :
    ∃ b, call.payload input f = .ok b ∧
      (¬ Backup.Newer legacy b → call.Answers f c.draft.autoShutdownEnabled) := by
  cases hb : call.payload input f with
  | error failure => cases (call.restored_of_unread input f hb).symm.trans h
  | ok b =>
    rw [call.restored_of_payload input f hb, mapError_eq_ok_iff] at h
    exact ⟨b, rfl, fun hold => call.device_eq_ok_iff.1 (Backup.provider_of_restoring hold h)⟩

/-! ## Restores fail closed -/

/-- A call that restores depends on the settings for what its payload lacks, and
for nothing else. -/
structure FailsClosed : Prop where
  /-- It fails for want of settings exactly if they are needed, and it is neither
  told what they say nor finds them. -/
  unavailable : (call.execute input f).1.exitStatus = 6 ↔
    shutdown = none ∧ ∃ b fault, call.payload input f = .ok b ∧ Backup.Asks legacy b ∧
      call.found f = .error fault
  silent : (call.execute input f).1.exitStatus = 6 → (call.execute input f).2.output = []
  /-- A configuration is shown with the setting that the call is told or finds,
  unless it is from a newer payload. -/
  answered : (call.execute input f).1 = .done → ∃ b c,
    call.payload input f = .ok b ∧ call.restored input f = .ok c ∧
      (call.execute input f).2.output = call.shown f c ∧
        (¬ Backup.Newer legacy b → call.Answers f c.draft.autoShutdownEnabled)
  /-- Of settings, whether they can be read or not, a newer payload sees its own
  form and that of the report. -/
  newer : ∀ b, call.payload input f = .ok b → Backup.Newer legacy b →
    ∀ (command : Command) (other : Call command) (input' : Bytes) (f' : Files),
      other.arguments = call.arguments →
      (other.world input' f').load source = (call.world input f).load source →
      (hex || (other.settings f').hex) = (hex || (call.settings f).hex) →
      other.options.output.getD (other.settings f').format =
        call.options.output.getD (call.settings f).format →
      (other.execute input' f').1 = (call.execute input f).1 ∧
        (other.execute input' f').2.output = (call.execute input f).2.output ∧
        (other.world input' f').restored other.options source legacy hex shutdown =
          call.restored input f

theorem exitStatus_execute_iff : (call.execute input f).1.exitStatus = 6 ↔
    ∃ failure, call.restored input f = .error failure ∧ failure.exitStatus = 6 := by
  rw [execute_decode]
  cases call.restored input f with
  | error failure => exact ⟨fun h => ⟨failure, rfl, h⟩, fun ⟨_, h, hs⟩ => by cases h; exact hs⟩
  | ok c => exact ⟨nofun, fun ⟨_, h, _⟩ => nomatch h⟩

/-- Two calls that read one newer payload restore it to the same. -/
theorem restored_of_newer {other : Call (.decode source legacy hex shutdown)} {b : Bytes}
    {input' : Bytes} {f' : Files} (hb : call.payload input f = .ok b)
    (hb' : other.payload input' f' = .ok b) (hnewer : Backup.Newer legacy b) :
    other.restored input' f' = call.restored input f := by
  obtain ⟨r, hr⟩ := Backup.silent_restoring (Backup.not_asks_of_newer hnewer)
  rw [other.restored_of_payload input' f' hb', call.restored_of_payload input f hb, hr, hr]

/-- Every restore fails closed, and only where it must. -/
theorem restore_fails_closed : call.FailsClosed input f where
  unavailable := (call.exitStatus_execute_iff input f).trans (call.exitStatus_restored_iff input f)
  silent h := by
    obtain ⟨failure, hr, -⟩ := (call.exitStatus_execute_iff input f).1 h
    rw [execute_decode, hr]
  answered h := by
    cases hc : call.restored input f with
    | error failure =>
      rw [execute_decode, hc] at h
      cases h
    | ok c =>
      obtain ⟨b, hb, hanswers⟩ := call.answers_of_restored input f hc
      refine ⟨b, c, hb, rfl, ?_, hanswers⟩
      rw [execute_decode, hc]
  newer b hb hnewer command other input' f' harguments hload hhex hformat := by
    obtain ⟨rfl, -, hquiet⟩ := parse_environment call.parsed (harguments ▸ other.parsed)
    have hquiet : other.options.quiet = call.options.quiet := hquiet
    have hb' : other.payload input' f' = .ok b := by
      rw [← hb]
      show (other.world input' f').payload source (hex || (other.settings f').hex) = _
      rw [World.payload, hload, hhex]
      rfl
    have hrestored : other.restored input' f' = call.restored input f :=
      call.restored_of_newer input f hb hb' hnewer
    have hshown : other.shown f' = call.shown f := by
      funext c
      simp only [shown, Options.shown, hquiet, hformat]
    rw [execute_decode, execute_decode, hrestored, hshown]
    refine ⟨?_, ?_, hrestored⟩
    · cases call.restored input f <;> rfl
    · cases call.restored input f <;> rfl

/-- Two backups of one configuration, in the oldest layout and in the newest,
in a directory below that of a file of settings. -/
def verandaFiles (settings : String) : Files where
  start := ["backups"]
  entry l :=
    if l = [] ∨ l = ["backups"] then some (.directory true)
    else if l = ["config.toml"] then some (.file (Utf8.encode settings))
    else if l = ["backups", "old.bak"] then some (.file (Backup.encode .v5 .default))
    else if l = ["backups", "new.bak"] then some (.file (Backup.encode .v9 .default))
    else none

/-- The old backup is restored without a word about the device. -/
def verandaUntold : Call (.decode "old.bak" false false none) where
  platform := default
  environment := []
  arguments := ["--config", "config.toml", "decode", "old.bak"]
  options := { config := some "config.toml" }
  parsed := by decide +kernel

/-- It is restored with a setting that is told. -/
def verandaTold : Call (.decode "old.bak" false false (some false)) where
  platform := default
  environment := []
  arguments := ["--config", "config.toml", "decode", "old.bak", "--auto-shutdown", "false"]
  options := { config := some "config.toml" }
  parsed := by decide +kernel

/-- The new backup is restored. -/
def verandaNew : Call (.decode "new.bak" false false none) where
  platform := default
  environment := []
  arguments := ["--config", "config.toml", "decode", "new.bak"]
  options := { config := some "config.toml" }
  parsed := by decide +kernel

/-- Settings that break off. -/
def brokenOff : Files :=
  verandaFiles "[device\nauto_shutdown_enabled = "

/-- Settings that are whole. -/
def whole : Files :=
  verandaFiles "[device]\nauto_shutdown_enabled = false\n"

/-- Where the settings break off, the old backup is restored only with a setting
that is told, and the new one as with settings that are whole. -/
theorem restore_fails_closed_veranda :
    (verandaUntold.execute [] brokenOff).1.exitStatus = 6 ∧
      (verandaUntold.execute [] brokenOff).2.output = [] ∧
      (∃ b fault, verandaUntold.payload [] brokenOff = .ok b ∧ Backup.Asks false b ∧
        verandaUntold.found brokenOff = .error fault) ∧
      (∃ c, verandaTold.restored [] brokenOff = .ok c ∧
        c.draft.autoShutdownEnabled = false) ∧
      (verandaNew.execute [] brokenOff).1 = .done ∧
        (verandaNew.execute [] whole).2.output =
          (verandaNew.execute [] brokenOff).2.output := by
  have hstatus : (verandaUntold.execute [] brokenOff).1.exitStatus = 6 := by decide +kernel
  have hdone : (verandaTold.execute [] brokenOff).1 = .done := by decide +kernel
  have hold : verandaTold.payload [] brokenOff = .ok (Backup.encode .v5 .default) := by
    decide +kernel
  have hnew : verandaNew.payload [] brokenOff = .ok (Backup.encode .v9 .default) := by
    decide +kernel
  have hnewer : Backup.Newer false (Backup.encode .v9 .default) := ⟨rfl, .v9, rfl, by decide⟩
  have holder : ¬ Backup.Newer false (Backup.encode .v5 .default) := by
    rintro ⟨-, l, hl, hne⟩
    cases hl
    exact hne rfl
  have hasked := (verandaUntold.restore_fails_closed [] brokenOff).unavailable.1 hstatus
  obtain ⟨b, c, hb, hc, -, htold⟩ := (verandaTold.restore_fails_closed [] brokenOff).answered hdone
  cases hold.symm.trans hb
  have hsame := (verandaNew.restore_fails_closed [] brokenOff).newer _ hnew hnewer _ verandaNew []
    whole rfl
  refine ⟨hstatus, (verandaUntold.restore_fails_closed [] brokenOff).silent hstatus, hasked.2,
    ⟨c, hc, (htold holder).1 false rfl⟩, by decide +kernel, (hsame ?_ ?_ ?_).2.1⟩
  · decide +kernel
  · decide +kernel
  · decide +kernel

end Call

end CommandLine

end HotspotBackup
