import HotspotBackup.Backup

/-!
# Sessions

A session holds a draft, the configuration last made, a payload and the
provider that restores ask. Its steps edit the draft, make configurations
of it, write and edit the payload, and restore from it. A step that fails
leaves the configuration and the payload as they were.
-/

namespace HotspotBackup

/-- What a run of steps works on. -/
structure Session where
  draft : Draft := {}
  configuration : Configuration := .default
  payload : Bytes := []
  provider : Provider := .ok true

namespace Session

/-- A change of the draft. -/
inductive Edit where
  | field (f : Field) (value : f.Value)
  /-- A channel together with its band. -/
  | channel (number : UInt32) (band : Band)
  /-- A passphrase together with the security type that it keys. -/
  | passphrase (phrase : Option String) (security : SecurityType)

/-- The draft after a change. -/
def Edit.apply (d : Draft) : Edit → Draft
  | .field f value => Field.set d f value
  | .channel number band => { d with channel := number, band := band }
  | .passphrase phrase security => { d with passphrase := phrase, securityType := security }

/-- One step of a session. -/
inductive Step where
  | edit (e : Edit)
  | build
  /-- The draft becomes the default one. -/
  | reset
  /-- The draft becomes that of the configuration. -/
  | reopen
  | inspect
  | encode
  | encodeAs (tag : Int32)
  | load (payload : Bytes)
  /-- Octets are overwritten from an offset on, never past the end. -/
  | patch (offset : Nat) (octets : Bytes)
  | append (octets : Bytes)
  | truncate (size : Nat)
  | provide (p : Provider)
  | peek
  | decode
  | decodeLegacy

/-- What a step answers. -/
inductive Answer where
  | done
  | failed (e : BackupError)
  | configuration (c : Configuration)
  | payload (b : Bytes)
  | size (n : Nat)
  | format (f : Format)
  /-- A restored configuration, whether it is the one held before, and the
  number of lookups. -/
  | restored (c : Configuration) (unchanged : Bool) (lookups : Nat)
  | refused (e : BackupError) (lookups : Nat)

/-- The octets with those from `offset` on overwritten, at the same length. -/
def overwrite (offset : Nat) (octets payload : Bytes) : Bytes :=
  (payload.take offset ++ octets ++ payload.drop (offset + octets.length)).take payload.length

/-- The session after a restore. -/
def restore (s : Session) (outcome : Except BackupError Configuration × Nat) : Answer × Session :=
  match outcome with
  | (.ok c, n) => (.restored c (c = s.configuration) n, { s with configuration := c })
  | (.error e, n) => (.refused e n, s)

/-- The answer of a step and the session after it. -/
def step (s : Session) : Step → Answer × Session
  | .edit e =>
    let draft := e.apply s.draft
    (match draft.build with
      | .ok _ => .done
      | .error v => .failed (.invalid v), { s with draft })
  | .build =>
    match s.draft.build with
    | .ok c => (.configuration c, { s with configuration := c })
    | .error v => (.failed (.invalid v), s)
  | .reset => (.done, { s with draft := {} })
  | .reopen => (.done, { s with draft := s.configuration.draft })
  | .inspect => (.configuration s.configuration, s)
  | .encode =>
    let payload := Backup.encodeCurrent s.configuration
    (.payload payload, { s with payload })
  | .encodeAs tag =>
    match Format.ofTag tag >>= (Backup.encodeAs · s.configuration) with
    | .ok payload => (.payload payload, { s with payload })
    | .error e => (.failed e, s)
  | .load payload => (.size payload.length, { s with payload })
  | .patch offset octets =>
    let payload := overwrite offset octets s.payload
    (.payload payload, { s with payload })
  | .append octets =>
    let payload := s.payload ++ octets
    (.payload payload, { s with payload })
  | .truncate size =>
    let payload := s.payload.take size
    (.payload payload, { s with payload })
  | .provide provider => (.done, { s with provider })
  | .peek =>
    match Backup.peekFormat s.payload with
    | .ok f => (.format f, s)
    | .error e => (.failed e, s)
  | .decode => s.restore (Backup.decode s.payload s.provider)
  | .decodeLegacy => s.restore (Backup.decodeLegacy s.payload s.provider)

/-- The answers of a run of steps, each with the session after it. -/
def run (s : Session) : List Step → List (Answer × Session)
  | [] => []
  | step :: rest =>
    let answer := s.step step
    answer :: run answer.2 rest

end Session

end HotspotBackup
