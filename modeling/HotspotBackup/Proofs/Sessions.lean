import HotspotBackup.Document
import HotspotBackup.Proofs.Rules
import HotspotBackup.Session

/-!
# What a session ever holds

A session edits a draft, makes configurations of it, writes and restores
backups, and reads drafts and configurations from documents (`Act`). Whatever
acts follow one another (`history`), no configuration turns up that breaks a
rule, on whichever way it was made, and no act that fails changes what was held
before it.

* `Configuration.sound`: what the rules come to, in numbers.
* `regular_act` and `regular_history`: this of one act, and of any run of them.
-/

namespace HotspotBackup

/-- A configuration in numbers: what its consumers rely on. -/
structure Configuration.Sound (c : Configuration) : Prop where
  ssid : ∀ name, c.draft.ssid = some name → Utf8.size name ≤ 32
  passphrase_iff : c.draft.passphrase.isSome = c.draft.securityType.usesPassphrase
  passphrase_nonempty : ∀ phrase, c.draft.passphrase = some phrase → 0 < Utf8.size phrase
  passphrase_size : ∀ phrase, c.draft.passphrase = some phrase →
    c.draft.securityType ∈ [.wpa2Psk, .wpa3SaeTransition] →
      8 ≤ Utf8.size phrase ∧ Utf8.size phrase ≤ 63
  band : 0 < c.draft.band.bits ∧ c.draft.band.bits ≤ 0b1111
  keys : ∀ entry ∈ c.draft.channels.entries, entry.1.bits ∈ [0b0001, 0b0010, 0b0100, 0b1000]
  channel : c.draft.channel.toNat ≤ 2147483647
  channels : ∀ entry ∈ c.draft.channels.entries, entry.2.toNat ≤ 2147483647
  clients : c.draft.maxNumberOfClients.toNat ≤ 2147483647
  /-- Its draft makes the same configuration again. -/
  rebuilt : c.draft.build = .ok c

/-- The rules of a draft leave no unsound configuration. -/
theorem Configuration.sound (c : Configuration) : c.Sound where
  ssid := c.lawful.ssid
  passphrase_iff := by
    cases hp : c.draft.passphrase with
    | none =>
      have hneeded := mt c.lawful.needed (not_not_intro hp)
      exact (Bool.eq_false_iff.2 hneeded).symm
    | some phrase => exact (c.lawful.passphrase phrase hp).used.symm
  passphrase_nonempty phrase hp := (c.lawful.passphrase phrase hp).nonempty
  passphrase_size phrase hp hs := by
    refine (c.lawful.passphrase phrase hp).bounded ?_
    simp only [List.mem_cons, List.not_mem_nil, or_false] at hs
    rcases hs with hs | hs <;> rw [hs] <;> rfl
  band := ⟨c.draft.band.bounds.1, Nat.le_of_lt_succ c.draft.band.bounds.2⟩
  keys entry he := by
    have hsingle := c.lawful.single entry.1 (List.mem_map_of_mem he)
    simp only [List.mem_cons, List.not_mem_nil, or_false] at hsingle
    rcases hsingle with h | h | h | h <;> rw [h] <;> decide
  channel := c.lawful.channel
  channels := c.lawful.channels
  clients := c.lawful.clients
  rebuilt := Draft.build_eq_ok_iff.2 rfl

namespace Session

/-! ## Acts -/

/-- What is done in a session: one of its steps, or the reading of a document
that becomes its draft or its configuration. -/
inductive Act where
  | step (s : Step)
  | readDraft (text : Bytes)
  | readConfiguration (text : Bytes)

/-- The answer to an act and the session after it; there is no answer to a
document that cannot be read. -/
def act (s : Session) : Act → Option Answer × Session
  | .step step => (some (s.step step).1, (s.step step).2)
  | .readDraft text =>
    match Draft.parse? text with
    | some draft => (some .done, { s with draft })
    | none => (none, s)
  | .readConfiguration text =>
    match Configuration.parse? text with
    | some c => (some (.configuration c), { s with configuration := c })
    | none => (none, s)

/-- An act with its answer, between the sessions before and after it. -/
structure Event where
  before : Session
  act : Act
  answer : Option Answer
  after : Session

/-- The event of an act. -/
def event (s : Session) (a : Act) : Event :=
  ⟨s, a, (s.act a).1, (s.act a).2⟩

/-- The events of a run of acts. -/
def history (s : Session) : List Act → List Event
  | [] => []
  | a :: acts => s.event a :: history (s.act a).2 acts

/-- A run of steps only is that of the session. -/
theorem history_steps (s : Session) (steps : List Step) :
    (s.history (steps.map .step)).map (fun e => (e.answer, e.after)) =
      (s.run steps).map fun answer => (some answer.1, answer.2) := by
  induction steps generalizing s with
  | nil => rfl
  | cons step steps ih =>
    rw [List.map_cons, history, List.map_cons, run, List.map_cons]
    exact congrArg _ (ih (s.step step).2)

/-! ## Regular events -/

/-- The configuration that an answer shows. -/
def Answer.configuration? : Answer → Option Configuration
  | configuration c | restored c _ _ => some c
  | done | failed _ | payload _ | size _ | format _ | refused _ _ => none

/-- Whether an answer is a failure. -/
def Answer.isFailure : Answer → Bool
  | failed _ | refused _ _ => true
  | done | configuration _ | payload _ | size _ | format _ | restored _ _ _ => false

/-- The configurations of an event are sound. A failure changes nothing but the
draft, and that only if it was being edited; and the configuration that is held
afterwards is the one held before or the one that is shown. -/
structure Event.Regular (e : Event) : Prop where
  before : e.before.configuration.Sound
  after : e.after.configuration.Sound
  shown : ∀ c, e.answer.bind Answer.configuration? = some c → c.Sound
  failed : e.answer.all Answer.isFailure = true →
    e.after = { e.before with draft := e.after.draft }
  unedited : e.answer.all Answer.isFailure = true →
    (∀ change, e.act ≠ .step (.edit change)) → e.after = e.before
  changed : e.after.configuration = e.before.configuration ∨
    e.answer.bind Answer.configuration? = some e.after.configuration

/-! ## One act -/

section

variable {s t : Session} {a : Act}

/-- What is left to show of an act that succeeds. -/
theorem regular_of_success {answer : Answer} (ha : s.act a = (some answer, t))
    (hs : answer.isFailure = false)
    (hc : t.configuration = s.configuration ∨ answer.configuration? = some t.configuration) :
    (s.event a).Regular := by
  have hnot : (s.event a).answer.all Answer.isFailure = false := by
    rw [event, ha]
    exact hs
  exact {
    before := s.configuration.sound
    after := (s.act a).2.configuration.sound
    shown := fun c _ => c.sound
    failed := fun hf => absurd hf (Bool.eq_false_iff.1 hnot)
    unedited := fun hf => absurd hf (Bool.eq_false_iff.1 hnot)
    changed := by
      rw [event, ha]
      exact hc }

/-- An act that changes nothing may fail or not. -/
theorem regular_of_unchanged {answer : Option Answer} (ha : s.act a = (answer, s)) :
    (s.event a).Regular := by
  have hsame : (s.event a).after = s := by rw [event, ha]
  exact {
    before := s.configuration.sound
    after := (s.act a).2.configuration.sound
    shown := fun c _ => c.sound
    failed := fun _ => by rw [hsame]; rfl
    unedited := fun _ _ => hsame
    changed := .inl (congrArg Session.configuration hsame) }

end

theorem regular_edit (s : Session) (change : Edit) : (s.event (.step (.edit change))).Regular where
  before := s.configuration.sound
  after := s.configuration.sound
  shown c _ := c.sound
  failed _ := rfl
  unedited _ h := absurd rfl (h change)
  changed := .inl rfl

theorem regular_restore (s : Session) (a : Act) (outcome : Except BackupError Configuration × Nat)
    (h : s.act a = (some (s.restore outcome).1, (s.restore outcome).2)) : (s.event a).Regular := by
  obtain ⟨result, lookups⟩ := outcome
  cases result with
  | ok c => exact regular_of_success h rfl (.inr rfl)
  | error e => exact regular_of_unchanged h

/-- Step by step: a step either succeeds, and shows the configuration that it
makes, or it fails and leaves the session as it was. -/
theorem regular_step (s : Session) (step : Step) : (s.event (.step step)).Regular := by
  cases step with
  | edit change => exact regular_edit s change
  | reset | reopen | inspect | encode | load | patch | append | truncate | provide =>
    exact regular_of_success rfl rfl (.inl rfl)
  | decode => exact regular_restore s _ (Backup.decode s.payload s.provider) rfl
  | decodeLegacy => exact regular_restore s _ (Backup.decodeLegacy s.payload s.provider) rfl
  | build =>
    cases hb : s.draft.build with
    | ok c =>
      have ha : s.act (.step .build) =
          (some (.configuration c), { s with configuration := c }) := by
        simp only [act, Session.step, hb]
      exact regular_of_success ha rfl (.inr rfl)
    | error v =>
      have ha : s.act (.step .build) = (some (.failed (.invalid v)), s) := by
        simp only [act, Session.step, hb]
      exact regular_of_unchanged ha
  | encodeAs tag =>
    cases hb : Format.ofTag tag >>= (Backup.encodeAs · s.configuration) with
    | ok payload =>
      have ha : s.act (.step (.encodeAs tag)) = (some (.payload payload), { s with payload }) := by
        simp only [act, Session.step, hb]
      exact regular_of_success ha rfl (.inl rfl)
    | error e =>
      have ha : s.act (.step (.encodeAs tag)) = (some (.failed e), s) := by
        simp only [act, Session.step, hb]
      exact regular_of_unchanged ha
  | peek =>
    cases hb : Backup.peekFormat s.payload with
    | ok f =>
      have ha : s.act (.step .peek) = (some (.format f), s) := by simp only [act, Session.step, hb]
      exact regular_of_unchanged ha
    | error e =>
      have ha : s.act (.step .peek) = (some (.failed e), s) := by simp only [act, Session.step, hb]
      exact regular_of_unchanged ha

theorem regular_act (s : Session) (a : Act) : (s.event a).Regular := by
  cases a with
  | step step => exact regular_step s step
  | readDraft text =>
    cases hd : Draft.parse? text with
    | some draft =>
      have ha : s.act (.readDraft text) = (some .done, { s with draft }) := by simp only [act, hd]
      exact regular_of_success ha rfl (.inl rfl)
    | none =>
      have ha : s.act (.readDraft text) = (none, s) := by simp only [act, hd]
      exact regular_of_unchanged ha
  | readConfiguration text =>
    cases hc : Configuration.parse? text with
    | some c =>
      have ha : s.act (.readConfiguration text) =
          (some (.configuration c), { s with configuration := c }) := by
        simp only [act, hc]
      exact regular_of_success ha rfl (.inr rfl)
    | none =>
      have ha : s.act (.readConfiguration text) = (none, s) := by simp only [act, hc]
      exact regular_of_unchanged ha

/-! ## Runs -/

/-- Every event of every run is regular, from any session. By induction on the
acts. -/
theorem regular_history (s : Session) (acts : List Act) : ∀ e ∈ s.history acts, e.Regular := by
  induction acts generalizing s with
  | nil => exact fun e he => (nomatch he)
  | cons a acts ih =>
    intro e he
    rcases List.mem_cons.1 he with rfl | he
    · exact regular_act s a
    · exact ih (s.act a).2 e he

/-- A name that is too long, a document with another one, a layout that cannot
be written, a backup that is cut short, and a document that is none. -/
def mishaps : List Act :=
  [.step (.edit (.field .ssid (some "a name of more than thirty-two octets"))), .step .build,
    .readConfiguration (Utf8.encode "\x7b\"ssid\": \"hall\"\x7d"), .step (.encodeAs 3),
    .step (.load [0, 0, 0, 9]), .step .decode, .readConfiguration (Utf8.encode "null")]

theorem regular_history_mishaps :
    (∀ e ∈ history {} mishaps, e.Regular) ∧
      (history {} mishaps).map (·.answer.all Answer.isFailure) =
        [true, true, false, true, false, true, true] ∧
      (history {} mishaps).map (·.after.configuration.draft.ssid) =
        [none, none, some "hall", some "hall", some "hall", some "hall", some "hall"] := by
  refine ⟨regular_history {} mishaps, ?_, ?_⟩
  · decide +kernel
  · decide +kernel

end Session

end HotspotBackup
