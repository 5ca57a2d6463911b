import HotspotBackup.Proofs.Lookups
import HotspotBackup.Proofs.ReadFaults

/-!
# What a restore fails with

The faults of a backup, stage by stage: each stage says what is wrong with the
octets or with the device, whatever else is wrong with them (`BodyFault`,
`Fault`). A restore then fails exactly with the fault of the first stage that
has one, and succeeds exactly if none has (`DecidedBy`).

* `decidedBy_of_first`: it is enough that a first fault is the outcome, and that
  without any fault there is one.
* `decidedBy_decodeBody` and `decidedBy_decode`: this holds of the octets behind
  a tag, and of a whole backup.
* `restore_fails_with_first_fault`: so both entry points are decided by their
  stages, and a look at the tag sees what the first two of them see.
-/

namespace HotspotBackup.Backup

open Wire Reader HotspotBackup.Field

/-- The stages of a restore. -/
inductive Stage where
  /-- There are four octets to name a format. -/
  | tag
  /-- The format they name is known. -/
  | version
  /-- Each of its fields is read, in wire order. -/
  | fields
  /-- Nothing is left over. -/
  | ending
  /-- The channel of a legacy record is one. -/
  | channel
  /-- The device answers, if it is asked. -/
  | device
  /-- The settings obey the rules. -/
  | rules
  deriving DecidableEq

/-- The place of a stage among all of them. -/
def Stage.place : Stage → Nat
  | tag => 1
  | version => 2
  | fields => 3
  | ending => 4
  | channel => 5
  | device => 6
  | rules => 7

/-- Octets begin with some contents of a format, and `rest` is left of them. -/
def Leaves (f : Format) (b rest : Bytes) : Prop :=
  ∃ e, b = e ++ rest ∧
    match f with
    | .legacy => ∃ r : LegacyRecord, r.Spells e
    | .layout l => ∃ d, l.Spells d e

/-- What is wrong with the octets behind the tag of a format, and with the
device that is asked for what they lack. -/
def BodyFault (p : Provider) (f : Format) (b : Bytes) (failure : BackupError) : Stage → Prop
  | .tag | .version => False
  | .fields => ∃ field cause, StopsAt f.visits b field cause ∧ failure = .malformed cause
  | .ending => ∃ rest, Leaves f b rest ∧ rest ≠ [] ∧ failure = .malformed (.trailing rest.length)
  | .channel => f = .legacy ∧ ∃ (r : LegacyRecord) (e rest : Bytes), b = e ++ rest ∧ r.Spells e ∧
      r.channel.toInt < 0 ∧ failure = .malformed (.negativeLegacyChannel r.channel.toInt)
  | .device => (f = .legacy ∨ f = .layout .v5) ∧ p = .error failure
  | .rules =>
    match f with
    | .legacy => ∃ (r : LegacyRecord) (e rest : Bytes) (answer : Bool) (v : Violation),
        b = e ++ rest ∧ r.Spells e ∧ p = .ok answer ∧
          (translated r answer).violation? = some v ∧ failure = .malformed (.legacyRejected v)
    | .layout l => ∃ (d : Draft) (e rest : Bytes) (v : Violation), b = e ++ rest ∧
        l.Spells d e ∧ l.Filled p d ∧ d.violation? = some v ∧ failure = .malformed (.rejected v)

/-- What is wrong with a tagged backup. -/
def Fault (p : Provider) (b : Bytes) (failure : BackupError) : Stage → Prop
  | .tag => b.length < 4 ∧ failure = .malformed (.truncated "version" 4 b.length)
  | .version => ∃ (t : Int32) (rest : Bytes), b = i32 t ++ rest ∧
      t.toInt ∉ [3, 5, 6, 7, 8, 9] ∧ failure = .unsupportedVersion t.toInt
  | stage => ∃ (f : Format) (rest : Bytes), b = i32 f.tag ++ rest ∧
      BodyFault p f rest failure stage

/-! ## First faults -/

section

variable {faults : BackupError → Stage → Prop} {outcome : Except BackupError α}

/-- A fault of a stage, of whose earlier ones none has a fault. -/
structure FirstFault (faults : BackupError → Stage → Prop) (stage : Stage)
    (failure : BackupError) : Prop where
  here : faults failure stage
  before : ∀ earlier, earlier.place < stage.place → ∀ other, ¬ faults other earlier

/-- An outcome is the first fault, and a success if there is none. -/
structure DecidedBy (faults : BackupError → Stage → Prop) (outcome : Except BackupError α) :
    Prop where
  error_iff : ∀ failure, outcome = .error failure ↔ ∃ stage, FirstFault faults stage failure
  ok_iff : (∃ a, outcome = .ok a) ↔ ∀ stage failure, ¬ faults failure stage

/-- Where a stage has a fault, some stage is the first that has one. By
induction on the place of the stage. -/
theorem exists_firstFault {stage : Stage} {failure : BackupError} (h : faults failure stage) :
    ∃ first other, FirstFault faults first other := by
  induction hn : stage.place using Nat.strongRecOn generalizing stage failure with
  | ind n ih =>
    by_cases hb : ∀ earlier, earlier.place < stage.place → ∀ other, ¬ faults other earlier
    · exact ⟨stage, failure, h, hb⟩
    · simp only [not_forall, Classical.not_not] at hb
      obtain ⟨earlier, hlt, other, hother⟩ := hb
      exact ih earlier.place (hn ▸ hlt) hother rfl

theorem decidedBy_of_first
    (hfirst : ∀ stage failure, FirstFault faults stage failure → outcome = .error failure)
    (hnone : (∀ stage failure, ¬ faults failure stage) → ∃ a, outcome = .ok a) :
    DecidedBy faults outcome := by
  have hok : (∃ a, outcome = .ok a) ↔ ∀ stage failure, ¬ faults failure stage := by
    refine ⟨fun ⟨a, ha⟩ stage failure h => ?_, hnone⟩
    obtain ⟨first, other, hf⟩ := exists_firstFault h
    rw [hfirst first other hf] at ha
    cases ha
  refine ⟨fun failure => ⟨fun h => ?_, fun ⟨stage, hf⟩ => hfirst stage failure hf⟩, hok⟩
  have hsome : ¬ ∀ stage failure, ¬ faults failure stage := by
    rw [← hok, h]
    rintro ⟨a, ha⟩
    cases ha
  simp only [not_forall, Classical.not_not] at hsome
  obtain ⟨stage, other, hs⟩ := hsome
  obtain ⟨first, other, hf⟩ := exists_firstFault hs
  have hother := hfirst first other hf
  rw [h] at hother
  cases hother
  exact ⟨first, hf⟩

end

/-! ## Reading to the end -/

section

variable {r : Reader α} {E : α → Bytes → Prop} {visits : List Visit} {b : Bytes}

theorem readWhole_of_stopsAt (hg : GoesThrough r visits) {field : String} {cause : Malformation}
    (h : StopsAt visits b field cause) : readWhole r b = .error (.malformed cause) := by
  obtain ⟨rest, hr⟩ := hg.of_stopsAt h
  exact readWhole_of_error hr

/-- Where no visit fails, a value is read. -/
theorem exists_of_not_stopsAt (hg : GoesThrough r visits) (hr : Recognizes r E)
    (h : ∀ field cause, ¬ StopsAt visits b field cause) : ∃ a e rest, E a e ∧ b = e ++ rest := by
  rcases hb : r b with ⟨answer, rest⟩
  cases answer with
  | ok a =>
    obtain ⟨e, he, hsplit⟩ := hr.sound hb
    exact ⟨a, e, rest, he, hsplit⟩
  | error cause =>
    obtain ⟨field, hstop⟩ := hg.stops hb
    exact absurd hstop (h field cause)

end

/-- What a layout carries of a draft spells the reduced draft as well. -/
theorem spells_reduce {l : Layout} {d : Draft} {e : Bytes} (h : l.Spells d e) (answer : Bool) :
    l.Spells (d.reduce l answer) e := by
  obtain ⟨part, hp, he⟩ := h
  refine ⟨part, fun f hf => ?_, he⟩
  rw [get_reduce_of_mem hf, kept_of_spells (hp f hf)]
  exact hp f hf

theorem filled_reduce {l : Layout} {p : Provider} {answer : Bool}
    (h : l = .v5 → p = .ok answer) (d : Draft) : l.Filled p (d.reduce l answer) where
  default f hf hne := by
    rw [get_reduce_of_absent hf]
    exact get_set_ne {} (f := autoShutdownEnabled) answer hne
  asked hl := by
    subst hl
    exact h rfl

theorem readWhole_append {l : Layout} {d : Draft} {e : Bytes} (h : l.Spells d e) {rest : Bytes}
    (hrest : rest ≠ []) :
    readWhole (readAll l l.fields {}) (e ++ rest) =
      .error (.malformed (.trailing rest.length)) := by
  have hd : ∀ f, f ∉ l.fields → get (d.reduce l true) f = get {} f :=
    fun f hf => get_reduce_of_absent (Layout.mem_absentFields.2 hf) true d
  have hr := recognizes_readAll l l.nodup_fields {}
  exact readWhole_extended hr ⟨spells_reduce h true, hd⟩ hrest

/-- A draft that is spelt and filled has lost already what a backup loses. -/
theorem reduce_of_filled {l : Layout} {d : Draft} {e : Bytes} {p : Provider} (hs : l.Spells d e)
    (hf : l.Filled p d) {answer : Bool} (ha : l = .v5 → answer = d.autoShutdownEnabled) :
    d.reduce l answer = d := by
  refine ext_get fun f => ?_
  by_cases hm : f ∈ l.fields
  · obtain ⟨part, hp, -⟩ := hs
    rw [get_reduce_of_mem hm, kept_of_spells (hp f hm)]
  have habs := Layout.mem_absentFields.2 hm
  rw [get_reduce_of_absent habs]
  by_cases hfa : f = .autoShutdownEnabled
  · subst hfa
    exact ha (Layout.autoShutdownEnabled_mem_absentFields.1 habs)
  · rw [hf.default f habs hfa]
    exact get_set_ne {} (f := autoShutdownEnabled) answer hfa

/-- The settings that are spelt, with the others filled, meet the rules next. -/
theorem decodeLayout_of_filled {l : Layout} {d : Draft} {e : Bytes} {p : Provider}
    (hs : l.Spells d e) (hf : l.Filled p d) : (decodeLayout l e p).1 = settle d := by
  -- what was read is what the layout carries of `d`, on top of the defaults
  have hd : ∀ f ∈ l.absentFields, get (d.reduce l true) f = get {} f :=
    fun f hf => get_reduce_of_absent hf true d
  rw [decodeLayout_of_spells (spells_reduce hs true) hd]
  by_cases hl : l = .v5
  · subst hl
    rw [complete_v5, hf.asked rfl]
    exact congrArg settle (reduce_of_filled hs hf fun _ => rfl)
  · rw [complete_of_ne hl, reduce_of_filled hs hf fun h => absurd h hl]

theorem settle_of_violation {d : Draft} {v : Violation} (h : d.violation? = some v) :
    settle d = .error (.malformed (.rejected v)) := by
  rw [settle_eq_conclude, conclude_of_violation _ h]

/-! ## Behind the tag -/

section

variable {p : Provider} {f : Format} {b rest : Bytes} {stage : Stage} {failure : BackupError}

theorem exists_leaves (h : ∀ failure, ¬ BodyFault p f b failure .fields) :
    ∃ rest, Leaves f b rest := by
  have hvisits : ∀ field cause, ¬ StopsAt f.visits b field cause :=
    fun field cause hstop => h _ ⟨field, cause, hstop, rfl⟩
  cases f with
  | legacy =>
    obtain ⟨r, e, rest, he, hsplit⟩ :=
      exists_of_not_stopsAt Format.goesThrough_legacy LegacyRecord.recognizes_read hvisits
    exact ⟨rest, e, hsplit, r, he⟩
  | layout l =>
    obtain ⟨d, e, rest, he, hsplit⟩ := exists_of_not_stopsAt (Format.goesThrough_layout l)
      (recognizes_readAll l l.nodup_fields {}) hvisits
    exact ⟨rest, e, hsplit, d, he.1⟩

theorem eq_nil_of_leaves (h : ∀ failure, ¬ BodyFault p f b failure .ending)
    (hb : Leaves f b rest) : rest = [] :=
  Classical.byContradiction fun hne => h _ ⟨rest, hb, hne, rfl⟩

/-- Where the fields are read and nothing is left of the octets, these are some
contents of the format. -/
theorem exists_spells : (∀ failure, ¬ BodyFault p f b failure .fields) →
    (∀ failure, ¬ BodyFault p f b failure .ending) →
      match f with
      | .legacy => ∃ r : LegacyRecord, r.Spells b
      | .layout l => ∃ d, l.Spells d b := by
  intro hfields hending
  obtain ⟨rest, hb⟩ := exists_leaves hfields
  have hrest := eq_nil_of_leaves hending hb
  obtain ⟨e, hsplit, he⟩ := hb
  rw [hrest, List.append_nil] at hsplit
  exact hsplit ▸ he

theorem eq_of_append (h : ∀ failure, ¬ BodyFault p f b failure .ending) {e : Bytes}
    (hsplit : b = e ++ rest) (hb : Leaves f b rest) : b = e := by
  rw [hsplit, eq_nil_of_leaves h hb, List.append_nil]

theorem channel_nonneg (h : ∀ failure, ¬ BodyFault p .legacy b failure .channel)
    {r : LegacyRecord} (hr : r.Spells b) : 0 ≤ r.channel.toInt :=
  Int.not_lt.1 fun hc => h _ ⟨rfl, r, b, [], (List.append_nil b).symm, hr, hc, rfl⟩

/-- A legacy record that is read to its end, and whose channel is one, waits for
the device and then for the rules. -/
theorem decodeLegacy_of_nonneg {r : LegacyRecord} (hr : r.Spells b) (hc : 0 ≤ r.channel.toInt) :
    (decodeLegacy b p).1 = p >>= fun answer => conclude .legacyRejected (translated r answer) :=
  congrArg Prod.fst ((decodeLegacy_of_spells hr p).trans (restore_of_nonneg hc p))

theorem decodeBody_of_stopsAt {field : String} {cause : Malformation}
    (h : StopsAt f.visits b field cause) :
    (decodeBody f b p).1 = .error (.malformed cause) := by
  cases f with
  | legacy =>
    have hw := readWhole_of_stopsAt Format.goesThrough_legacy h
    exact congrArg Prod.fst (decodeLegacy_of_error hw p)
  | layout l =>
    have hw := readWhole_of_stopsAt (Format.goesThrough_layout l) h
    exact congrArg Prod.fst (decodeLayout_of_error hw p)

theorem decodeBody_of_leaves (h : Leaves f b rest) (hrest : rest ≠ []) :
    (decodeBody f b p).1 = .error (.malformed (.trailing rest.length)) := by
  obtain ⟨e, rfl, he⟩ := h
  cases f with
  | legacy =>
    obtain ⟨r, hr⟩ := he
    have hw := readWhole_extended LegacyRecord.recognizes_read hr hrest
    exact congrArg Prod.fst (decodeLegacy_of_error hw p)
  | layout l =>
    obtain ⟨d, hd⟩ := he
    exact congrArg Prod.fst (decodeLayout_of_error (readWhole_append hd hrest) p)

/-- Stage by stage: what comes before is without a fault, and so the restore
has come to this stage. -/
theorem decodeBody_of_firstFault (h : FirstFault (BodyFault p f b) stage failure) :
    (decodeBody f b p).1 = .error failure := by
  obtain ⟨hfault, hbefore⟩ := h
  cases stage with
  | tag | version => exact hfault.elim
  | fields =>
    obtain ⟨field, cause, hstop, rfl⟩ := hfault
    exact decodeBody_of_stopsAt hstop
  | ending =>
    obtain ⟨rest, hb, hrest, rfl⟩ := hfault
    exact decodeBody_of_leaves hb hrest
  | channel =>
    obtain ⟨rfl, r, e, rest, hsplit, hr, hc, rfl⟩ := hfault
    have he := eq_of_append (hbefore .ending (by decide)) hsplit ⟨e, hsplit, r, hr⟩
    subst he
    exact congrArg Prod.fst ((decodeLegacy_of_spells hr p).trans (restore_of_negative hc p))
  | device =>
    obtain ⟨hf, rfl⟩ := hfault
    have he := exists_spells (hbefore .fields (by decide)) (hbefore .ending (by decide))
    rcases hf with rfl | rfl
    · obtain ⟨r, hr⟩ := he
      have hc := channel_nonneg (hbefore .channel (by decide)) hr
      exact decodeLegacy_of_nonneg hr hc
    · obtain ⟨d, hd⟩ := he
      obtain ⟨_, _, hasks⟩ := asksOnce_decodeLayout hd
      exact congrArg Prod.fst (hasks (.error failure))
  | rules =>
    have hending := hbefore .ending (by decide)
    cases f with
    | legacy =>
      obtain ⟨r, e, rest, answer, v, hsplit, hr, rfl, hv, rfl⟩ := hfault
      have he := eq_of_append hending hsplit ⟨e, hsplit, r, hr⟩
      subst he
      have hc := channel_nonneg (hbefore .channel (by decide)) hr
      exact (decodeLegacy_of_nonneg hr hc).trans (conclude_of_violation _ hv)
    | layout l =>
      obtain ⟨d, e, rest, v, hsplit, hd, hf, hv, rfl⟩ := hfault
      have he := eq_of_append hending hsplit ⟨e, hsplit, d, hd⟩
      subst he
      exact (decodeLayout_of_filled hd hf).trans (settle_of_violation hv)

/-- Without a fault, the octets are read, the device answers and the rules are
obeyed. -/
theorem exists_decodeBody (h : ∀ stage failure, ¬ BodyFault p f b failure stage) :
    ∃ c, (decodeBody f b p).1 = .ok c := by
  have he := exists_spells (h .fields) (h .ending)
  have hnil : b = b ++ [] := (List.append_nil b).symm
  have hdevice : f = .legacy ∨ f = .layout .v5 → ∃ answer, p = .ok answer := by
    intro hf
    cases p with
    | error failure => exact absurd ⟨hf, rfl⟩ (h .device failure)
    | ok answer => exact ⟨answer, rfl⟩
  cases f with
  | legacy =>
    obtain ⟨r, hr⟩ := he
    obtain ⟨answer, rfl⟩ := hdevice (.inl rfl)
    have hv : (translated r answer).violation? = none := Option.eq_none_iff_forall_ne_some.2
      fun v hv => h .rules _ ⟨r, b, [], answer, v, hnil, hr, rfl, hv, rfl⟩
    have hc := channel_nonneg (h .channel) hr
    exact ⟨_, (decodeLegacy_of_nonneg hr hc).trans (conclude_of_accepted _ hv)⟩
  | layout l =>
    obtain ⟨d, hd⟩ := he
    obtain ⟨answer, ha⟩ : ∃ answer, l = .v5 → p = .ok answer := by
      by_cases hl : l = .v5
      · obtain ⟨answer, ha⟩ := hdevice (.inr (congrArg _ hl))
        exact ⟨answer, fun _ => ha⟩
      · exact ⟨true, fun hv => absurd hv hl⟩
    have hs := spells_reduce hd answer
    have hf := filled_reduce ha d
    have hv : (d.reduce l answer).violation? = none := Option.eq_none_iff_forall_ne_some.2
      fun v hv => h .rules _ ⟨d.reduce l answer, b, [], v, hnil, hs, hf, hv, rfl⟩
    refine ⟨⟨d.reduce l answer, hv⟩, (decodeLayout_of_filled hs hf).trans ?_⟩
    rw [settle_eq_conclude, conclude_of_accepted _ hv]

theorem decidedBy_decodeBody (f : Format) (b : Bytes) (p : Provider) :
    DecidedBy (BodyFault p f b) (decodeBody f b p).1 :=
  decidedBy_of_first (fun _ _ => decodeBody_of_firstFault) exists_decodeBody

end

/-! ## The tag -/

theorem readFormat_of_short {b : Bytes} (h : b.length < 4) :
    readFormat b = .error (.malformed (.truncated "version" 4 b.length)) := by
  have ho : octets "version" 4 b = (.error (.truncated "version" 4 b.length), b) := if_pos h
  have hr : Reader.i32 "version" b = (.error (.truncated "version" 4 b.length), b) :=
    bind_error (bind_error ho)
  unfold readFormat
  rw [hr]

theorem readFormat_word (t : Int32) (rest : Bytes) :
    readFormat (Wire.i32 t ++ rest) = (·, rest) <$> Format.ofTag t := by
  unfold readFormat
  rw [i32_append]

theorem ofTag?_eq_none_iff {t : Int32} :
    Format.ofTag? t = none ↔ t.toInt ∉ [3, 5, 6, 7, 8, 9] := by
  have hnumbers : Format.all.map (·.tag.toInt) = [3, 5, 6, 7, 8, 9] := by decide
  rw [Format.ofTag?, List.find?_eq_none, ← hnumbers, List.mem_map]
  simp only [decide_eq_true_eq, Int32.toInt_inj, not_exists, not_and]

theorem readFormat_of_unknown {t : Int32} (h : t.toInt ∉ [3, 5, 6, 7, 8, 9]) (rest : Bytes) :
    readFormat (Wire.i32 t ++ rest) = .error (.unsupportedVersion t.toInt) := by
  rw [readFormat_word, Format.ofTag, ofTag?_eq_none_iff.2 h]
  rfl

theorem readFormat_of_tag (f : Format) (rest : Bytes) :
    readFormat (Wire.i32 f.tag ++ rest) = .ok (f, rest) := by
  rw [i32_tag, readFormat_tag]

/-! ## Tagged backups -/

section

variable {p : Provider} {b : Bytes} {stage : Stage} {failure : BackupError}

/-- What is wrong behind the tag is wrong with the backup. -/
theorem fault_of_body {f : Format} {rest : Bytes} (h : BodyFault p f rest failure stage) :
    Fault p (Wire.i32 f.tag ++ rest) failure stage := by
  cases stage with
  | tag | version => exact h.elim
  | fields | ending | channel | device | rules => exact ⟨f, rest, rfl, h⟩

/-- What is wrong with a backup is wrong with its tag or behind it. -/
theorem fault_cases (h : Fault p b failure stage) :
    readFormat b = .error failure ∨
      ∃ f rest, b = Wire.i32 f.tag ++ rest ∧ BodyFault p f rest failure stage := by
  cases stage with
  | tag =>
    obtain ⟨hb, rfl⟩ := h
    exact .inl (readFormat_of_short hb)
  | version =>
    obtain ⟨t, rest, rfl, ht, rfl⟩ := h
    exact .inl (readFormat_of_unknown ht rest)
  | fields | ending | channel | device | rules => exact .inr h

theorem decode_of_firstFault (h : FirstFault (Fault p b) stage failure) :
    (decode b p).1 = .error failure := by
  rcases fault_cases h.here with hf | ⟨f, rest, rfl, hbody⟩
  · exact congrArg Prod.fst (decode_of_error hf p)
  · have hfirst : FirstFault (BodyFault p f rest) stage failure :=
      ⟨hbody, fun earlier hlt other ho => h.before earlier hlt other (fault_of_body ho)⟩
    rw [decode_of_format (readFormat_of_tag f rest)]
    exact decodeBody_of_firstFault hfirst

theorem exists_tag_append (htag : ∀ failure, ¬ Fault p b failure .tag)
    (hversion : ∀ failure, ¬ Fault p b failure .version) :
    ∃ (f : Format) (rest : Bytes), b = Wire.i32 f.tag ++ rest := by
  have hlong : ¬ b.length < 4 := fun hb => htag _ ⟨hb, rfl⟩
  obtain ⟨t, rest, rfl⟩ := exists_word hlong
  cases hf : Format.ofTag? t with
  | none => exact absurd ⟨t, rest, rfl, ofTag?_eq_none_iff.1 hf, rfl⟩ (hversion _)
  | some f => exact ⟨f, rest, by rw [Format.tag_of_ofTag? hf]⟩

theorem exists_decode (h : ∀ stage failure, ¬ Fault p b failure stage) :
    ∃ c, (decode b p).1 = .ok c := by
  obtain ⟨f, rest, rfl⟩ := exists_tag_append (h .tag) (h .version)
  rw [decode_of_format (readFormat_of_tag f rest)]
  exact exists_decodeBody fun stage failure hbody => h stage failure (fault_of_body hbody)

theorem decidedBy_decode (b : Bytes) (p : Provider) : DecidedBy (Fault p b) (decode b p).1 :=
  decidedBy_of_first (fun _ _ => decode_of_firstFault) exists_decode

/-! ## The look at the tag -/

theorem peekFormat_eq_error : peekFormat b = .error failure ↔ readFormat b = .error failure := by
  unfold peekFormat
  cases readFormat b with
  | error e => exact ⟨fun h => by cases h; rfl, fun h => by cases h; rfl⟩
  | ok v => exact ⟨fun h => (nomatch h), fun h => (nomatch h)⟩

theorem peekFormat_eq_error_iff : peekFormat b = .error failure ↔
    Fault p b failure .tag ∨ Fault p b failure .version := by
  rw [peekFormat_eq_error]
  refine ⟨fun h => ?_, fun h => ?_⟩
  · by_cases hshort : b.length < 4
    · rw [readFormat_of_short hshort] at h
      cases h
      exact .inl ⟨hshort, rfl⟩
    · obtain ⟨t, rest, rfl⟩ := exists_word hshort
      by_cases ht : t.toInt ∈ [3, 5, 6, 7, 8, 9]
      · obtain ⟨f, hf⟩ := Option.ne_none_iff_exists'.1 fun hn => ofTag?_eq_none_iff.1 hn ht
        rw [← Format.tag_of_ofTag? hf, readFormat_of_tag] at h
        cases h
      · rw [readFormat_of_unknown ht] at h
        cases h
        exact .inr ⟨t, rest, rfl, ht, rfl⟩
  · rcases h with ⟨hshort, rfl⟩ | ⟨t, rest, rfl, ht, rfl⟩
    · exact readFormat_of_short hshort
    · exact readFormat_of_unknown ht rest

theorem peekFormat_eq_ok_iff_append {f : Format} :
    peekFormat b = .ok f ↔ ∃ rest, b = Wire.i32 f.tag ++ rest := by
  rw [peekFormat_eq_ok_iff, i32_tag]
  exact exists_congr fun rest => readFormat_eq_ok_iff

end

/-! ## The kinds of failures -/

/-- Behind the tag, what goes wrong is with the octets or is the failure of the
device. -/
theorem malformed_of_bodyFault {p : Provider} {f : Format} {b : Bytes} {failure : BackupError}
    {stage : Stage} (h : BodyFault p f b failure stage) :
    (∃ cause, failure = .malformed cause) ∨ stage = .device ∧ p = .error failure := by
  cases stage with
  | tag | version => exact h.elim
  | fields =>
    obtain ⟨field, cause, -, rfl⟩ := h
    exact .inl ⟨_, rfl⟩
  | ending =>
    obtain ⟨rest, -, -, rfl⟩ := h
    exact .inl ⟨_, rfl⟩
  | channel =>
    obtain ⟨-, r, e, rest, -, -, -, rfl⟩ := h
    exact .inl ⟨_, rfl⟩
  | device => exact .inr ⟨rfl, h.2⟩
  | rules =>
    cases f with
    | legacy =>
      obtain ⟨r, e, rest, answer, v, -, -, -, -, rfl⟩ := h
      exact .inl ⟨_, rfl⟩
    | layout l =>
      obtain ⟨d, e, rest, v, -, -, -, -, rfl⟩ := h
      exact .inl ⟨_, rfl⟩

theorem isMalformed_of_fault {p : Provider} {b : Bytes} {failure : BackupError} {stage : Stage}
    (h : Fault p b failure stage) :
    failure.isMalformed = true ∨ stage = .device ∧ p = .error failure := by
  have hbody : ∀ (f : Format) (rest : Bytes), BodyFault p f rest failure stage →
      failure.isMalformed = true ∨ stage = .device ∧ p = .error failure := by
    intro f rest hb
    rcases malformed_of_bodyFault hb with ⟨cause, rfl⟩ | hdevice
    · exact .inl rfl
    · exact .inr hdevice
  cases stage with
  | tag =>
    obtain ⟨-, rfl⟩ := h
    exact .inl rfl
  | version =>
    obtain ⟨t, rest, -, -, rfl⟩ := h
    exact .inl rfl
  | fields | ending | channel | device | rules =>
    obtain ⟨f, rest, -, hb⟩ := h
    exact hbody f rest hb

/-! ## Both entry points -/

/-- A tagged backup and a bare legacy record are restored unless one of their
stages has a fault, and of several faults the first one is reported; a bare
record has no stages before its fields. The look at the tag reports what the
first two stages do, as the restore does, and the format otherwise. So what is
reported is that the octets are malformed, or what the device failed with, and
of a field that cannot be read the fault is its own. -/
theorem restore_fails_with_first_fault (b : Bytes) (p : Provider) :
    DecidedBy (Fault p b) (decode b p).1 ∧
      DecidedBy (BodyFault p .legacy b) (decodeLegacy b p).1 ∧
      (∀ failure, peekFormat b = .error failure ↔
        Fault p b failure .tag ∨ Fault p b failure .version) ∧
      (∀ failure, peekFormat b = .error failure → (decode b p).1 = .error failure) ∧
      (∀ f, peekFormat b = .ok f ↔ ∃ rest, b = Wire.i32 f.tag ++ rest) ∧
      (∀ failure, (decode b p).1 = .error failure →
        failure.isMalformed = true ∨ p = .error failure) ∧
      (∀ failure, (decodeLegacy b p).1 = .error failure →
        (∃ cause, failure = .malformed cause) ∨ p = .error failure) ∧
      (∀ f field cause, StopsAt (Format.visits f) b field cause → cause.Concerns field) ∧
      ∀ count, (Malformation.trailing count).message = s!"{count} unexpected trailing bytes" := by
  have htagged := decidedBy_decode b p
  have hbare := decidedBy_decodeBody .legacy b p
  refine ⟨htagged, hbare, fun failure => peekFormat_eq_error_iff, fun failure h => ?_,
    fun f => peekFormat_eq_ok_iff_append, fun failure h => ?_, fun failure h => ?_,
    fun f field cause => Format.concerns_of_stopsAt, fun count => rfl⟩
  · exact congrArg Prod.fst (decode_of_error (peekFormat_eq_error.1 h) p)
  · obtain ⟨stage, hf⟩ := (htagged.error_iff failure).1 h
    exact (isMalformed_of_fault hf.here).imp id And.right
  · obtain ⟨stage, hf⟩ := (hbare.error_iff failure).1 h
    exact (malformed_of_bodyFault hf.here).imp id And.right

/-- The tagged record of an older device with a negative channel and without the
key it needs. -/
def battered : Bytes :=
  LegacyRecord.writeTagged { channel := -1, authType := 4 }

/-- Of a record with an octet too many, a negative channel and a missing key,
where the device cannot be asked, the octet is reported; without it, the
channel; and with its last octet cut off, the flag that is missing. -/
theorem restore_fails_with_first_fault_battered :
    (∃ stage, FirstFault (Fault (.error gone) (battered ++ [7])) stage
        (.malformed (.trailing 1))) ∧
      (∃ stage, FirstFault (Fault (.error gone) battered) stage
        (.malformed (.negativeLegacyChannel (-1)))) ∧
      (∃ stage, FirstFault (Fault (.error gone) battered.dropLast) stage
        (.malformed (.truncated "legacy hidden ssid" 1 0))) ∧
      ∃ stage, FirstFault (BodyFault (.error gone) .legacy keyless.write) stage gone := by
  have hextra : (decode (battered ++ [7]) (.error gone)).1 = .error (.malformed (.trailing 1)) := by
    decide +kernel
  have hwhole : (decode battered (.error gone)).1 =
      .error (.malformed (.negativeLegacyChannel (-1))) := by
    decide +kernel
  have hcut : (decode battered.dropLast (.error gone)).1 =
      .error (.malformed (.truncated "legacy hidden ssid" 1 0)) := by
    decide +kernel
  have hbare : (decodeLegacy keyless.write (.error gone)).1 = .error gone := by decide +kernel
  exact ⟨((restore_fails_with_first_fault _ _).1.error_iff _).1 hextra,
    ((restore_fails_with_first_fault _ _).1.error_iff _).1 hwhole,
    ((restore_fails_with_first_fault _ _).1.error_iff _).1 hcut,
    ((restore_fails_with_first_fault _ _).2.1.error_iff _).1 hbare⟩

end HotspotBackup.Backup
