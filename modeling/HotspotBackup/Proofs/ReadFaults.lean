import HotspotBackup.LegacyRecord
import HotspotBackup.Proofs.Primitives

/-!
# Where reading stops

A format is read in visits, one for each of its fields in wire order. They are
made one after another until one fails (`Passes`, `StopsAt`), and the whole
reader fails exactly as that visit does.

* `GoesThrough`: a reader that makes some visits, whatever values they find,
  fails where they stop and succeeds if they pass (`Format.goesThrough_legacy`,
  `Format.goesThrough_layout`).
* `Format.concerns_of_stopsAt`: the fault at which they stop is one of the
  field that was visited, which it names if it names any.
-/

namespace HotspotBackup

/-- A fault of the field that is being read: its octets are cut short, or say
what the field cannot hold. -/
def Malformation.Concerns (field : String) : Malformation → Prop
  | truncated name _ _ | negative name _ | negativeLength name _ | badText name _
  | badAddress name _ | badBand name _ => name = field
  | unknownSecurityType _ => field = "security_type"
  | unknownMacRandomization _ => field = "mac_randomization_setting"
  | duplicateChannel _ => field = "channels"
  | lengthOverflow .. | trailing _ | negativeLegacyChannel _ | rejected _ | legacyRejected _ =>
    False

namespace Wire

/-- A read of a field, its value apart. -/
structure Visit where
  field : String
  reader : Reader Unit

/-- The visit that a reader makes. -/
def Reader.visit (field : String) (r : Reader α) : Visit where
  field := field
  reader := (fun _ => ()) <$> r

/-- Visits succeed one after another, and leave `rest`. -/
inductive Passes : List Visit → Bytes → Bytes → Prop
  | nil (b : Bytes) : Passes [] b b
  | cons {v : Visit} {visits : List Visit} {b s rest : Bytes} :
      v.reader b = (.ok (), s) → Passes visits s rest → Passes (v :: visits) b rest

/-- The first visit that fails is one of `field`, and fails with `cause`. -/
def StopsAt (visits : List Visit) (b : Bytes) (field : String) (cause : Malformation) : Prop :=
  ∃ before v after s t, visits = before ++ v :: after ∧ v.field = field ∧ Passes before b s ∧
    v.reader s = (.error cause, t)

namespace Reader

theorem bind_error {r : Reader α} {next : α → Reader β} {b s : Bytes} {cause : Malformation}
    (h : r b = (.error cause, s)) : (r >>= next) b = (.error cause, s) := by
  rw [bind_run, h]

theorem visit_of_ok {r : Reader α} {b s : Bytes} {a : α} (field : String)
    (h : r b = (.ok a, s)) : (r.visit field).reader b = (.ok (), s) :=
  bind_ok h

theorem visit_of_error {r : Reader α} {b s : Bytes} {cause : Malformation} (field : String)
    (h : r b = (.error cause, s)) : (r.visit field).reader b = (.error cause, s) :=
  bind_error h

end Reader

/-! ## Passing and stopping -/

section

variable {v : Visit} {visits : List Visit} {b rest : Bytes} {field : String}
  {cause : Malformation}

theorem stopsAt_cons : StopsAt (v :: visits) b field cause ↔
    (v.field = field ∧ ∃ t, v.reader b = (.error cause, t)) ∨
      ∃ s, v.reader b = (.ok (), s) ∧ StopsAt visits s field cause := by
  constructor
  · rintro ⟨before, w, after, s, t, hsplit, hfield, hpass, hfail⟩
    cases hpass with
    | nil =>
      rw [List.nil_append, List.cons.injEq] at hsplit
      obtain ⟨rfl, rfl⟩ := hsplit
      exact .inl ⟨hfield, t, hfail⟩
    | @cons first before b s' s hfirst hpass =>
      rw [List.cons_append, List.cons.injEq] at hsplit
      obtain ⟨rfl, rfl⟩ := hsplit
      exact .inr ⟨s', hfirst, before, w, after, s, t, rfl, hfield, hpass, hfail⟩
  · rintro (⟨hfield, t, hfail⟩ | ⟨s, hfirst, before, w, after, s', t, rfl, hfield, hpass, hfail⟩)
    · exact ⟨[], v, visits, b, t, rfl, hfield, .nil b, hfail⟩
    · exact ⟨v :: before, w, after, s', t, rfl, hfield, .cons hfirst hpass, hfail⟩

theorem not_stopsAt_nil : ¬ StopsAt [] b field cause := by
  rintro ⟨before, v, after, s, t, hsplit, -⟩
  cases before <;> cases hsplit

/-- Visits that pass stop nowhere. -/
theorem Passes.not_stopsAt (h : Passes visits b rest) : ¬ StopsAt visits b field cause := by
  induction h with
  | nil => exact not_stopsAt_nil
  | cons hfirst _ ih =>
    rw [stopsAt_cons]
    rintro (⟨-, t, hfail⟩ | ⟨s, hs, hstop⟩)
    · rw [hfirst] at hfail
      cases hfail
    · rw [hfirst] at hs
      cases hs
      exact ih hstop

/-- Visits stop with one fault. -/
theorem StopsAt.unique {field' : String} {cause' : Malformation}
    (h : StopsAt visits b field cause) (h' : StopsAt visits b field' cause') : cause = cause' := by
  induction visits generalizing b with
  | nil => exact absurd h not_stopsAt_nil
  | cons v visits ih =>
    rw [stopsAt_cons] at h h'
    obtain ⟨-, t, hfail⟩ | ⟨s, hpass, hstop⟩ := h
    · obtain ⟨-, t', hfail'⟩ | ⟨s', hpass', -⟩ := h'
      · rw [hfail] at hfail'
        cases hfail'
        rfl
      · rw [hfail] at hpass'
        cases hpass'
    · obtain ⟨-, t', hfail'⟩ | ⟨s', hpass', hstop'⟩ := h'
      · rw [hpass] at hfail'
        cases hfail'
      · rw [hpass] at hpass'
        cases hpass'
        exact ih hstop hstop'

end

/-! ## Readers that make visits -/

namespace Reader

/-- A reader makes some visits: it succeeds if they pass, with what they leave,
and otherwise fails as the first of them that fails. -/
structure GoesThrough (r : Reader α) (visits : List Visit) : Prop where
  passes : ∀ {b a rest}, r b = (.ok a, rest) → Passes visits b rest
  stops : ∀ {b cause rest}, r b = (.error cause, rest) → ∃ field, StopsAt visits b field cause

theorem GoesThrough.pure (a : α) : GoesThrough (pure a) [] where
  passes h := by cases h; exact .nil _
  stops h := nomatch h

theorem GoesThrough.bind {r : Reader α} {next : α → Reader β} {visits : List Visit}
    (field : String) (hn : ∀ a, GoesThrough (next a) visits) :
    GoesThrough (r >>= next) (r.visit field :: visits) where
  passes h := by
    obtain ⟨a, s, hr, hs⟩ := exists_of_bind_eq_ok h
    exact .cons (visit_of_ok field hr) ((hn a).passes hs)
  stops {b cause rest} h := by
    rcases hr : r b with ⟨answer, s⟩
    cases answer with
    | ok a =>
      rw [bind_ok hr] at h
      obtain ⟨other, hstop⟩ := (hn a).stops h
      exact ⟨other, stopsAt_cons.2 (.inr ⟨s, visit_of_ok field hr, hstop⟩)⟩
    | error cause' =>
      rw [bind_error hr] at h
      cases h
      exact ⟨field, stopsAt_cons.2 (.inl ⟨rfl, _, visit_of_error field hr⟩)⟩

/-- Where the visits stop, the reader fails. -/
theorem GoesThrough.of_stopsAt {r : Reader α} {visits : List Visit} (hr : GoesThrough r visits)
    {b : Bytes} {field : String} {cause : Malformation} (h : StopsAt visits b field cause) :
    ∃ rest, r b = (.error cause, rest) := by
  rcases hb : r b with ⟨answer, rest⟩
  cases answer with
  | ok a => exact absurd h (hr.passes hb).not_stopsAt
  | error cause' =>
    obtain ⟨field', hstop⟩ := hr.stops hb
    rw [h.unique hstop]
    exact ⟨rest, rfl⟩

/-! ## The faults of a reader -/

/-- A reader fails in certain ways only. -/
def FaultsIn (r : Reader α) (P : Malformation → Prop) : Prop :=
  ∀ b cause rest, r b = (.error cause, rest) → P cause

section

variable {P : Malformation → Prop} {r : Reader α}

theorem FaultsIn.pure (a : α) : FaultsIn (pure a) P :=
  fun _ _ _ h => nomatch h

theorem FaultsIn.fail {cause : Malformation} (h : P cause) :
    FaultsIn (fail cause : Reader α) P := by
  intro b cause' rest hb
  cases hb
  exact h

theorem FaultsIn.bind {next : α → Reader β} (hr : FaultsIn r P) (hn : ∀ a, FaultsIn (next a) P) :
    FaultsIn (r >>= next) P := by
  intro b cause rest h
  rw [bind_run] at h
  split at h
  · exact hn _ _ _ _ h
  · rename_i hb
    cases h
    exact hr _ _ _ hb

theorem FaultsIn.map (f : α → β) (hr : FaultsIn r P) : FaultsIn (f <$> r) P :=
  hr.bind fun a => .pure (f a)

theorem FaultsIn.ofOption {cause : Malformation} (h : P cause) (a : Option α) :
    FaultsIn (ofOption cause a) P := by
  cases a with
  | none => exact .fail h
  | some a => exact .pure a

theorem FaultsIn.ite {p : Prop} [Decidable p] {r' : Reader α} (hr : FaultsIn r P)
    (hr' : FaultsIn r' P) : FaultsIn (if p then r else r') P := by
  by_cases hp : p
  · rwa [if_pos hp]
  · rwa [if_neg hp]

theorem FaultsIn.replicate (hr : FaultsIn r P) (n : Nat) : FaultsIn (replicate n r) P := by
  induction n with
  | zero => exact .pure []
  | succ n ih => exact hr.bind fun a => ih.bind fun as => .pure (a :: as)

end

/-! ## The primitives -/

variable (field : String)

theorem faults_octets (n : Nat) : FaultsIn (octets field n) (·.Concerns field) := by
  intro b cause rest h
  unfold octets at h
  split at h
  · cases h
    rfl
  · cases h

theorem faults_ensure (n : Nat) : FaultsIn (ensure field n) (·.Concerns field) := by
  intro b cause rest h
  unfold ensure at h
  split at h
  · cases h
    rfl
  · cases h

theorem faults_u32 : FaultsIn (u32 field) (·.Concerns field) :=
  (faults_octets field 4).bind fun _ => .pure _

theorem faults_i32 : FaultsIn (i32 field) (·.Concerns field) :=
  (faults_u32 field).bind fun _ => .pure _

theorem faults_u64 : FaultsIn (u64 field) (·.Concerns field) :=
  (faults_octets field 8).bind fun _ => .pure _

theorem faults_flag : FaultsIn (flag field) (·.Concerns field) :=
  (faults_octets field 1).bind fun _ => .pure _

theorem faults_nonNegative : FaultsIn (nonNegative field) (·.Concerns field) :=
  (faults_i32 field).bind fun _ => .ite (.fail rfl) (.pure _)

/-- A signed word counts no elements of a few octets that could not be
addressed, so that no count overflows. -/
theorem faults_count {size : Nat} (h : size ≤ 8) :
    FaultsIn (count field size) (·.Concerns field) := by
  refine (faults_i32 field).bind fun value => .ite (.fail rfl) ?_
  have hsmall : ¬ addressable ≤ value.toInt.toNat * size := by
    have hvalue : value.toInt.toNat ≤ 2147483647 := by
      have := value.toInt_lt
      omega
    have hle : value.toInt.toNat * size ≤ 2147483647 * 8 := Nat.mul_le_mul hvalue h
    have hbound : addressable = 18446744073709551616 := rfl
    omega
  rw [if_neg hsmall]
  exact (faults_ensure field _).bind fun _ => .pure _

theorem faults_text : FaultsIn (text field) (·.Concerns field) := by
  refine (faults_count field (by decide)).bind fun n => (faults_octets field n).bind fun raw => ?_
  split
  · exact .pure _
  · exact .fail rfl

theorem faults_text? : FaultsIn (text? field) (·.Concerns field) := by
  intro b cause rest h
  unfold text? at h
  split at h
  · cases h
    rfl
  split at h
  · cases h
  · exact (faults_text field).map some _ _ _ h

theorem faults_address : FaultsIn (address field) (·.Concerns field) := by
  intro b cause rest h
  unfold address at h
  split at h
  · cases h
  · cases h
    rfl

theorem faults_addresses : FaultsIn (addresses field) (·.Concerns field) :=
  (faults_count field (by decide)).bind fun n => (faults_address field).replicate n

end Reader

end Wire

open Wire Reader

/-! ## The fields of the table -/

namespace Field

theorem faults_readBand (field : String) : FaultsIn (readBand field) (·.Concerns field) :=
  (faults_u32 field).bind fun bits =>
    .ofOption (show (Malformation.badBand field bits.toNat).Concerns field from rfl) _

theorem faults_readAddress (field : String) : FaultsIn (readAddress field) (·.Concerns field) := by
  refine (faults_text? field).bind fun text => ?_
  cases text with
  | none => exact .pure _
  | some text =>
    have h : (Malformation.badAddress field text).Concerns field := rfl
    exact (FaultsIn.ofOption h _).map some

/-- By induction on the number of entries, on top of any map. -/
theorem faults_readEntries (n : Nat) (m : ChannelMap) :
    FaultsIn (readEntries channels.name n m) (·.Concerns channels.name) := by
  induction n generalizing m with
  | zero => exact .pure m
  | succ n ih =>
    refine (faults_readBand _).bind fun band => (faults_nonNegative _).bind fun channel => ?_
    exact .ite (.fail rfl) (ih _)

theorem faults_readTimeout (l : Layout) (field : String) :
    FaultsIn (readTimeout l field) (·.Concerns field) :=
  .ite (faults_u64 field) ((faults_u32 field).map _)

/-- What goes wrong with the reading of a field concerns that field. -/
theorem faults_read (l : Layout) (f : Field) : FaultsIn (f.read l) (·.Concerns f.name) := by
  cases f with
  | ssid | passphrase => exact faults_text? _
  | bssid => exact faults_readAddress _
  | band => exact faults_readBand _
  | channel | maxNumberOfClients => exact faults_nonNegative _
  | securityType =>
    refine (faults_i32 _).bind fun code => ?_
    have h : (Malformation.unknownSecurityType code.toInt).Concerns securityType.name := rfl
    exact .ofOption h _
  | macRandomizationSetting =>
    refine (faults_i32 _).bind fun code => ?_
    have h : (Malformation.unknownMacRandomization code.toInt).Concerns
      macRandomizationSetting.name := rfl
    exact .ofOption h _
  | shutdownTimeoutMillis => exact faults_readTimeout l _
  | blockedClientList | allowedClientList => exact faults_addresses _
  | channels => exact (faults_count _ (by decide)).bind fun n => faults_readEntries n ∅
  | hiddenSsid | clientControlByUserEnabled | autoShutdownEnabled
  | bridgedModeOpportunisticShutdownEnabled | ieee80211axEnabled => exact faults_flag _

end Field

/-! ## Formats -/

/-- The visits to the fields of a legacy record. -/
def LegacyRecord.visits : List Visit :=
  [(Reader.text? "legacy ssid").visit "legacy ssid", (i32 "legacy band").visit "legacy band",
    (i32 "legacy channel").visit "legacy channel",
    (Reader.text? "legacy pre-shared key").visit "legacy pre-shared key",
    (i32 "legacy auth type").visit "legacy auth type",
    (flag "legacy hidden ssid").visit "legacy hidden ssid"]

/-- The visits to some fields in a layout. -/
def Field.visits (l : Layout) (fields : List Field) : List Visit :=
  fields.map fun f => (f.read l).visit f.name

namespace Format

/-- The visits to the fields that follow the tag of a format, in wire order. -/
def visits : Format → List Visit
  | legacy => LegacyRecord.visits
  | layout l => Field.visits l l.fields

theorem goesThrough_legacy : GoesThrough LegacyRecord.read legacy.visits := by
  unfold LegacyRecord.read visits LegacyRecord.visits
  exact .bind _ fun _ => .bind _ fun _ => .bind _ fun _ => .bind _ fun _ => .bind _ fun _ =>
    .bind _ fun _ => .pure _

theorem goesThrough_readAll (l : Layout) (fields : List Field) (d : Draft) :
    GoesThrough (Field.readAll l fields d) (Field.visits l fields) := by
  induction fields generalizing d with
  | nil => exact .pure d
  | cons f fields ih => exact .bind f.name fun v => ih (Field.set d f v)

theorem goesThrough_layout (l : Layout) :
    GoesThrough (Field.readAll l l.fields {}) (layout l).visits :=
  goesThrough_readAll l l.fields {}

/-- What goes wrong with a visit concerns the field that is visited. -/
theorem faults_visit {f : Format} {v : Visit} (h : v ∈ f.visits) :
    FaultsIn v.reader (·.Concerns v.field) := by
  cases f with
  | legacy =>
    simp only [visits, LegacyRecord.visits, List.mem_cons, List.not_mem_nil, or_false] at h
    rcases h with rfl | rfl | rfl | rfl | rfl | rfl
    · exact (faults_text? _).map _
    · exact (faults_i32 _).map _
    · exact (faults_i32 _).map _
    · exact (faults_text? _).map _
    · exact (faults_i32 _).map _
    · exact (faults_flag _).map _
  | layout l =>
    obtain ⟨f, -, rfl⟩ := List.mem_map.1 h
    exact (Field.faults_read l f).map _

/-- The fault at which reading stops concerns the field that was visited. -/
theorem concerns_of_stopsAt {f : Format} {b : Bytes} {field : String} {cause : Malformation}
    (h : StopsAt f.visits b field cause) : cause.Concerns field := by
  obtain ⟨before, v, after, s, t, hsplit, rfl, -, hfail⟩ := h
  have hv : v ∈ f.visits := hsplit ▸ List.mem_append_right _ List.mem_cons_self
  exact faults_visit hv _ _ _ hfail

end Format

end HotspotBackup
