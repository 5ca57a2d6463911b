import HotspotBackup.Backup
import HotspotBackup.Proofs.FieldReading
import HotspotBackup.Proofs.Rules

/-!
# The stages of a restore

What each stage of a restore makes of its input, from which the results
about whole restores are put together.

* `readWhole_eq_ok_iff`, `readWhole_cut` and `readWhole_extended`: all octets
  are one value exactly if they are an encoding of it; an encoding that is cut
  short is truncated, and one with more behind it has trailing octets.
* `readFormat_eq_ok_iff`: the tag is the four octets of the number.
* `fillAll_of_not_mem` and `fillAll_of_mem`: the device is asked at most once.
* `decodeLayout_of_spells` and `decodeLayout_eq_ok_iff`: the settings that a
  layout carries are as they are spelt, and the others as they are filled.
-/

namespace HotspotBackup

namespace Asking

variable {m : Asking α} {next : α → Asking β} {p : Provider} {n : Nat}

theorem bind_of_ok {a : α} (h : m p = (.ok a, n)) :
    (m >>= next) p = ((next a p).1, n + (next a p).2) := by
  rw [bind_run, h]

theorem bind_of_error {e : BackupError} (h : m p = (.error e, n)) :
    (m >>= next) p = (.error e, n) := by
  rw [bind_run, h]

/-- A computation that goes on without a lookup. -/
theorem bind_of_ok_zero {a : α} (h : m p = (.ok a, 0)) : (m >>= next) p = next a p := by
  rw [bind_of_ok h, Nat.zero_add]

end Asking

namespace Backup

open Wire Reader

/-! ## All octets -/

section

variable {r : Reader α} {E : α → Bytes → Prop} {a : α} {b rest : Bytes}

theorem readWhole_of_ok (h : r b = (.ok a, rest)) : readWhole r b =
    if rest.length = 0 then .ok a else .error (.malformed (.trailing rest.length)) := by
  unfold readWhole
  rw [bind_ok h, bind_run, finish]
  by_cases hl : rest.length = 0
  · rw [if_pos hl, if_pos hl]
    rfl
  · rw [if_neg hl, if_neg hl]

theorem readWhole_of_error {cause : Malformation} (h : r b = (.error cause, rest)) :
    readWhole r b = .error (.malformed cause) := by
  unfold readWhole
  rw [bind_run, h]

theorem readWhole_eq_ok_iff (hr : Recognizes r E) : readWhole r b = .ok a ↔ E a b := by
  refine ⟨fun h => ?_, fun h => ?_⟩
  · rcases hb : r b with ⟨answer, rest⟩
    cases answer with
    | error cause => rw [readWhole_of_error hb] at h; cases h
    | ok a' =>
      rw [readWhole_of_ok hb] at h
      split at h
      · rename_i hl
        cases h
        obtain ⟨e, he, rfl⟩ := hr.sound hb
        rwa [List.eq_nil_of_length_eq_zero hl, List.append_nil]
      · cases h
  · have hb := hr.complete [] h
    rw [List.append_nil] at hb
    rw [readWhole_of_ok hb, if_pos List.length_nil]

/-- An encoding that is cut short is truncated. -/
theorem readWhole_cut (hr : Recognizes r E) {q : Bytes} (h : E a b) (hq : q <+: b) (hne : q ≠ b) :
    ∃ field need remain,
      readWhole r q = .error (.malformed (.truncated field need remain)) ∧ remain < need := by
  obtain ⟨field, need, remain, rest, ht, hlt⟩ := hr.truncated h hq hne
  exact ⟨field, need, remain, readWhole_of_error ht, hlt⟩

/-- An encoding with more behind it has trailing octets. -/
theorem readWhole_extended (hr : Recognizes r E) {x : Bytes} (h : E a b) (hx : x ≠ []) :
    readWhole r (b ++ x) = .error (.malformed (.trailing x.length)) := by
  rw [readWhole_of_ok (hr.complete x h), if_neg (by simpa using hx)]

end

/-! ## The tag -/

theorem toNat_tag (f : Format) : f.tag.toUInt32.toNat = f.number := by
  cases f with
  | legacy => decide
  | layout l => cases l <;> decide

theorem i32_tag (f : Format) : Wire.i32 f.tag = Bytes.ofNat 4 f.number := by
  rw [← toNat_tag]
  rfl

theorem readFormat_tag (f : Format) (rest : Bytes) :
    readFormat (Bytes.ofNat 4 f.number ++ rest) = .ok (f, rest) := by
  have h := (recognizes_i32 "version").complete rest (a := f.tag) rfl
  rw [toNat_tag] at h
  unfold readFormat
  rw [h]
  simp only [Format.ofTag, Format.ofTag?_tag]
  rfl

theorem readFormat_eq_ok_iff {b rest : Bytes} {f : Format} :
    readFormat b = .ok (f, rest) ↔ b = Bytes.ofNat 4 f.number ++ rest := by
  refine ⟨fun h => ?_, fun h => ?_⟩
  · unfold readFormat at h
    split at h
    · cases h
    · rename_i tag s hb
      obtain ⟨e, rfl, rfl⟩ := (recognizes_i32 "version").sound hb
      unfold Format.ofTag at h
      split at h
      · rename_i g hg
        cases h
        rw [← Format.tag_of_ofTag? hg, toNat_tag]
      · cases h
  · rw [h, readFormat_tag]

theorem readFormat_cut {f : Format} {q : Bytes} (hq : q <+: Bytes.ofNat 4 f.number)
    (hne : q ≠ Bytes.ofNat 4 f.number) : ∃ field need remain,
      readFormat q = .error (.malformed (.truncated field need remain)) ∧ remain < need := by
  rw [← toNat_tag] at hq hne
  obtain ⟨field, need, remain, rest, ht, hlt⟩ := (recognizes_i32 "version").truncated rfl hq hne
  refine ⟨field, need, remain, ?_, hlt⟩
  unfold readFormat
  rw [ht]

end Backup

/-! ## Filling -/

namespace Field

theorem fill_of_ne {f : Field} (hf : f ≠ .autoShutdownEnabled) (d : Draft) (p : Provider) :
    fill d f p = (.ok d, 0) := by
  cases f <;> first | rfl | exact absurd rfl hf

theorem fill_autoShutdownEnabled (d : Draft) (p : Provider) :
    fill d autoShutdownEnabled p = ((fun b => { d with autoShutdownEnabled := b }) <$> p, 1) := by
  cases p <;> rfl

theorem fillAll_of_not_mem {fields : List Field} (h : .autoShutdownEnabled ∉ fields) (d : Draft)
    (p : Provider) : fillAll fields d p = (.ok d, 0) := by
  induction fields with
  | nil => rfl
  | cons f fields ih =>
    rw [List.mem_cons, not_or] at h
    rw [fillAll, Asking.bind_of_ok_zero (fill_of_ne (Ne.symm h.1) d p), ih h.2]

/-- The device is asked once, however many other settings there are to fill. -/
theorem fillAll_of_mem {fields : List Field} (hn : fields.Nodup)
    (h : .autoShutdownEnabled ∈ fields) (d : Draft) (p : Provider) :
    fillAll fields d p = ((fun b => { d with autoShutdownEnabled := b }) <$> p, 1) := by
  induction fields with
  | nil => cases h
  | cons f fields ih =>
    obtain ⟨hf, hn⟩ := List.nodup_cons.1 hn
    by_cases hfa : f = .autoShutdownEnabled
    · subst hfa
      have hfill := fill_autoShutdownEnabled d p
      cases p with
      | error e => exact Asking.bind_of_error hfill
      | ok b =>
        rw [fillAll, Asking.bind_of_ok hfill, fillAll_of_not_mem hf]
        rfl
    · have hmem := (List.mem_cons.1 h).resolve_left (Ne.symm hfa)
      rw [fillAll, Asking.bind_of_ok_zero (fill_of_ne hfa d p), ih hn hmem]

/-- Some fields of two drafts are spelt alike if they are alike. -/
theorem spellsAll_congr {l : Layout} {fields : List Field} {d d' : Draft} {e : Bytes}
    (h : ∀ f ∈ fields, get d f = get d' f) : SpellsAll l fields d e ↔ SpellsAll l fields d' e := by
  unfold SpellsAll
  refine ⟨fun h => ?_, fun h => ?_⟩
  · obtain ⟨part, hp, he⟩ := h
    exact ⟨part, fun f hf => h f hf ▸ hp f hf, he⟩
  · obtain ⟨part, hp, he⟩ := h
    exact ⟨part, fun f hf => (h f hf).symm ▸ hp f hf, he⟩

end Field

namespace Layout

theorem nodup_fields (l : Layout) : l.fields.Nodup := by
  cases l <;> decide

theorem nodup_absentFields (l : Layout) : l.absentFields.Nodup := by
  cases l <;> decide

theorem mem_fields {l : Layout} {f : Field} : f ∈ l.fields ↔ f.since ≤ l := by
  simp [fields, carries, Field.mem_all]

theorem mem_absentFields {l : Layout} {f : Field} : f ∈ l.absentFields ↔ f ∉ l.fields := by
  simp [absentFields, fields, Field.mem_all]

/-- Only the oldest layout does not carry the automatic shutdown. -/
theorem autoShutdownEnabled_mem_absentFields {l : Layout} :
    .autoShutdownEnabled ∈ l.absentFields ↔ l = v5 := by
  cases l <;> decide

/-- A layout that carries the automatic shutdown is not the oldest. -/
theorem ne_v5_of_mem {l : Layout} {f : Field} (hf : f ∈ l.fields)
    (ha : f = .autoShutdownEnabled) : l ≠ v5 :=
  fun hl => mem_absentFields.1 (autoShutdownEnabled_mem_absentFields.2 hl) (ha ▸ hf)

end Layout

namespace Backup

open Wire Reader HotspotBackup.Field

/-! ## The rules -/

/-- What a restore makes of its filled draft. -/
def settle (d : Draft) : Except BackupError Configuration :=
  match d.build with
  | .ok c => .ok c
  | .error v => .error (.malformed (.rejected v))

theorem settle_eq_ok_iff {d : Draft} {c : Configuration} : settle d = .ok c ↔ c.draft = d := by
  rw [← Draft.build_eq_ok_iff]
  unfold settle
  split
  · rename_i c' h
    rw [h, Except.ok.injEq, Except.ok.injEq]
  · rename_i v h
    rw [h]
    exact ⟨fun h => (nomatch h), fun h => (nomatch h)⟩

theorem complete_eq (l : Layout) (d : Draft) : complete l d =
    fillAll l.absentFields d >>= fun filled => Asking.ofExcept (settle filled) := by
  refine congrArg _ (funext fun filled => ?_)
  unfold settle
  cases filled.build <;> rfl

theorem complete_of_ne {l : Layout} (hl : l ≠ .v5) (d : Draft) (p : Provider) :
    complete l d p = (settle d, 0) := by
  have hf := fillAll_of_not_mem (mt Layout.autoShutdownEnabled_mem_absentFields.1 hl) d p
  rw [complete_eq, Asking.bind_of_ok_zero hf, Asking.ofExcept_run]

theorem complete_v5 (d : Draft) (p : Provider) :
    complete .v5 d p = (p >>= fun b => settle { d with autoShutdownEnabled := b }, 1) := by
  have hf := fillAll_of_mem (Layout.nodup_absentFields .v5)
    (Layout.autoShutdownEnabled_mem_absentFields.2 rfl) d p
  rw [complete_eq]
  cases p with
  | error e => exact Asking.bind_of_error hf
  | ok b => exact Asking.bind_of_ok hf

/-- Completion changes nothing but what was asked. -/
theorem complete_eq_ok_iff {l : Layout} {d : Draft} {p : Provider} {c : Configuration} :
    (complete l d p).1 = .ok c ↔ (l = .v5 → p = .ok c.draft.autoShutdownEnabled) ∧
      ∀ f, (f = .autoShutdownEnabled → l ≠ .v5) → get c.draft f = get d f := by
  by_cases hl : l = .v5
  · subst hl
    rw [complete_v5]
    refine ⟨fun h => ?_, fun h => ?_⟩
    · cases p with
      | error e => cases h
      | ok b =>
        have hc : c.draft = set d autoShutdownEnabled b := settle_eq_ok_iff.1 h
        rw [hc]
        exact ⟨fun _ => rfl, fun f hf => get_set_ne d b fun h => hf h rfl⟩
    · obtain ⟨hp, hc⟩ := h
      rw [hp rfl]
      refine settle_eq_ok_iff.2 (ext_get fun f => ?_)
      by_cases hf : f = .autoShutdownEnabled
      · subst hf
        rfl
      · rw [hc f fun h => absurd h hf]
        exact (get_set_ne d (f := autoShutdownEnabled) _ hf).symm
  · rw [complete_of_ne hl, settle_eq_ok_iff]
    refine ⟨fun h => ?_, fun h => ?_⟩
    · exact ⟨fun h => absurd h hl, fun f _ => h ▸ rfl⟩
    · exact ext_get fun f => h.2 f fun _ => hl

/-! ## The settings of a layout -/

theorem readAll_eq_ok_iff {l : Layout} {b : Bytes} {d : Draft} :
    readWhole (readAll l l.fields {}) b = .ok d ↔
      l.Spells d b ∧ ∀ f ∈ l.absentFields, get d f = get {} f := by
  simp only [readWhole_eq_ok_iff (recognizes_readAll l l.nodup_fields {}), Layout.Spells,
    Layout.mem_absentFields]

/-- Settings that are spelt, with the others at their defaults, are completed. -/
theorem decodeLayout_of_spells {l : Layout} {b : Bytes} {d : Draft} (hs : l.Spells d b)
    (hd : ∀ f ∈ l.absentFields, get d f = get {} f) (p : Provider) :
    decodeLayout l b p = complete l d p := by
  unfold decodeLayout
  rw [readAll_eq_ok_iff.2 ⟨hs, hd⟩]
  exact Asking.bind_of_ok_zero rfl

theorem spells_and_filled_of_decodeLayout {l : Layout} {b : Bytes} {p : Provider}
    {c : Configuration} (h : (decodeLayout l b p).1 = .ok c) :
    l.Spells c.draft b ∧ l.Filled p c.draft := by
  unfold decodeLayout at h
  cases hw : readWhole (readAll l l.fields {}) b with
  | error e => rw [hw] at h; cases h
  | ok d =>
    rw [hw, Asking.bind_of_ok_zero rfl, complete_eq_ok_iff] at h
    obtain ⟨hs, hd⟩ := readAll_eq_ok_iff.1 hw
    obtain ⟨hp, hc⟩ := h
    have hsc := (spellsAll_congr fun f hf => hc f (Layout.ne_v5_of_mem hf)).2 hs
    refine ⟨hsc, fun f hf hne => ?_, hp⟩
    rw [hc f fun h => absurd h hne, hd f hf]

theorem decodeLayout_of_spells_and_filled {l : Layout} {b : Bytes} {p : Provider}
    {c : Configuration} (hs : l.Spells c.draft b) (hf : l.Filled p c.draft) :
    (decodeLayout l b p).1 = .ok c := by
  -- the draft that was read: the restored one before the device was asked
  let d := set c.draft autoShutdownEnabled
    (if l = .v5 then ({} : Draft).autoShutdownEnabled else c.draft.autoShutdownEnabled)
  have hd : ∀ f, (f = .autoShutdownEnabled → l ≠ .v5) → get c.draft f = get d f := by
    intro f hv
    by_cases hfa : f = .autoShutdownEnabled
    · subst hfa
      rw [get_set, if_neg (hv rfl)]
      rfl
    · rw [get_set_ne _ _ hfa]
  have hdefault : ∀ f ∈ l.absentFields, get d f = get {} f := by
    intro f hfl
    by_cases hfa : f = .autoShutdownEnabled
    · subst hfa
      rw [get_set, if_pos (Layout.autoShutdownEnabled_mem_absentFields.1 hfl)]
      rfl
    · rw [get_set_ne _ _ hfa, hf.default f hfl hfa]
  have hsd : l.Spells d b := (spellsAll_congr fun f hf => hd f (Layout.ne_v5_of_mem hf)).1 hs
  rw [decodeLayout_of_spells hsd hdefault]
  exact complete_eq_ok_iff.2 ⟨hf.asked, hd⟩

/-- A restore is of the settings that are spelt, with the others filled. -/
theorem decodeLayout_eq_ok_iff {l : Layout} {b : Bytes} {p : Provider} {c : Configuration} :
    (decodeLayout l b p).1 = .ok c ↔ l.Spells c.draft b ∧ l.Filled p c.draft :=
  ⟨spells_and_filled_of_decodeLayout, fun h => decodeLayout_of_spells_and_filled h.1 h.2⟩

/-! ## Tagged backups -/

/-- The restore of what follows the tag of a format. -/
def decodeBody : Format → Bytes → Asking Configuration
  | .legacy => decodeLegacy
  | .layout l => decodeLayout l

theorem decode_of_format {b rest : Bytes} {f : Format} (h : readFormat b = .ok (f, rest))
    (p : Provider) : decode b p = decodeBody f rest p := by
  unfold decode
  rw [h, Asking.bind_of_ok_zero (Asking.ofExcept_run ..)]
  cases f <;> rfl

theorem decode_of_layout {b rest : Bytes} {l : Layout} (h : readFormat b = .ok (.layout l, rest))
    (p : Provider) : decode b p = decodeLayout l rest p :=
  decode_of_format h p

theorem decode_of_error {b : Bytes} {e : BackupError} (h : readFormat b = .error e)
    (p : Provider) : decode b p = (.error e, 0) := by
  unfold decode
  rw [h]
  exact Asking.bind_of_error rfl

theorem peekFormat_eq_ok_iff {b : Bytes} {f : Format} :
    peekFormat b = .ok f ↔ ∃ rest, readFormat b = .ok (f, rest) := by
  unfold peekFormat
  cases readFormat b with
  | error e => exact ⟨fun h => (nomatch h), fun ⟨_, h⟩ => (nomatch h)⟩
  | ok v =>
    obtain ⟨g, rest⟩ := v
    refine ⟨fun h => ?_, fun h => ?_⟩
    · cases h
      exact ⟨rest, rfl⟩
    · obtain ⟨_, h⟩ := h
      cases h
      rfl

end Backup

end HotspotBackup
