import HotspotBackup.Proofs.Documents
import HotspotBackup.Proofs.Migration

/-!
# What a backup depends on

A backup in a layout tells two configurations apart exactly by the settings
whose names the layout lists, where of the timeout the older layouts see the low
32 bits only (`Field.Alike`). Nothing else has a part in its octets, and no two
values can run into each other, since the encoding of each ends where it says.

* `Field.write_append_inj`: what is written of a value, whatever follows it,
  determines what the layout keeps of it.
* `Field.writeAll_eq_iff`: this of any run of fields, by induction on them.
* `Backup.encodeAs_eq_iff`: this of whole backups, whose tag also tells the layout.
-/

namespace HotspotBackup

open Wire

namespace Field

/-- Values of a field that a layout does not tell apart. -/
def Alike (l : Layout) : (f : Field) → f.Value → f.Value → Prop
  | shutdownTimeoutMillis, v, w =>
    if .v7 ≤ l then v = w else UInt64.toNat v % 4294967296 = UInt64.toNat w % 4294967296
  | _, v, w => v = w

theorem alike_iff {l : Layout} {f : Field} {v w : f.Value} :
    f.Alike l v w ↔ f.kept l v = f.kept l w := by
  by_cases hf : f = .shutdownTimeoutMillis
  · subst hf
    by_cases hl : .v7 ≤ l
    · simp only [Alike, kept, hl, ↓reduceIte]
    · simp only [Alike, kept, hl, ↓reduceIte]
      rw [← UInt64.toNat_inj, UInt64.toNat_mod, UInt64.toNat_mod]
      rfl
  · rw [kept_of_ne hf, kept_of_ne hf]
    cases f <;> first | rfl | exact absurd rfl hf

/-- Values that a layout does not tell apart are written alike. -/
theorem write_of_alike {l : Layout} {f : Field} {v w : f.Value} (h : f.Alike l v w) :
    f.write l v = f.write l w := by
  have hle : l ≤ l := Nat.le_refl _
  rw [← write_kept hle f v, alike_iff.1 h, write_kept hle f w]

/-- What is written of a value ends where it says: whatever follows, it determines
what the layout keeps of the value. -/
theorem write_append_inj {l : Layout} {f : Field} {v w : f.Value} (hv : f.Storable v)
    (hw : f.Storable w) {s t : Bytes} (h : f.write l v ++ s = f.write l w ++ t) :
    f.Alike l v w ∧ s = t := by
  obtain ⟨hkept, -, hrest⟩ := (recognizes_read l f).unique (spells_write l hv) (spells_write l hw) h
  exact ⟨alike_iff.2 hkept, hrest⟩

/-- By induction on the fields: two drafts are written alike exactly if no field
tells them apart. -/
theorem writeAll_eq_iff {l : Layout} {fields : List Field} {d e : Draft}
    (hd : ∀ f ∈ fields, f.Storable (get d f)) (he : ∀ f ∈ fields, f.Storable (get e f)) :
    writeAll l d fields = writeAll l e fields ↔ ∀ f ∈ fields, f.Alike l (get d f) (get e f) := by
  induction fields with
  | nil => exact ⟨fun _ => nofun, fun _ => rfl⟩
  | cons f fields ih =>
    rw [List.forall_mem_cons] at hd he ⊢
    rw [← ih hd.2 he.2, writeAll_cons, writeAll_cons]
    refine ⟨fun h => write_append_inj hd.1 he.1 h, fun h => ?_⟩
    rw [write_of_alike h.1, h.2]

theorem name_injective : Function.Injective name := by
  intro f g h
  rw [← Option.some_inj, ← ofName?_name f, ← ofName?_name g, h]

end Field

namespace Backup

open HotspotBackup.Field

/-- A backup tells its layout. -/
theorem layout_of_encode_eq {l l' : Layout} {c c' : Configuration} (h : encode l c = encode l' c') :
    l = l' := by
  have hf := readFormat_encode l c
  rw [h, readFormat_encode l' c', Except.ok.injEq, Prod.mk.injEq, Format.layout.injEq] at hf
  exact hf.1.symm

/-- Two configurations that fit have one backup in a layout exactly if the settings
that the layout names do not tell them apart. No configurations, whether they fit
or not, have one backup in two layouts. -/
theorem encodeAs_eq_iff (l : Layout) (c c' : Configuration) :
    (c.draft.Fits → c'.draft.Fits →
      (encodeAs (.layout l) c = encodeAs (.layout l) c' ↔
        ∀ f : Field, f.name ∈ (Format.layout l).fields.map Field.name →
          f.Alike l (get c.draft f) (get c'.draft f))) ∧
      ∀ l', encodeAs (.layout l) c = encodeAs (.layout l') c' → l = l' := by
  refine ⟨fun hc hc' => ?_, fun l' h => layout_of_encode_eq (Except.ok.inj h)⟩
  have hall : writeAll l c.draft l.fields = writeAll l c'.draft l.fields ↔
      ∀ f ∈ l.fields, f.Alike l (get c.draft f) (get c'.draft f) :=
    writeAll_eq_iff (fun f _ => storable_of_fits c.lawful hc f) fun f _ =>
      storable_of_fits c'.lawful hc' f
  have hencode : encodeAs (.layout l) c = encodeAs (.layout l) c' ↔
      writeAll l c.draft l.fields = writeAll l c'.draft l.fields := by
    rw [encodeAs, encodeAs, Except.ok.injEq, encode, encode, List.append_cancel_left_eq]
  rw [hencode, hall]
  simp only [List.mem_map_of_injective name_injective, Format.fields]

/-- A hotspot that shuts down after five milliseconds. -/
def hasty : Configuration where
  draft := { shutdownTimeoutMillis := 5 }
  accepted := by decide

/-- The same after as many and `2 ^ 32` milliseconds, with an address of its own. -/
def patient : Configuration where
  draft := { shutdownTimeoutMillis := 4294967301, bssid := some ⟨2, 0, 0, 0, 0, 1⟩ }
  accepted := by decide

/-- The sixth layout does not tell `hasty` and `patient` apart, and the seventh
does. -/
theorem encodeAs_hasty_and_patient :
    (hasty.draft.Fits ∧ patient.draft.Fits) ∧
      encodeAs (.layout .v6) hasty = encodeAs (.layout .v6) patient ∧
      encodeAs (.layout .v7) hasty ≠ encodeAs (.layout .v7) patient ∧
      encodeAs (.layout .v6) hasty ≠ encodeAs (.layout .v7) hasty := by
  have hh : hasty.draft.Fits := ⟨fun _ h => (nomatch h), by decide, by decide⟩
  have hp : patient.draft.Fits := ⟨fun _ h => (nomatch h), by decide, by decide⟩
  refine ⟨⟨hh, hp⟩, ((encodeAs_eq_iff .v6 hasty patient).1 hh hp).2 fun f hf => ?_, fun h => ?_,
    fun h => ?_⟩
  · cases f with
    | bssid => exact absurd hf (by decide)
    | _ => rfl
  · have hseen : (5 : UInt64) = 4294967301 :=
      ((encodeAs_eq_iff .v7 hasty patient).1 hh hp).1 h .shutdownTimeoutMillis (by decide)
    exact absurd hseen (by decide)
  · exact absurd ((encodeAs_eq_iff .v6 hasty hasty).2 .v7 h) (by decide)

end Backup

end HotspotBackup
