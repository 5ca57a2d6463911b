import HotspotBackup.ChannelMap
import Mathlib.Data.List.Nodup

/-!
# Laws of channel maps

A map is determined by its entries in any order (`eq_of_perm`), holds each
band once (`nodup_bands`), and so no more entries than there are masks
(`length_entries_lt`). A band that has no channel yet is added to the
entries and changes nothing else (`perm_insert`), so that assignments to
different bands are the entries of their map (`perm_entries_ofList`).
-/

namespace HotspotBackup.ChannelMap

theorem eq_of_perm {m n : ChannelMap} (h : m.entries.Perm n.entries) : m = n :=
  ext (h.eq_of_pairwise (fun _ _ _ _ hab hba => absurd hab (Nat.lt_asymm hba)) m.ascending
    n.ascending)

theorem pairwise_bands (m : ChannelMap) : m.bands.Pairwise fun a b => a.bits < b.bits :=
  List.pairwise_map.2 m.ascending

theorem nodup_bands (m : ChannelMap) : m.bands.Nodup :=
  m.pairwise_bands.imp fun h heq => absurd (heq ▸ h) (Nat.lt_irrefl _)

/-- Entries of one band are one entry. -/
theorem eq_of_band (m : ChannelMap) {x y : Band × UInt32} (hx : x ∈ m.entries)
    (hy : y ∈ m.entries) (h : x.1 = y.1) : x = y :=
  List.inj_on_of_nodup_map m.nodup_bands hx hy h

theorem isSome_get?_iff {m : ChannelMap} {band : Band} :
    (m.get? band).isSome = true ↔ band ∈ m.bands := by
  simp [get?, bands, List.find?_isSome]

theorem perm_insertEntry {band : Band} {channel : UInt32} {entries : List (Band × UInt32)}
    (h : band ∉ entries.map (·.1)) :
    (insertEntry band channel entries).Perm ((band, channel) :: entries) := by
  induction entries with
  | nil => exact .refl _
  | cons entry rest ih =>
    rw [List.map_cons, List.mem_cons, not_or] at h
    unfold insertEntry
    split
    · exact .refl _
    split
    · rename_i heq
      exact absurd (Band.ext heq) h.1
    · exact ((ih h.2).cons entry).trans (.swap ..)

theorem perm_insert {m : ChannelMap} {band : Band} (channel : UInt32) (h : band ∉ m.bands) :
    (m.insert band channel).entries.Perm ((band, channel) :: m.entries) :=
  perm_insertEntry h

theorem bands_insert {m : ChannelMap} {band : Band} (channel : UInt32) (h : band ∉ m.bands) :
    (m.insert band channel).bands.Perm (band :: m.bands) :=
  (perm_insert channel h).map Prod.fst

/-- Bands that are still to come, on top of a map that was given one more. -/
theorem nodup_append_bands_insert {m : ChannelMap} {band : Band} {bands : List Band}
    (channel : UInt32) (h : band ∉ m.bands) :
    (bands ++ (m.insert band channel).bands).Nodup ↔ (band :: (bands ++ m.bands)).Nodup :=
  (((m.bands_insert channel h).append_left bands).trans List.perm_middle).nodup_iff

/-- An ascending run of numbers between two bounds is no longer than they allow. -/
theorem length_le_of_ascending {ns : List Nat} {low high : Nat} (h : ns.Pairwise (· < ·))
    (hb : ∀ n ∈ ns, low < n ∧ n < high) : ns.length ≤ high - low - 1 := by
  induction ns generalizing low with
  | nil => simp
  | cons n ns ih =>
    obtain ⟨hn, hns⟩ := List.pairwise_cons.1 h
    have hlow := hb n List.mem_cons_self
    have := ih hns fun k hk => ⟨hn k hk, (hb k (List.mem_cons_of_mem _ hk)).2⟩
    rw [List.length_cons]
    omega

/-- The map of some assignments on top of another map holds all of them, if no
band comes twice. By induction on the assignments. -/
theorem perm_foldl_insert {assignments : List (Band × UInt32)} {m : ChannelMap}
    (h : (assignments.map (·.1) ++ m.bands).Nodup) :
    (assignments.foldl (fun m e => m.insert e.1 e.2) m).entries.Perm
      (assignments ++ m.entries) := by
  induction assignments generalizing m with
  | nil => exact .refl _
  | cons entry assignments ih =>
    rw [List.map_cons, List.cons_append] at h
    have hm : entry.1 ∉ m.bands := fun hm => (List.nodup_cons.1 h).1 (List.mem_append_right _ hm)
    have hnodup := (nodup_append_bands_insert entry.2 hm).2 h
    exact (ih hnodup).trans (((m.perm_insert entry.2 hm).append_left _).trans List.perm_middle)

/-- The map of assignments to different bands holds them all and no others. -/
theorem perm_entries_ofList {assignments : List (Band × UInt32)}
    (h : (assignments.map (·.1)).Nodup) : (ofList assignments).entries.Perm assignments := by
  have hbands : (assignments.map (·.1) ++ bands ∅).Nodup := by
    rwa [show bands ∅ = [] from rfl, List.append_nil]
  have hperm := perm_foldl_insert hbands
  rwa [show entries ∅ = [] from rfl, List.append_nil] at hperm

/-- A map is the map of its entries. -/
theorem ofList_entries (m : ChannelMap) : ofList m.entries = m :=
  eq_of_perm (perm_entries_ofList m.nodup_bands)

theorem length_entries_lt (m : ChannelMap) : m.entries.length < 16 := by
  have h : (m.entries.map (·.1.bits)).Pairwise (· < ·) := List.pairwise_map.2 m.ascending
  have hb : ∀ n ∈ m.entries.map (·.1.bits), 0 < n ∧ n < 16 := by
    intro n hn
    obtain ⟨entry, -, rfl⟩ := List.mem_map.1 hn
    exact entry.1.bounds
  have := length_le_of_ascending h hb
  rw [List.length_map] at this
  omega

end HotspotBackup.ChannelMap
