import HotspotBackup.Proofs.Stages
import Mathlib.Data.List.Induction
import Mathlib.Data.List.Perm.Basic
import Mathlib.Data.Set.List

/-!
# The channels of a backup

What a restore makes of the channels, whatever pairs of words stand for them
behind their count (`Layout.around`), where the octets around them spell the
other settings of a configuration in any way (`Layout.Surrounds`).

* `spellsChannels_pairsOctets_iff`: the pairs spell a map exactly if they are
  its entries in some order.
* `decode_around_eq_ok_iff` and `exists_decode_around_iff`: so a restore finds
  them, and there is one exactly if they assign channels to different bands.
* `readChannels_of_repeated`: reading stops at the first pair whose band came
  before, by induction on the pairs in front of it (`readEntries_of_repeated`).
-/

namespace HotspotBackup

namespace Wire

open Reader

/-! ## Pairs of words -/

/-- The words of an entry of a channel map. -/
def pairOf (entry : Band × UInt32) : UInt32 × UInt32 :=
  (UInt32.ofNat entry.1.bits, entry.2)

/-- The octets of two words. -/
def pairOctets (pair : UInt32 × UInt32) : Bytes :=
  u32 pair.1 ++ u32 pair.2

/-- Pairs of words behind their count. -/
def pairsOctets (pairs : List (UInt32 × UInt32)) : Bytes :=
  length pairs.length ++ pairs.flatMap pairOctets

/-- Pairs that assign channels, none of them negative as a signed word, to
different bands, each of them a single one. -/
structure AssignsChannels (pairs : List (UInt32 × UInt32)) : Prop where
  single : ∀ pair ∈ pairs, pair.1 ∈ [1, 2, 4, 8]
  distinct : (pairs.map (·.1)).Nodup
  stored : ∀ pair ∈ pairs, pair.2.toNat ≤ maxStoredNumber

/-- A pair whose first word names some bands and whose second one is not
negative as a signed word. -/
structure IsEntry (pair : UInt32 × UInt32) : Prop where
  band : 0 < pair.1.toNat ∧ pair.1.toNat < 16
  channel : pair.2.toNat ≤ maxStoredNumber

theorem toNat_pairOf (entry : Band × UInt32) : (pairOf entry).1.toNat = entry.1.bits := by
  have hb := entry.1.bounds.2
  rw [pairOf, UInt32.toNat_ofNat', Nat.mod_eq_of_lt (by omega)]

theorem pairOf_injective : Function.Injective pairOf := by
  intro x y h
  have hband : x.1 = y.1 := Band.ext (by rw [← toNat_pairOf, ← toNat_pairOf, h])
  exact Prod.ext hband (congrArg (·.2) h)

theorem exists_entry {pair : UInt32 × UInt32} (h : 0 < pair.1.toNat ∧ pair.1.toNat < 16) :
    ∃ entry, pairOf entry = pair :=
  ⟨(⟨pair.1.toNat, h⟩, pair.2), Prod.ext UInt32.ofNat_toNat rfl⟩

/-- Pairs that name bands are the words of some entries. -/
theorem exists_entries {pairs : List (UInt32 × UInt32)}
    (h : ∀ pair ∈ pairs, 0 < pair.1.toNat ∧ pair.1.toNat < 16) :
    ∃ entries : List (Band × UInt32), entries.map pairOf = pairs := by
  have hrange : ∀ pair ∈ pairs, pair ∈ Set.range pairOf := fun pair hp => exists_entry (h pair hp)
  rwa [← Set.mem_range, Set.range_list_map]

/-- Pairs come twice as bands do. -/
theorem nodup_words_iff {entries : List (Band × UInt32)} :
    ((entries.map pairOf).map (·.1)).Nodup ↔ (entries.map (·.1)).Nodup := by
  have hword : (entries.map pairOf).map (·.1) =
      (entries.map (·.1)).map fun band => UInt32.ofNat band.bits := by
    rw [List.map_map, List.map_map]
    rfl
  have hinj : Function.Injective fun band : Band => UInt32.ofNat band.bits := by
    intro a b h
    have hpair : pairOf (a, 0) = pairOf (b, 0) := Prod.ext h rfl
    exact congrArg (·.1) (pairOf_injective hpair)
  rw [hword, List.nodup_map_iff hinj]

/-! ## Their octets -/

theorem length_pairOctets (pair : UInt32 × UInt32) : (pairOctets pair).length = 8 := by
  simp [pairOctets]

theorem pairOctets_pairOf (entry : Band × UInt32) :
    pairOctets (pairOf entry) = entryOctets entry := by
  rw [pairOctets, u32, toNat_pairOf]
  rfl

theorem pairOctets_injective : Function.Injective pairOctets := by
  intro x y h
  have hword : ∀ m n : UInt32, u32 m = u32 n → m = n := fun m n hmn =>
    UInt32.toNat_inj.1 ((Bytes.ofNat_inj m.toNat_lt n.toNat_lt).1 hmn)
  obtain ⟨h₁, h₂⟩ := List.append_inj h (by rw [length_u32, length_u32])
  exact Prod.ext (hword _ _ h₁) (hword _ _ h₂)

theorem length_flatMap_pairOctets (pairs : List (UInt32 × UInt32)) :
    (pairs.flatMap pairOctets).length = pairs.length * 8 := by
  simp [List.length_flatMap, length_pairOctets, List.map_const']

theorem flatMap_pairOctets_pairOf (entries : List (Band × UInt32)) :
    (entries.map pairOf).flatMap pairOctets = entries.flatMap entryOctets := by
  rw [List.flatMap_map]
  exact congrArg (List.flatMap · entries) (funext pairOctets_pairOf)

theorem eq_of_flatMap_pairOctets_eq {pairs pairs' : List (UInt32 × UInt32)}
    (hl : pairs.length = pairs'.length)
    (h : pairs.flatMap pairOctets = pairs'.flatMap pairOctets) : pairs = pairs' := by
  induction pairs generalizing pairs' with
  | nil => exact (List.length_eq_zero_iff.1 hl.symm).symm
  | cons pair pairs ih =>
    cases pairs' with
    | nil => simp at hl
    | cons pair' pairs' =>
      rw [List.flatMap_cons, List.flatMap_cons] at h
      obtain ⟨h₁, h₂⟩ := List.append_inj h (by rw [length_pairOctets, length_pairOctets])
      rw [pairOctets_injective h₁, ih (by simpa using hl) h₂]

/-- Octets of one length hold one run of pairs at most. -/
theorem eq_of_pairsOctets_eq {pairs pairs' : List (UInt32 × UInt32)}
    (h : pairsOctets pairs = pairsOctets pairs') : pairs = pairs' := by
  obtain ⟨-, hbody⟩ := List.append_inj h (by rw [length_length, length_length])
  have hl := congrArg List.length hbody
  rw [length_flatMap_pairOctets, length_flatMap_pairOctets] at hl
  exact eq_of_flatMap_pairOctets_eq (by omega) hbody

theorem writeChannels_eq_pairsOctets (m : ChannelMap) :
    Field.writeChannels m = pairsOctets (m.entries.map pairOf) := by
  rw [Field.writeChannels, pairsOctets, List.length_map, List.flatMap_map]
  rfl

theorem pairsOctets_pairOf {entries : List (Band × UInt32)}
    (h : entries.length ≤ maxStoredNumber) : pairsOctets (entries.map pairOf) =
      Bytes.ofNat 4 entries.length ++ entries.flatMap entryOctets := by
  rw [pairsOctets, List.length_map, length_eq h, flatMap_pairOctets_pairOf]

/-- Pairs spell a map exactly if they are its entries in some order. -/
theorem spellsChannels_pairsOctets_iff {m : ChannelMap} {pairs : List (UInt32 × UInt32)} :
    SpellsChannels m (pairsOctets pairs) ↔ (m.entries.map pairOf).Perm pairs ∧
      ∀ entry ∈ m.entries, entry.2.toNat ≤ maxStoredNumber := by
  refine ⟨fun h => ?_, fun h => ?_⟩
  · obtain ⟨entries, hl, -, hc, hp, he⟩ := h
    rw [← pairsOctets_pairOf hl] at he
    rw [eq_of_pairsOctets_eq he]
    exact ⟨(hp.map pairOf).symm, fun entry hm => hc entry (hp.mem_iff.2 hm)⟩
  · obtain ⟨hp, hc⟩ := h
    have hall : ∀ pair ∈ pairs, 0 < pair.1.toNat ∧ pair.1.toNat < 16 := by
      intro pair hm
      obtain ⟨entry, -, rfl⟩ := List.mem_map.1 (hp.mem_iff.2 hm)
      rw [toNat_pairOf]
      exact entry.1.bounds
    obtain ⟨entries, rfl⟩ := exists_entries hall
    have hperm := ((List.map_perm_map_iff pairOf_injective).1 hp).symm
    have hl : entries.length ≤ maxStoredNumber := hperm.length_eq ▸ length_entries_le m
    exact ⟨entries, hl, (hperm.map Prod.fst).nodup_iff.2 m.nodup_bands,
      fun entry hm => hc entry (hperm.mem_iff.1 hm), hperm, pairsOctets_pairOf hl⟩

end Wire

open Wire HotspotBackup.Field

namespace Layout

/-! ## The settings around the channels -/

/-- The fields of a layout in front of its channels. -/
def beforeChannels (l : Layout) : List Field :=
  l.fields.takeWhile (· ≠ .channels)

/-- The fields of a layout behind its channels. -/
def behindChannels (l : Layout) : List Field :=
  (l.fields.dropWhile (· ≠ .channels)).tail

/-- The octets around the channels of a backup spell the other settings of a
configuration. -/
structure Surrounds (l : Layout) (c : Configuration) (before behind : Bytes) : Prop where
  before : SpellsAll l l.beforeChannels c.draft before
  behind : SpellsAll l l.behindChannels c.draft behind
  /-- What the layout does not carry is at its default. -/
  absent : ∀ f ∈ l.absentFields, get c.draft f = get {} f

/-- A backup with pairs of words for its channels, and some octets around them. -/
def around (l : Layout) (before : Bytes) (pairs : List (UInt32 × UInt32)) (behind : Bytes) :
    Bytes :=
  Bytes.ofNat 4 l.number ++ (before ++ (pairsOctets pairs ++ behind))

theorem fields_eq {l : Layout} (h : .v8 ≤ l) :
    l.fields = l.beforeChannels ++ .channels :: l.behindChannels := by
  revert h
  cases l <;> decide

theorem nodup_beforeChannels (l : Layout) : l.beforeChannels.Nodup :=
  l.nodup_fields.sublist (List.takeWhile_sublist _)

theorem nodup_behindChannels (l : Layout) : l.behindChannels.Nodup :=
  l.nodup_fields.sublist ((List.tail_sublist _).trans (List.dropWhile_sublist _))

theorem channels_not_mem_behindChannels (l : Layout) : .channels ∉ l.behindChannels := by
  cases l <;> decide

theorem mem_beforeChannels_or_behindChannels {l : Layout} (h : .v8 ≤ l) {f : Field}
    (hf : f ≠ .channels) : f ∈ l.fields ↔ f ∈ l.beforeChannels ∨ f ∈ l.behindChannels := by
  rw [fields_eq h, List.mem_append, List.mem_cons]
  simp only [hf, false_or]

/-- Behind the channels stands a flag. -/
theorem length_behindChannels {l : Layout} (h : .v8 ≤ l) {d : Draft} {e : Bytes}
    (he : SpellsAll l l.behindChannels d e) : e.length = 1 := by
  have hone : l.behindChannels = [.ieee80211axEnabled] := by
    revert h
    cases l <;> decide
  rw [hone, spellsAll_cons List.not_mem_nil] at he
  obtain ⟨e₁, e₂, ⟨octet, rfl, -⟩, h₂, rfl⟩ := he
  rw [spellsAll_nil.1 h₂]
  rfl

section

variable {l : Layout} {c : Configuration} {before behind : Bytes} {pairs : List (UInt32 × UInt32)}

/-- The surroundings fix all settings but the channels. -/
theorem Surrounds.spells_iff (h : l.Surrounds c before behind) (hl : .v8 ≤ l) {d : Draft} :
    l.Spells d (before ++ (pairsOctets pairs ++ behind)) ↔
      (∀ f ∈ l.fields, f ≠ .channels → get d f = get c.draft f) ∧
        SpellsChannels d.channels (pairsOctets pairs) := by
  have hn := fields_eq hl ▸ l.nodup_fields
  rw [Layout.Spells, fields_eq hl, spellsAll_append hn, ← fields_eq hl]
  refine ⟨fun hs => ?_, fun hs => ?_⟩
  · obtain ⟨e₁, e₂, h₁, h₂, heq⟩ := hs
    obtain ⟨e₃, e₄, h₃, h₄, rfl⟩ := (spellsAll_cons l.channels_not_mem_behindChannels).1 h₂
    obtain ⟨hbefore, -, hrest⟩ := spellsAll_unique l.nodup_beforeChannels h₁ h.before heq.symm
    have hlast : e₄.length = behind.length :=
      (length_behindChannels hl h₄).trans (length_behindChannels hl h.behind).symm
    obtain ⟨rfl, rfl⟩ := List.append_inj' hrest hlast
    have hend : e₄ ++ [] = e₄ ++ [] := rfl
    obtain ⟨hbehind, -, -⟩ := spellsAll_unique l.nodup_behindChannels h₄ h.behind hend
    refine ⟨fun f hf hne => ?_, h₃⟩
    exact ((mem_beforeChannels_or_behindChannels hl hne).1 hf).elim (hbefore f) (hbehind f)
  · obtain ⟨hd, hc⟩ := hs
    have hsame : ∀ f, f ∈ l.beforeChannels ∨ f ∈ l.behindChannels → f ≠ .channels →
        get c.draft f = get d f := fun f hf hne =>
      (hd f ((mem_beforeChannels_or_behindChannels hl hne).2 hf) hne).symm
    have hbefore : ∀ f ∈ l.beforeChannels, f ≠ .channels := by
      rintro f hf rfl
      exact (List.disjoint_of_nodup_append hn) hf List.mem_cons_self
    have hbehind : ∀ f ∈ l.behindChannels, f ≠ .channels := by
      rintro f hf rfl
      exact l.channels_not_mem_behindChannels hf
    exact ⟨before, _,
      (spellsAll_congr fun f hf => hsame f (.inl hf) (hbefore f hf)).1 h.before,
      (spellsAll_cons l.channels_not_mem_behindChannels).2 ⟨_, _, hc,
        (spellsAll_congr fun f hf => hsame f (.inr hf) (hbehind f hf)).1 h.behind, rfl⟩, rfl⟩

end

end Layout

namespace Backup

section

variable {l : Layout} {c : Configuration} {before behind : Bytes} {pairs : List (UInt32 × UInt32)}

/-! ## What is restored -/

theorem readFormat_around (l : Layout) (before : Bytes) (pairs : List (UInt32 × UInt32))
    (behind : Bytes) : readFormat (l.around before pairs behind) =
      .ok (.layout l, before ++ (pairsOctets pairs ++ behind)) :=
  readFormat_tag (.layout l) _

/-- A restore finds the settings around the channels, and a map that the pairs
spell. -/
theorem decode_around_eq_ok_iff (h : l.Surrounds c before behind) (hl : .v8 ≤ l)
    {c' : Configuration} {p : Provider} :
    (decode (l.around before pairs behind) p).1 = .ok c' ↔
      (∀ f, f ≠ .channels → get c'.draft f = get c.draft f) ∧
        (c'.draft.channels.entries.map pairOf).Perm pairs := by
  rw [decode_of_layout (readFormat_around ..), decodeLayout_eq_ok_iff, h.spells_iff hl,
    spellsChannels_pairsOctets_iff]
  refine ⟨fun hs => ?_, fun hs => ?_⟩
  · obtain ⟨⟨hd, hp, -⟩, hf⟩ := hs
    refine ⟨fun f hne => ?_, hp⟩
    by_cases hm : f ∈ l.fields
    · exact hd f hm hne
    · have habs := Layout.mem_absentFields.2 hm
      have hauto : f ≠ .autoShutdownEnabled := by
        rintro rfl
        rw [Layout.autoShutdownEnabled_mem_absentFields.1 habs] at hl
        exact absurd hl (by decide)
      rw [hf.default f habs hauto, h.absent f habs]
  · obtain ⟨hd, hp⟩ := hs
    refine ⟨⟨fun f _ => hd f, hp, c'.lawful.channels⟩, fun f habs _ => ?_, fun hv => ?_⟩
    · have hne : f ≠ .channels := by
        rintro rfl
        exact Layout.mem_absentFields.1 habs (Layout.mem_fields.2 hl)
      rw [hd f hne, h.absent f habs]
    · rw [hv] at hl
      exact absurd hl (by decide)

/-- A draft stays lawful with channels that are single and stored. -/
theorem lawful_set_channels {d : Draft} (h : d.Lawful) {m : ChannelMap}
    (hsingle : ∀ band ∈ m.bands, band ∈ [Band.ghz2, .ghz5, .ghz6, .ghz60])
    (hstored : ∀ entry ∈ m.entries, entry.2.toNat ≤ maxStoredNumber) :
    Draft.Lawful (set d .channels m) :=
  ⟨h.ssid, h.needed, h.passphrase, hsingle, h.channel, hstored, h.clients⟩

theorem single_pairOf_iff (entry : Band × UInt32) : (pairOf entry).1 ∈ [1, 2, 4, 8] ↔
    entry.1 ∈ [Band.ghz2, .ghz5, .ghz6, .ghz60] := by
  have hbits : ∀ band : Band, entry.1 = band ↔ (pairOf entry).1 = (pairOf (band, 0)).1 := by
    intro band
    rw [← UInt32.toNat_inj, toNat_pairOf, toNat_pairOf]
    exact ⟨fun h => h ▸ rfl, Band.ext⟩
  simp only [List.mem_cons, List.not_mem_nil, or_false, hbits]
  rfl

/-- The pairs of a restored map assign its channels. -/
theorem assignsChannels_entries (c : Configuration) :
    AssignsChannels (c.draft.channels.entries.map pairOf) where
  single := by
    intro pair hm
    obtain ⟨entry, he, rfl⟩ := List.mem_map.1 hm
    exact (single_pairOf_iff entry).2 (c.lawful.single _ (List.mem_map_of_mem he))
  distinct := nodup_words_iff.2 c.draft.channels.nodup_bands
  stored := by
    intro pair hm
    obtain ⟨entry, he, rfl⟩ := List.mem_map.1 hm
    exact c.lawful.channels entry he

theorem AssignsChannels.of_perm {pairs' : List (UInt32 × UInt32)} (h : AssignsChannels pairs)
    (hp : pairs.Perm pairs') : AssignsChannels pairs' where
  single pair hm := h.single pair (hp.mem_iff.2 hm)
  distinct := (hp.map (·.1)).nodup_iff.1 h.distinct
  stored pair hm := h.stored pair (hp.mem_iff.2 hm)

/-- The map of pairs that assign channels. -/
theorem exists_map_of_assignsChannels (h : AssignsChannels pairs) :
    ∃ m : ChannelMap, (m.entries.map pairOf).Perm pairs ∧
      (∀ band ∈ m.bands, band ∈ [Band.ghz2, .ghz5, .ghz6, .ghz60]) ∧
        ∀ entry ∈ m.entries, entry.2.toNat ≤ maxStoredNumber := by
  have hband : ∀ word : UInt32, word ∈ [1, 2, 4, 8] → 0 < word.toNat ∧ word.toNat < 16 := by
    intro word hw
    simp only [List.mem_cons, List.not_mem_nil, or_false] at hw
    rcases hw with rfl | rfl | rfl | rfl <;> decide
  obtain ⟨entries, rfl⟩ := exists_entries fun pair hm => hband _ (h.single pair hm)
  have hperm := ChannelMap.perm_entries_ofList (nodup_words_iff.1 h.distinct)
  refine ⟨ChannelMap.ofList entries, hperm.map pairOf, fun band hm => ?_, fun entry hm => ?_⟩
  · obtain ⟨entry, he, rfl⟩ := List.mem_map.1 hm
    exact (single_pairOf_iff entry).1
      (h.single _ (List.mem_map_of_mem (hperm.mem_iff.1 he)))
  · exact h.stored _ (List.mem_map_of_mem (hperm.mem_iff.1 hm))

/-- There is a restore exactly if the pairs assign channels. -/
theorem exists_decode_around_iff (h : l.Surrounds c before behind) (hl : .v8 ≤ l) (p : Provider) :
    (∃ c', (decode (l.around before pairs behind) p).1 = .ok c') ↔ AssignsChannels pairs := by
  simp only [decode_around_eq_ok_iff h hl]
  refine ⟨fun ⟨c', _, hp⟩ => AssignsChannels.of_perm (assignsChannels_entries c') hp, fun hp => ?_⟩
  obtain ⟨m, hperm, hsingle, hstored⟩ := exists_map_of_assignsChannels hp
  let c' : Configuration := ⟨set c.draft .channels m,
    Draft.violation?_eq_none_iff.2 (lawful_set_channels c.lawful hsingle hstored)⟩
  exact ⟨c', fun f hne => get_set_ne c.draft (f := .channels) m hne, hperm⟩

/-- What is written of a configuration holds the words of its channels, by
ascending band. -/
theorem encode_eq_around (hl : .v8 ≤ l) (c : Configuration) :
    encode l c = l.around (writeAll l c.draft l.beforeChannels)
      (c.draft.channels.entries.map pairOf) (writeAll l c.draft l.behindChannels) := by
  rw [encode, i32_tag, Layout.fields_eq hl, writeAll_append, writeAll_cons, Layout.around,
    ← writeChannels_eq_pairsOctets]
  rfl

theorem ascending_words (m : ChannelMap) :
    (m.entries.map pairOf).Pairwise fun a b => a.1 < b.1 := by
  rw [List.pairwise_map]
  refine m.ascending.imp fun hab => ?_
  rwa [UInt32.lt_iff_toNat_lt, toNat_pairOf, toNat_pairOf]

/-- A restore from a layout that carries the channels fails for its octets. -/
theorem malformed_of_decode_around (hl : .v8 ≤ l) {p : Provider} {failure : BackupError}
    (h : (decode (l.around before pairs behind) p).1 = .error failure) :
    ∃ cause, failure = .malformed cause := by
  rw [decode_of_format (readFormat_around ..)] at h
  obtain ⟨stage, hf⟩ := ((decidedBy_decodeBody _ _ p).error_iff failure).1 h
  refine (malformed_of_bodyFault hf.here).resolve_right ?_
  rintro ⟨rfl, -⟩
  obtain ⟨hlegacy | hv5, -⟩ := hf.here
  · cases hlegacy
  · cases hv5
    exact absurd hl (by decide)

/-! ## A band that comes twice -/

/-- Where a key comes twice, it does for a first time. By induction on the list
from its end. -/
theorem exists_first_repeated {α β : Type} [DecidableEq β] {key : α → β} {list : List α}
    (h : ¬ (list.map key).Nodup) : ∃ seen again rest, list = seen ++ again :: rest ∧
      (seen.map key).Nodup ∧ key again ∈ seen.map key := by
  induction list using List.reverseRecOn with
  | nil => exact absurd List.nodup_nil h
  | append_singleton front last ih =>
    by_cases hn : (front.map key).Nodup
    · refine ⟨front, last, [], rfl, hn, Classical.byContradiction fun hnew => h ?_⟩
      rw [List.map_append, List.nodup_append']
      exact ⟨hn, List.nodup_singleton _, by simpa using hnew⟩
    · obtain ⟨seen, again, rest, rfl, hs, ha⟩ := ih hn
      exact ⟨seen, again, rest ++ [last], by simp, hs, ha⟩

/-- What reading makes of the next entry. -/
theorem readEntries_succ (field : String) {entry : Band × UInt32}
    (hc : entry.2.toNat ≤ maxStoredNumber) (n : Nat) (m : ChannelMap) (rest : Bytes) :
    readEntries field (n + 1) m (entryOctets entry ++ rest) =
      if entry.1 ∈ m.bands then (.error (.duplicateChannel entry.1), rest)
      else readEntries field n (m.insert entry.1 entry.2) rest := by
  rw [readEntries, entryOctets, List.append_assoc,
    Reader.bind_ok ((recognizes_readBand field).complete _ rfl),
    Reader.bind_ok ((Reader.recognizes_nonNegative field).complete _ ⟨hc, rfl⟩)]
  simp only [ChannelMap.isSome_get?_iff]
  split <;> rfl

/-- Reading of entries on top of a map stops at the first one whose band is not
new. By induction on the entries in front of it. -/
theorem readEntries_of_repeated (field : String) {seen : List (Band × UInt32)}
    {again : Band × UInt32} {m : ChannelMap} (hn : (seen.map (·.1) ++ m.bands).Nodup)
    (hagain : again.1 ∈ seen.map (·.1) ++ m.bands)
    (hc : ∀ entry ∈ seen ++ [again], entry.2.toNat ≤ maxStoredNumber) (more : Nat) (rest : Bytes) :
    readEntries field (seen.length + (more + 1)) m
        (seen.flatMap entryOctets ++ (entryOctets again ++ rest)) =
      (.error (.duplicateChannel again.1), rest) := by
  induction seen generalizing m with
  | nil =>
    have hmem : again.1 ∈ m.bands := by simpa using hagain
    rw [List.flatMap_nil, List.nil_append, List.length_nil, Nat.zero_add,
      readEntries_succ field (hc again (by simp)), if_pos hmem]
  | cons entry seen ih =>
    rw [List.map_cons, List.cons_append] at hn hagain
    have hnew : entry.1 ∉ m.bands := fun hm =>
      (List.nodup_cons.1 hn).1 (List.mem_append_right _ hm)
    have hagain' : again.1 ∈ seen.map (·.1) ++ (m.insert entry.1 entry.2).bands := by
      rw [List.mem_append, (m.bands_insert entry.2 hnew).mem_iff]
      simpa [or_left_comm] using hagain
    rw [List.flatMap_cons, List.append_assoc, List.length_cons, Nat.add_right_comm,
      readEntries_succ field (hc entry (by simp)), if_neg hnew]
    exact ih ((ChannelMap.nodup_append_bands_insert entry.2 hnew).2 hn) hagain'
      fun e he => hc e (List.mem_cons_of_mem _ he)

/-- Reading of the channels stops at the first pair whose band came before. -/
theorem readChannels_of_repeated (field : String) {seen : List (Band × UInt32)}
    {again : Band × UInt32} {rest : List (UInt32 × UInt32)} (hn : (seen.map (·.1)).Nodup)
    (hagain : again.1 ∈ seen.map (·.1))
    (hc : ∀ entry ∈ seen ++ [again], entry.2.toNat ≤ maxStoredNumber)
    (hl : ((seen ++ [again]).map pairOf ++ rest).length ≤ maxStoredNumber) (s : Bytes) :
    readChannels field (pairsOctets ((seen ++ [again]).map pairOf ++ rest) ++ s) =
      (.error (.duplicateChannel again.1), rest.flatMap pairOctets ++ s) := by
  have hsize : ((seen ++ [again]).map pairOf ++ rest).length * 8 < Reader.addressable := by
    have hmax : maxStoredNumber = 2147483647 := rfl
    have hbound : Reader.addressable = 18446744073709551616 := rfl
    omega
  rw [readChannels, pairsOctets, length_eq hl, List.append_assoc]
  have hcount := Reader.count_word field hl hsize
    (((seen ++ [again]).map pairOf ++ rest).flatMap pairOctets ++ s)
  rw [if_neg (by rw [List.length_append, length_flatMap_pairOctets]; omega)] at hcount
  rw [Reader.bind_ok hcount]
  have hbody : ((seen ++ [again]).map pairOf ++ rest).flatMap pairOctets ++ s =
      seen.flatMap entryOctets ++ (entryOctets again ++ (rest.flatMap pairOctets ++ s)) := by
    simp only [List.flatMap_append, flatMap_pairOctets_pairOf, List.flatMap_cons, List.flatMap_nil,
      List.append_assoc, List.append_nil]
  have hlength : ((seen ++ [again]).map pairOf ++ rest).length =
      seen.length + (rest.length + 1) := by
    simp only [List.length_append, List.length_map, List.length_cons, List.length_nil]
    omega
  have hempty : ChannelMap.bands ∅ = [] := rfl
  rw [hbody, hlength]
  exact readEntries_of_repeated field (by rwa [hempty, List.append_nil])
    (List.mem_append_left _ hagain) hc rest.length _

/-- Fields that are spelt are visited without a fault. -/
theorem passes_of_spellsAll {fields : List Field} (hn : fields.Nodup) {d : Draft} {e : Bytes}
    (h : SpellsAll l fields d e) (rest : Bytes) :
    Passes (Field.visits l fields) (e ++ rest) rest :=
  (Format.goesThrough_readAll l fields d).passes
    ((recognizes_readAll l hn d).complete rest ⟨h, fun _ _ => rfl⟩)

theorem decode_around_of_repeated (h : l.Surrounds c before behind) (hl : .v8 ≤ l)
    {seen : List (Band × UInt32)} {again : Band × UInt32} {rest : List (UInt32 × UInt32)}
    (hn : (seen.map (·.1)).Nodup) (hagain : again.1 ∈ seen.map (·.1))
    (hc : ∀ entry ∈ seen ++ [again], entry.2.toNat ≤ maxStoredNumber)
    (hcount : ((seen ++ [again]).map pairOf ++ rest).length ≤ maxStoredNumber) (p : Provider) :
    (decode (l.around before ((seen ++ [again]).map pairOf ++ rest) behind) p).1 =
      .error (.malformed (.duplicateChannel again.1)) := by
  have hread := readChannels_of_repeated channels.name hn hagain hc hcount behind
  have hstop : StopsAt (Format.layout l).visits
      (before ++ (pairsOctets ((seen ++ [again]).map pairOf ++ rest) ++ behind)) channels.name
        (.duplicateChannel again.1) :=
    ⟨Field.visits l l.beforeChannels, (channels.read l).visit channels.name,
      Field.visits l l.behindChannels, _, _,
      by rw [Format.visits, Field.visits, Layout.fields_eq hl, List.map_append]; rfl, rfl,
      passes_of_spellsAll l.nodup_beforeChannels h.before _, Reader.visit_of_error _ hread⟩
  rw [decode_of_format (readFormat_around ..)]
  exact decodeBody_of_stopsAt hstop

/-- Of pairs that are entries up to the first one whose band came before, that
one is reported. -/
theorem exists_decode_around_of_repeated (h : l.Surrounds c before behind) (hl : .v8 ≤ l)
    {front : List (UInt32 × UInt32)} (hfront : front <+: pairs)
    (hentries : ∀ pair ∈ front, IsEntry pair) (hrep : ¬ (front.map (·.1)).Nodup)
    (hcount : pairs.length ≤ maxStoredNumber) (p : Provider) :
    ∃ seen again rest band, pairs = seen ++ again :: rest ∧ (seen.map (·.1)).Nodup ∧
      again.1 ∈ seen.map (·.1) ∧ band.bits = again.1.toNat ∧
      (decode (l.around before pairs behind) p).1 =
        .error (.malformed (.duplicateChannel band)) := by
  obtain ⟨entries, rfl⟩ := exists_entries fun pair hm => (hentries pair hm).band
  obtain ⟨seen, again, others, rfl, hn, hagain⟩ :=
    exists_first_repeated fun hn => hrep (nodup_words_iff.2 hn)
  obtain ⟨tail, rfl⟩ := hfront
  have hsplit : (seen ++ again :: others).map pairOf ++ tail =
      (seen ++ [again]).map pairOf ++ (others.map pairOf ++ tail) := by
    simp only [List.map_append, List.map_cons, List.map_nil, List.append_assoc, List.cons_append,
      List.nil_append]
  have hc : ∀ entry ∈ seen ++ [again], entry.2.toNat ≤ maxStoredNumber := by
    intro entry hm
    have hmem : entry ∈ seen ++ again :: others := by
      simp only [List.mem_append, List.mem_cons, List.not_mem_nil, or_false] at hm ⊢
      exact hm.imp_right .inl
    exact (hentries _ (List.mem_map_of_mem hmem)).channel
  obtain ⟨entry, he, hband⟩ := List.mem_map.1 hagain
  refine ⟨seen.map pairOf, pairOf again, others.map pairOf ++ tail, again.1, ?_,
    nodup_words_iff.2 hn, ?_, (toNat_pairOf again).symm, ?_⟩
  · simp only [List.map_append, List.map_cons, List.append_assoc, List.cons_append]
  · refine List.mem_map.2 ⟨pairOf entry, List.mem_map_of_mem he, ?_⟩
    rw [pairOf, pairOf, hband]
  · rw [hsplit] at hcount ⊢
    exact decode_around_of_repeated h hl hn hagain hc hcount p

end

/-! ## Any pairs -/

/-- Where the octets around the channels spell the other settings of a
configuration, a backup is restored exactly if the pairs of words behind the
count of the channels name single bands, each of them once, with channels that
are not negative, and otherwise it is malformed. Then the channels are those
pairs and the other settings are those around them, whatever the order of the
pairs; what is written again holds the pairs by ascending band. Where a band
comes twice in front of all pairs that are no entries, the restore reports the
first one that did, if a signed word counts the pairs. -/
theorem restores_channel_pairs {l : Layout} (hl : .v8 ≤ l) {c : Configuration}
    {before behind : Bytes} (h : l.Surrounds c before behind) (pairs : List (UInt32 × UInt32))
    (p : Provider) :
    ((∃ c', (decode (l.around before pairs behind) p).1 = .ok c') ↔ AssignsChannels pairs) ∧
      (¬ AssignsChannels pairs →
        ∃ cause, (decode (l.around before pairs behind) p).1 = .error (.malformed cause)) ∧
      (∀ c', (decode (l.around before pairs behind) p).1 = .ok c' →
        (c'.draft.channels.entries.map pairOf).Perm pairs ∧
          (∀ f, f ≠ .channels → get c'.draft f = get c.draft f) ∧
          (∀ pairs', pairs'.Perm pairs → ∀ q,
            (decode (l.around before pairs' behind) q).1 = .ok c') ∧
          ∀ m : Layout, .v8 ≤ m → ∃ ascending, ascending.Perm pairs ∧
            ascending.Pairwise (fun a b => a.1 < b.1) ∧
            encode m c' = m.around (writeAll m c'.draft m.beforeChannels) ascending
              (writeAll m c'.draft m.behindChannels)) ∧
      ∀ front, front <+: pairs → (∀ pair ∈ front, IsEntry pair) → ¬ (front.map (·.1)).Nodup →
        pairs.length ≤ maxStoredNumber → ∃ seen again rest band,
          pairs = seen ++ again :: rest ∧ (seen.map (·.1)).Nodup ∧ again.1 ∈ seen.map (·.1) ∧
            band.bits = again.1.toNat ∧ (decode (l.around before pairs behind) p).1 =
              .error (.malformed (.duplicateChannel band)) := by
  have haccepts : (∃ c', (decode (l.around before pairs behind) p).1 = .ok c') ↔
      AssignsChannels pairs := exists_decode_around_iff h hl p
  refine ⟨haccepts, fun hnot => ?_, fun c' hc' => ?_, fun front hfront hentries hrep hcount =>
    exists_decode_around_of_repeated h hl hfront hentries hrep hcount p⟩
  · cases hd : (decode (l.around before pairs behind) p).1 with
    | ok c' => exact absurd (haccepts.1 ⟨c', hd⟩) hnot
    | error failure =>
      obtain ⟨cause, rfl⟩ := malformed_of_decode_around hl hd
      exact ⟨cause, rfl⟩
  · obtain ⟨hothers, hperm⟩ := (decode_around_eq_ok_iff h hl).1 hc'
    refine ⟨hperm, hothers, fun pairs' hp q => ?_, fun m hm => ?_⟩
    · exact (decode_around_eq_ok_iff h hl).2 ⟨hothers, hperm.trans hp.symm⟩
    · exact ⟨_, hperm, ascending_words _, encode_eq_around hm c'⟩

/-- What the newest layout writes around the channels spells the other settings. -/
theorem surrounds_writeAll {c : Configuration} (hf : c.draft.Fits) :
    Layout.Surrounds .v9 c (writeAll .v9 c.draft (Layout.beforeChannels .v9))
      (writeAll .v9 c.draft (Layout.behindChannels .v9)) := by
  have hkept : ∀ f : Field, get c.draft f = kept .v9 f (get c.draft f) := by
    intro f
    cases f <;> rfl
  exact ⟨spellsAll_writeAll (fun f _ => storable_of_fits c.lawful hf f) fun f _ => hkept f,
    spellsAll_writeAll (fun f _ => storable_of_fits c.lawful hf f) fun f _ => hkept f,
    fun f hm => absurd hm (by cases f <;> decide)⟩

/-- A hidden network. -/
def loft : Configuration where
  draft := { ssid := some "loft", hiddenSsid := true }
  accepted := by decide

/-- A backup of the loft with pairs of words for its channels. -/
def loftAround (pairs : List (UInt32 × UInt32)) : Bytes :=
  Layout.around .v9 (writeAll .v9 loft.draft (Layout.beforeChannels .v9)) pairs
    (writeAll .v9 loft.draft (Layout.behindChannels .v9))

/-- Channels of the loft: those of two bands in descending order are restored, one
of two bands at once is not, and of a band that comes twice the second one is
reported, before the pair of zeros behind it. -/
theorem restores_channel_pairs_loft :
    (Layout.v8 ≤ .v9 ∧ Layout.Surrounds .v9 loft
        (writeAll .v9 loft.draft (Layout.beforeChannels .v9))
        (writeAll .v9 loft.draft (Layout.behindChannels .v9))) ∧
      (∃ c', (decode (loftAround [(4, 36), (1, 6)]) (.ok true)).1 = .ok c' ∧
        (c'.draft.channels.entries.map pairOf).Perm [(4, 36), (1, 6)]) ∧
      (¬ ∃ c', (decode (loftAround [(3, 6)]) (.ok true)).1 = .ok c') ∧
      ∃ band, (decode (loftAround [(1, 6), (3, 1), (1, 11), (0, 0)]) (.ok true)).1 =
        .error (.malformed (.duplicateChannel band)) := by
  have hfits : loft.draft.Fits := ⟨fun _ h => (nomatch h), by decide, by decide⟩
  have hs := surrounds_writeAll hfits
  have htwo : AssignsChannels [(4, 36), (1, 6)] :=
    ⟨List.forall_mem_cons.2 ⟨by decide, List.forall_mem_singleton.2 (by decide)⟩, by decide,
      List.forall_mem_cons.2 ⟨by decide, List.forall_mem_singleton.2 (by decide)⟩⟩
  have hnone : ¬ AssignsChannels [(3, 6)] := fun h =>
    absurd (h.single _ (List.mem_singleton_self _)) (by decide)
  have htwice : ∀ pair ∈ [((1 : UInt32), (6 : UInt32)), (3, 1), (1, 11)], IsEntry pair := by
    simp only [List.forall_mem_cons, List.not_mem_nil, false_implies, implies_true, and_true]
    exact ⟨⟨by decide, by decide⟩, ⟨by decide, by decide⟩, ⟨by decide, by decide⟩⟩
  obtain ⟨c', hc'⟩ := (restores_channel_pairs (by decide) hs _ (.ok true)).1.2 htwo
  obtain ⟨hperm, -⟩ := (restores_channel_pairs (by decide) hs _ (.ok true)).2.2.1 c' hc'
  obtain ⟨_, _, _, band, -, -, -, -, hband⟩ := (restores_channel_pairs (by decide) hs
    [(1, 6), (3, 1), (1, 11), (0, 0)] (.ok true)).2.2.2 _ (List.prefix_append _ [(0, 0)]) htwice
      (by decide) (by decide)
  exact ⟨⟨by decide, hs⟩, ⟨c', hc', hperm⟩,
    fun hd => hnone ((restores_channel_pairs (by decide) hs _ (.ok true)).1.1 hd), band, hband⟩

end Backup

end HotspotBackup
