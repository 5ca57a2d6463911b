import HotspotBackup.Proofs.FieldWriting

/-!
# The canonical encoding of a field

Of the encodings of a value one is canonical, and it is found from any other
without reading the value: `Field.canonical` makes a flag zero or one, writes
an address in lower-case pairs with colons, sorts the entries of a channel map
by their bands, and leaves all else as it is. `Field.extent` finds the octets
that belong to a field, from the lengths and counts among them.

* `extent_of_spells`: the octets found are those of the encoding.
* `write_of_spells`: what is written for a value is the canonical form of
  every encoding of it.
-/

namespace HotspotBackup

namespace Wire

/-! ## Extents -/

/-- The octets of a count and of as many elements of `size` octets. -/
def countedExtent (size : Nat) (b : Bytes) : Nat :=
  4 + Bytes.toNat (b.take 4) * size

/-- The octets of a text or of the mark of an absent one. -/
def textExtent (b : Bytes) : Nat :=
  if b.take 4 = [0xFF, 0xFF, 0xFF, 0xFF] then 4 else countedExtent 1 b

theorem take_word (n : Nat) (s : Bytes) : (Bytes.ofNat 4 n ++ s).take 4 = Bytes.ofNat 4 n :=
  List.take_left' (Bytes.length_ofNat 4 n)

theorem drop_word (n : Nat) (s : Bytes) : (Bytes.ofNat 4 n ++ s).drop 4 = s :=
  List.drop_left' (Bytes.length_ofNat 4 n)

theorem toNat_word {n : Nat} (h : n ≤ maxStoredNumber) : Bytes.toNat (Bytes.ofNat 4 n) = n := by
  have hn : n ≤ 2147483647 := h
  exact Bytes.toNat_ofNat_of_lt (by omega)

theorem countedExtent_eq {n size : Nat} (hn : n ≤ maxStoredNumber) {body : Bytes}
    (hb : body.length = n * size) (rest : Bytes) :
    countedExtent size (Bytes.ofNat 4 n ++ body ++ rest) = (Bytes.ofNat 4 n ++ body).length := by
  rw [countedExtent, List.append_assoc, take_word, toNat_word hn, List.length_append,
    Bytes.length_ofNat, hb]

theorem textExtent_eq {s : Option String} {e : Bytes} (h : SpellsText s e) (rest : Bytes) :
    textExtent (e ++ rest) = e.length := by
  cases s with
  | none =>
    have he : e = [0xFF, 0xFF, 0xFF, 0xFF] := h
    subst he
    rfl
  | some t =>
    obtain ⟨n, raw, hn, hl, -, rfl⟩ := h
    have hne := absent_eq ▸ Reader.ofNat_ne_absent hn
    rw [textExtent, List.append_assoc, take_word, if_neg hne, ← List.append_assoc]
    exact countedExtent_eq hn (by omega) rest

/-! ## Canonical forms -/

/-- A flag as zero or one. -/
def canonicalFlag (e : Bytes) : Bytes :=
  e.map fun octet => if octet = 0 then 0 else 1

/-- An address, if there is one, in its 17 octets. -/
def canonicalAddress (e : Bytes) : Bytes :=
  if e = [0xFF, 0xFF, 0xFF, 0xFF] then e
  else Bytes.ofNat 4 17 ++ MacAddress.canonicalOctets (e.drop 4)

/-- The first `n` runs of eight octets. -/
def chunks : Nat → Bytes → List Bytes
  | 0, _ => []
  | n + 1, b => b.take 8 :: chunks n (b.drop 8)

/-- The band with which an entry of a channel map begins. -/
def entryBand (entry : Bytes) : Nat :=
  Bytes.toNat (entry.take 4)

/-- Entries by ascending band. -/
def sortEntries (entries : List Bytes) : List Bytes :=
  entries.mergeSort fun a b => entryBand a ≤ entryBand b

/-- The entries of a channel map by ascending band, after their count. -/
def canonicalChannels (e : Bytes) : Bytes :=
  e.take 4 ++ (sortEntries (chunks (Bytes.toNat (e.take 4)) (e.drop 4))).flatten

theorem flag_of_spells {b : Bool} {e : Bytes} (h : SpellsFlag b e) : flag b = canonicalFlag e := by
  obtain ⟨octet, rfl, rfl⟩ := h
  by_cases ho : octet = 0
  · simp [flag, canonicalFlag, ho]
  · simp [flag, canonicalFlag, ho]

theorem text?_of_spells {s : Option String} {e : Bytes} (h : SpellsText s e) : text? s = e := by
  cases s with
  | none =>
    rw [show e = [0xFF, 0xFF, 0xFF, 0xFF] from h]
    exact absent_eq
  | some t =>
    obtain ⟨n, raw, hn, hl, rfl, rfl⟩ := h
    rw [text?, Utf8.size, hl, length_eq hn]

theorem address_of_spells {m : Option MacAddress} {e : Bytes} (h : SpellsAddress m e) :
    text? (m.map (·.text)) = canonicalAddress e := by
  obtain ⟨text, ht, hm⟩ := h
  cases hm with
  | none =>
    have he : e = [0xFF, 0xFF, 0xFF, 0xFF] := ht
    subst he
    exact absent_eq
  | @some a t ha =>
    obtain ⟨n, raw, hn, -, rfl, rfl⟩ := ht
    have hne : Bytes.ofNat 4 n ++ Utf8.encode t ≠ [0xFF, 0xFF, 0xFF, 0xFF] := by
      intro he
      have hw := take_word n (Utf8.encode t)
      rw [he] at hw
      exact Reader.ofNat_ne_absent hn (hw.symm.trans absent_eq.symm)
    rw [canonicalAddress, if_neg hne, drop_word, MacAddress.canonicalOctets_encode ha,
      ← length_eq (by decide), ← MacAddress.length_encode_text a]
    rfl

/-! ## Channels -/

theorem length_entryOctets (entry : Band × UInt32) : (entryOctets entry).length = 8 := by
  simp [entryOctets]

theorem chunks_flatMap (entries : List (Band × UInt32)) :
    chunks entries.length (entries.flatMap entryOctets) = entries.map entryOctets := by
  induction entries with
  | nil => rfl
  | cons entry entries ih =>
    have hl := length_entryOctets entry
    rw [List.flatMap_cons, List.length_cons, chunks, List.take_left' hl, List.drop_left' hl, ih]
    rfl

theorem entryBand_entryOctets (entry : Band × UInt32) :
    entryBand (entryOctets entry) = entry.1.bits := by
  have hb := entry.1.bounds.2
  rw [entryBand, entryOctets, take_word, Bytes.toNat_ofNat_of_lt (by omega)]

theorem pairwise_sortEntries (entries : List Bytes) :
    (sortEntries entries).Pairwise fun a b => entryBand a ≤ entryBand b := by
  have h : (sortEntries entries).Pairwise fun a b => decide (entryBand a ≤ entryBand b) := by
    refine List.pairwise_mergeSort (fun a b c hab hbc => ?_) (fun a b => ?_) entries
    · simp only [decide_eq_true_eq] at *
      omega
    · simp only [Bool.or_eq_true, decide_eq_true_eq]
      omega
  exact h.imp of_decide_eq_true

/-- The entries of a map are found by sorting them from any order: no two are
of one band. -/
theorem sortEntries_of_perm {m : ChannelMap} {entries : List (Band × UInt32)}
    (h : entries.Perm m.entries) :
    sortEntries (entries.map entryOctets) = m.entries.map entryOctets := by
  have hperm : (sortEntries (entries.map entryOctets)).Perm (m.entries.map entryOctets) :=
    (List.mergeSort_perm ..).trans (h.map entryOctets)
  have hsorted : (m.entries.map entryOctets).Pairwise fun a b => entryBand a ≤ entryBand b := by
    rw [List.pairwise_map]
    refine m.ascending.imp fun hab => ?_
    rw [entryBand_entryOctets, entryBand_entryOctets]
    exact Nat.le_of_lt hab
  refine hperm.eq_of_pairwise (fun a b ha hb hab hba => ?_) (pairwise_sortEntries _) hsorted
  obtain ⟨x, hx, rfl⟩ := List.mem_map.1 (hperm.mem_iff.1 ha)
  obtain ⟨y, hy, rfl⟩ := List.mem_map.1 hb
  rw [entryBand_entryOctets, entryBand_entryOctets] at hab hba
  exact congrArg entryOctets (m.eq_of_band hx hy (Band.ext (Nat.le_antisymm hab hba)))

theorem channels_of_spells {m : ChannelMap} {e : Bytes} (h : SpellsChannels m e) :
    Field.writeChannels m = canonicalChannels e := by
  obtain ⟨entries, hn, -, -, hp, rfl⟩ := h
  rw [canonicalChannels, take_word, drop_word, toNat_word hn, chunks_flatMap,
    sortEntries_of_perm hp, writeChannels_eq, hp.length_eq, List.flatMap_def]

end Wire

open Wire

namespace Field

/-! ## The table -/

/-- The number of octets at the front that belong to a field in a layout. -/
def extent (l : Layout) (f : Field) (b : Bytes) : Nat :=
  match f with
  | ssid | bssid | passphrase => textExtent b
  | band | channel | securityType | maxNumberOfClients | macRandomizationSetting => 4
  | shutdownTimeoutMillis => if .v7 ≤ l then 8 else 4
  | blockedClientList | allowedClientList => countedExtent 6 b
  | channels => countedExtent 8 b
  | hiddenSsid | clientControlByUserEnabled | autoShutdownEnabled
  | bridgedModeOpportunisticShutdownEnabled | ieee80211axEnabled => 1

/-- The canonical form of the octets of a field: only flags, the address and
the channels have another. -/
def canonical (f : Field) (e : Bytes) : Bytes :=
  match f with
  | hiddenSsid | clientControlByUserEnabled | autoShutdownEnabled
  | bridgedModeOpportunisticShutdownEnabled | ieee80211axEnabled => canonicalFlag e
  | bssid => canonicalAddress e
  | channels => canonicalChannels e
  | ssid | band | channel | passphrase | securityType | maxNumberOfClients
  | shutdownTimeoutMillis | blockedClientList | allowedClientList
  | macRandomizationSetting => e

/-- The octets that belong to a field are those of its encoding. -/
theorem extent_of_spells {l : Layout} {f : Field} {v : f.Value} {e : Bytes} (h : f.Spells l v e)
    (rest : Bytes) : f.extent l (e ++ rest) = e.length := by
  cases f with
  | ssid | passphrase => exact textExtent_eq h rest
  | bssid =>
    obtain ⟨text, ht, -⟩ := h
    exact textExtent_eq ht rest
  | band | securityType | macRandomizationSetting =>
    rw [show e = Bytes.ofNat 4 _ from h, Bytes.length_ofNat]
    rfl
  | channel | maxNumberOfClients =>
    rw [h.2, Bytes.length_ofNat]
    rfl
  | shutdownTimeoutMillis =>
    simp only [Spells] at h
    simp only [extent]
    by_cases hl : .v7 ≤ l
    · simp only [hl, ↓reduceIte] at h ⊢
      rw [h, Bytes.length_ofNat]
    · simp only [hl, ↓reduceIte] at h ⊢
      rw [h.2, Bytes.length_ofNat]
  | blockedClientList | allowedClientList =>
    obtain ⟨hn, rfl⟩ := h
    exact countedExtent_eq hn (Reader.length_flatMap_octets _) rest
  | channels =>
    obtain ⟨entries, hn, -, -, -, rfl⟩ := h
    exact countedExtent_eq hn (length_flatMap_entryOctets _) rest
  | hiddenSsid | clientControlByUserEnabled | autoShutdownEnabled
  | bridgedModeOpportunisticShutdownEnabled | ieee80211axEnabled =>
    obtain ⟨octet, rfl, -⟩ := h
    rfl

/-- What is written for a value is the canonical form of each of its
encodings. -/
theorem write_of_spells {l : Layout} {f : Field} {v : f.Value} {e : Bytes} (h : f.Spells l v e) :
    f.write l v = f.canonical e := by
  have hw : f.Spells l v (f.write l v) :=
    (congrArg (f.Spells l · (f.write l v)) (kept_of_spells h)).mp
      (spells_write l (storable_of_spells h))
  cases f with
  | ssid | passphrase => exact text?_of_spells h
  | bssid => exact address_of_spells h
  | channels => exact channels_of_spells h
  | hiddenSsid | clientControlByUserEnabled | autoShutdownEnabled
  | bridgedModeOpportunisticShutdownEnabled | ieee80211axEnabled => exact flag_of_spells h
  | band | securityType | macRandomizationSetting => exact Eq.trans hw (Eq.symm h)
  | channel | maxNumberOfClients | blockedClientList | allowedClientList =>
    exact hw.2.trans h.2.symm
  | shutdownTimeoutMillis =>
    simp only [Spells] at h hw
    by_cases hl : .v7 ≤ l
    · simp only [hl, ↓reduceIte] at h hw
      exact hw.trans h.symm
    · simp only [hl, ↓reduceIte] at h hw
      exact hw.2.trans h.2.symm

end Field

end HotspotBackup
