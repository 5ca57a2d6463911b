import HotspotBackup.Proofs.Channels
import HotspotBackup.Proofs.Primitives

/-!
# The field readers accept the grammar

`Field.recognizes_read`: the reader of each field accepts the encodings that
the grammar gives to its values, and `Field.recognizes_readAll` the same of
a walk over some rows of the table, which changes the fields of those rows
and no others.
-/

namespace HotspotBackup.Field

open Wire Reader

/-! ## Rows -/

theorem recognizes_readBand (field : String) :
    Recognizes (readBand field) fun v e => e = Bytes.ofNat 4 v.bits :=
  ((recognizes_u32 field).ofOption (fun bits => .badBand field bits.toNat)
      (fun bits => Band.ofBits? bits.toNat)).congr fun v e => by
    refine ⟨fun h => ?_, fun h => ?_⟩
    · obtain ⟨bits, rfl, hv⟩ := h
      rw [Band.bits_of_ofBits? hv]
    · obtain rfl := h
      have hv := v.bounds
      have hw : (UInt32.ofNat v.bits).toNat = v.bits := by rw [UInt32.toNat_ofNat']; omega
      exact ⟨UInt32.ofNat v.bits, by rw [hw], by rw [hw]; exact Band.ofBits?_bits v⟩

theorem recognizes_readAddress (field : String) :
    Recognizes (readAddress field) SpellsAddress := by
  have h : Recognizes (readAddress field) fun m e => ∃ text, SpellsText text e ∧
      text.elim (some none) (fun text => (MacAddress.parse? text).map some) = some m :=
    (recognizes_text? field).check _ _
      (fun text m hm => by
        cases text with
        | none => cases hm; rfl
        | some text =>
          obtain ⟨a, ha, rfl⟩ := Option.map_eq_some_iff.1 hm
          simp only [ha]
          rfl)
      (fun text hm => by
        cases text with
        | none => cases hm
        | some text =>
          have ha := Option.map_eq_none_iff.1 hm
          simp only [ha]
          exact ⟨_, rfl⟩)
  refine h.congr fun m e => ?_
  refine ⟨fun h => ?_, fun h => ?_⟩
  · obtain ⟨text, ht, hm⟩ := h
    cases text with
    | none => cases hm; exact ⟨none, ht, .none⟩
    | some text =>
      obtain ⟨a, ha, rfl⟩ := Option.map_eq_some_iff.1 hm
      exact ⟨some text, ht, .some (MacAddress.parse?_eq_some_iff.1 ha)⟩
  · obtain ⟨text, ht, hm⟩ := h
    cases hm with
    | none => exact ⟨none, ht, rfl⟩
    | some ha => exact ⟨_, ht, congrArg (Option.map some) (MacAddress.parse?_eq_some_iff.2 ha)⟩

theorem toNat_code_securityType (v : SecurityType) :
    v.code.toUInt32.toNat = v.code.toInt.toNat := by
  cases v <;> decide

theorem toNat_code_macRandomization (v : MacRandomization) :
    v.code.toUInt32.toNat = v.code.toInt.toNat := by
  cases v <;> decide

theorem recognizes_readSecurityType (field : String) :
    Recognizes (readSecurityType field) fun v e => e = Bytes.ofNat 4 v.code.toInt.toNat :=
  ((recognizes_i32 field).ofOption (fun code => .unknownSecurityType code.toInt)
      SecurityType.ofCode?).congr fun v e => by
    rw [← toNat_code_securityType]
    refine ⟨fun h => ?_, fun h => ?_⟩
    · obtain ⟨code, rfl, hv⟩ := h
      rw [SecurityType.code_of_ofCode? hv]
    · obtain rfl := h
      exact ⟨v.code, rfl, SecurityType.ofCode?_code v⟩

theorem recognizes_readMacRandomization (field : String) :
    Recognizes (readMacRandomization field) fun v e => e = Bytes.ofNat 4 v.code.toInt.toNat :=
  ((recognizes_i32 field).ofOption (fun code => .unknownMacRandomization code.toInt)
      MacRandomization.ofCode?).congr fun v e => by
    rw [← toNat_code_macRandomization]
    refine ⟨fun h => ?_, fun h => ?_⟩
    · obtain ⟨code, rfl, hv⟩ := h
      rw [MacRandomization.code_of_ofCode? hv]
    · obtain rfl := h
      exact ⟨v.code, rfl, MacRandomization.ofCode?_code v⟩

theorem recognizes_readTimeout (l : Layout) (field : String) :
    Recognizes (readTimeout l field) fun v e =>
      if .v7 ≤ l then e = Bytes.ofNat 8 v.toNat
      else v.toNat < 4294967296 ∧ e = Bytes.ofNat 4 v.toNat := by
  unfold readTimeout
  split
  · exact recognizes_u64 field
  · refine ((recognizes_u32 field).map UInt32.toUInt64).congr fun v e => ?_
    refine ⟨fun h => ?_, fun h => ?_⟩
    · obtain ⟨u, rfl, rfl⟩ := h
      exact ⟨by rw [UInt32.toNat_toUInt64]; exact u.toNat_lt, by rw [UInt32.toNat_toUInt64]⟩
    · obtain ⟨hv, rfl⟩ := h
      have hw : v.toUInt32.toNat = v.toNat := by rw [UInt64.toNat_toUInt32]; omega
      refine ⟨v.toUInt32, by rw [hw], ?_⟩
      rw [← UInt64.toNat_inj, UInt32.toNat_toUInt64, hw]

/-! ## Channels -/

/-- Entries that are read on top of a map: none of their bands is in it, and
together with it they are the entries of the result. -/
def SpellsEntries (n : Nat) (m m' : ChannelMap) (e : Bytes) : Prop :=
  ∃ entries : List (Band × UInt32), entries.length = n ∧
    ((entries.map (·.1)) ++ m.bands).Nodup ∧
    (∀ entry ∈ entries, entry.2.toNat ≤ maxStoredNumber) ∧
    (entries ++ m.entries).Perm m'.entries ∧ e = entries.flatMap entryOctets

theorem spellsEntries_zero {m m' : ChannelMap} {e : Bytes} :
    SpellsEntries 0 m m' e ↔ m' = m ∧ e = [] := by
  refine ⟨fun h => ?_, fun h => ?_⟩
  · obtain ⟨entries, hl, -, -, hp, rfl⟩ := h
    rw [List.length_eq_zero_iff] at hl
    subst hl
    exact ⟨(ChannelMap.eq_of_perm hp).symm, rfl⟩
  · obtain ⟨rfl, rfl⟩ := h
    exact ⟨[], rfl, m'.nodup_bands, by simp, .refl _, rfl⟩

theorem spellsEntries_succ {n : Nat} {m m' : ChannelMap} {e : Bytes} :
    SpellsEntries (n + 1) m m' e ↔ ∃ band channel e', band ∉ m.bands ∧
      channel.toNat ≤ maxStoredNumber ∧ SpellsEntries n (m.insert band channel) m' e' ∧
        e = entryOctets (band, channel) ++ e' := by
  refine ⟨fun h => ?_, fun h => ?_⟩
  · obtain ⟨entries, hl, hn, hc, hp, rfl⟩ := h
    cases entries with
    | nil => simp at hl
    | cons entry entries =>
      obtain ⟨band, channel⟩ := entry
      rw [List.map_cons, List.cons_append] at hn
      have hb : band ∉ m.bands := fun hb => (List.nodup_cons.1 hn).1 (List.mem_append_right _ hb)
      refine ⟨band, channel, _, hb, hc _ List.mem_cons_self, ⟨entries, by simpa using hl,
        (ChannelMap.nodup_append_bands_insert channel hb).2 hn,
        fun entry he => hc entry (List.mem_cons_of_mem _ he), ?_, rfl⟩, rfl⟩
      exact (((m.perm_insert channel hb).append_left _).trans List.perm_middle).trans hp
  · obtain ⟨band, channel, e', hb, hch, ⟨entries, hl, hn, hc, hp, rfl⟩, rfl⟩ := h
    refine ⟨(band, channel) :: entries, by rw [List.length_cons, hl],
      (ChannelMap.nodup_append_bands_insert channel hb).1 hn, ?_, ?_, rfl⟩
    · intro entry he
      rcases List.mem_cons.1 he with rfl | he
      · exact hch
      · exact hc entry he
    · exact (((m.perm_insert channel hb).append_left _).trans List.perm_middle).symm.trans hp

/-- By induction on the number of entries, on top of any map. -/
theorem recognizes_readEntries (field : String) (n : Nat) (m : ChannelMap) :
    Recognizes (readEntries field n m) (SpellsEntries n m) := by
  induction n generalizing m with
  | zero => exact (Recognizes.pure m).congr fun m' e => spellsEntries_zero.symm
  | succ n ih =>
    refine ((recognizes_readBand field).bind fun band => (recognizes_nonNegative field).bind
      fun channel => (ih (m.insert band channel)).guarded (.duplicateChannel band)).congr
        fun m' e => ?_
    rw [spellsEntries_succ]
    refine ⟨fun h => ?_, fun h => ?_⟩
    · obtain ⟨band, -, -, rfl, ⟨channel, -, e', ⟨hc, rfl⟩, ⟨hb, he⟩, rfl⟩, rfl⟩ := h
      rw [ChannelMap.isSome_get?_iff] at hb
      exact ⟨band, channel, e', hb, hc, he, (List.append_assoc ..).symm⟩
    · obtain ⟨band, channel, e', hb, hc, he, rfl⟩ := h
      rw [← ChannelMap.isSome_get?_iff] at hb
      exact ⟨band, _, _, rfl, ⟨channel, _, e', ⟨hc, rfl⟩, ⟨hb, he⟩, rfl⟩, List.append_assoc ..⟩

theorem length_flatMap_entryOctets (entries : List (Band × UInt32)) :
    (entries.flatMap entryOctets).length = entries.length * 8 := by
  simp [List.length_flatMap, entryOctets, List.map_const']

theorem recognizes_readChannels (field : String) :
    Recognizes (readChannels field) SpellsChannels := by
  refine (Recognizes.counted field (by decide) (fun n => recognizes_readEntries field n ∅)
    fun n m e h => ?_).congr fun m e => ?_
  · obtain ⟨entries, rfl, -, -, -, rfl⟩ := h
    exact length_flatMap_entryOctets entries
  · have hb : ChannelMap.bands ∅ = [] := rfl
    have he : ChannelMap.entries ∅ = [] := rfl
    simp only [SpellsEntries, SpellsChannels, hb, he, List.append_nil]
    refine ⟨fun h => ?_, fun h => ?_⟩
    · obtain ⟨n, e', hn, ⟨entries, rfl, hnd, hc, hp, rfl⟩, rfl⟩ := h
      exact ⟨entries, hn, hnd, hc, hp, rfl⟩
    · obtain ⟨entries, hn, hnd, hc, hp, rfl⟩ := h
      exact ⟨_, _, hn, ⟨entries, rfl, hnd, hc, hp, rfl⟩, rfl⟩

/-! ## The table -/

/-- The reader of a field accepts the encodings of its values. -/
theorem recognizes_read (l : Layout) (f : Field) : Recognizes (f.read l) (f.Spells l) := by
  cases f with
  | ssid | passphrase => exact recognizes_text? _
  | bssid => exact recognizes_readAddress _
  | band => exact recognizes_readBand _
  | channel | maxNumberOfClients => exact recognizes_nonNegative _
  | securityType => exact recognizes_readSecurityType _
  | shutdownTimeoutMillis => exact recognizes_readTimeout l _
  | blockedClientList | allowedClientList => exact recognizes_addresses _
  | macRandomizationSetting => exact recognizes_readMacRandomization _
  | channels => exact recognizes_readChannels _
  | hiddenSsid | clientControlByUserEnabled | autoShutdownEnabled
  | bridgedModeOpportunisticShutdownEnabled | ieee80211axEnabled => exact recognizes_flag _

theorem spellsAll_nil {l : Layout} {d : Draft} {e : Bytes} : SpellsAll l [] d e ↔ e = [] :=
  ⟨fun ⟨_, _, h⟩ => h, fun h => ⟨fun _ => [], by simp, h⟩⟩

theorem spellsAll_cons {l : Layout} {f : Field} {fields : List Field} {d : Draft} {e : Bytes}
    (hf : f ∉ fields) : SpellsAll l (f :: fields) d e ↔
      ∃ e₁ e₂, f.Spells l (get d f) e₁ ∧ SpellsAll l fields d e₂ ∧ e = e₁ ++ e₂ := by
  refine ⟨fun h => ?_, fun h => ?_⟩
  · obtain ⟨part, hp, rfl⟩ := h
    exact ⟨part f, _, hp f List.mem_cons_self,
      ⟨part, fun g hg => hp g (List.mem_cons_of_mem _ hg), rfl⟩, List.flatMap_cons⟩
  · obtain ⟨e₁, e₂, h₁, ⟨part, hp, rfl⟩, rfl⟩ := h
    have hne : ∀ g ∈ fields, g ≠ f := fun g hg h => hf (h ▸ hg)
    refine ⟨fun g => if g = f then e₁ else part g, fun g hg => ?_, ?_⟩
    · rcases List.mem_cons.1 hg with rfl | hg
      · simp only [↓reduceIte]; exact h₁
      · simp only [hne g hg, ↓reduceIte]; exact hp g hg
    · rw [List.flatMap_cons, if_pos rfl]
      congr 1
      simp only [List.flatMap_def]
      exact congrArg _ (List.map_congr_left fun g hg => (if_neg (hne g hg)).symm)

/-- Some fields and some more are spelt one after the other. By induction on the
first. -/
theorem spellsAll_append {l : Layout} {fields more : List Field} {d : Draft} {e : Bytes}
    (hn : (fields ++ more).Nodup) : SpellsAll l (fields ++ more) d e ↔
      ∃ e₁ e₂, SpellsAll l fields d e₁ ∧ SpellsAll l more d e₂ ∧ e = e₁ ++ e₂ := by
  induction fields generalizing e with
  | nil =>
    refine ⟨fun h => ⟨[], e, spellsAll_nil.2 rfl, h, rfl⟩, fun h => ?_⟩
    obtain ⟨e₁, e₂, h₁, h₂, rfl⟩ := h
    rwa [spellsAll_nil.1 h₁]
  | cons f fields ih =>
    rw [List.cons_append] at hn ⊢
    obtain ⟨hf, hn⟩ := List.nodup_cons.1 hn
    rw [spellsAll_cons hf]
    refine ⟨fun h => ?_, fun h => ?_⟩
    · obtain ⟨e₀, e', h₀, h', rfl⟩ := h
      obtain ⟨e₁, e₂, h₁, h₂, rfl⟩ := (ih hn).1 h'
      exact ⟨e₀ ++ e₁, e₂, (spellsAll_cons fun hm => hf (List.mem_append_left _ hm)).2
        ⟨e₀, e₁, h₀, h₁, rfl⟩, h₂, (List.append_assoc ..).symm⟩
    · obtain ⟨e₁, e₂, h₁, h₂, rfl⟩ := h
      obtain ⟨e₀, e', h₀, h', rfl⟩ := (spellsAll_cons fun hm => hf (List.mem_append_left _ hm)).1 h₁
      exact ⟨e₀, e' ++ e₂, h₀, (ih hn).2 ⟨e', e₂, h', h₂, rfl⟩, List.append_assoc ..⟩

/-- Octets begin with one encoding of some fields at most. By induction on the
fields. -/
theorem spellsAll_unique {l : Layout} {fields : List Field} (hn : fields.Nodup) {d d' : Draft}
    {e e' s s' : Bytes} (h : SpellsAll l fields d e) (h' : SpellsAll l fields d' e')
    (heq : e ++ s = e' ++ s') : (∀ f ∈ fields, get d f = get d' f) ∧ e = e' ∧ s = s' := by
  induction fields generalizing e e' with
  | nil =>
    rw [spellsAll_nil.1 h, spellsAll_nil.1 h', List.nil_append, List.nil_append] at heq
    exact ⟨nofun, (spellsAll_nil.1 h).trans (spellsAll_nil.1 h').symm, heq⟩
  | cons f fields ih =>
    obtain ⟨hf, hn⟩ := List.nodup_cons.1 hn
    obtain ⟨e₁, e₂, h₁, h₂, rfl⟩ := (spellsAll_cons hf).1 h
    obtain ⟨e₁', e₂', h₁', h₂', rfl⟩ := (spellsAll_cons hf).1 h'
    rw [List.append_assoc, List.append_assoc] at heq
    obtain ⟨hfirst, rfl, hrest⟩ := (recognizes_read l f).unique h₁ h₁' heq
    obtain ⟨hothers, rfl, hs⟩ := ih hn h₂ h₂' hrest
    exact ⟨List.forall_mem_cons.2 ⟨hfirst, hothers⟩, rfl, hs⟩

/-- A walk over rows of the table reads the fields of those rows, and keeps
the others. -/
theorem recognizes_readAll (l : Layout) {fields : List Field} (hn : fields.Nodup) (d₀ : Draft) :
    Recognizes (readAll l fields d₀) fun d e =>
      SpellsAll l fields d e ∧ ∀ f ∉ fields, get d f = get d₀ f := by
  induction fields generalizing d₀ with
  | nil =>
    refine (Recognizes.pure d₀).congr fun d e => ?_
    rw [spellsAll_nil]
    refine ⟨fun h => ?_, fun h => ?_⟩
    · obtain ⟨rfl, rfl⟩ := h
      exact ⟨rfl, fun _ _ => rfl⟩
    · exact ⟨ext_get fun f => h.2 f List.not_mem_nil, h.1⟩
  | cons f fields ih =>
    obtain ⟨hf, hn⟩ := List.nodup_cons.1 hn
    refine ((recognizes_read l f).bind fun v => ih hn (set d₀ f v)).congr fun d e => ?_
    rw [spellsAll_cons hf]
    refine ⟨fun h => ?_, fun h => ?_⟩
    · obtain ⟨v, e₁, e₂, h₁, ⟨h₂, hd⟩, rfl⟩ := h
      have hv : get d f = v := by rw [hd f hf, get_set]
      refine ⟨⟨e₁, e₂, hv ▸ h₁, h₂, rfl⟩, fun g hg => ?_⟩
      rw [List.mem_cons, not_or] at hg
      rw [hd g hg.2, get_set_ne d₀ v hg.1]
    · obtain ⟨⟨e₁, e₂, h₁, h₂, rfl⟩, hd⟩ := h
      refine ⟨get d f, e₁, e₂, h₁, ⟨h₂, fun g hg => ?_⟩, rfl⟩
      by_cases hgf : g = f
      · rw [hgf, get_set]
      · rw [get_set_ne d₀ _ hgf, hd g (by simp [hgf, hg])]

end HotspotBackup.Field
