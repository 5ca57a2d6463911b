import HotspotBackup.Draft

/-!
# The rules of a configuration

`Draft.Lawful` says what the settings of a hotspot have to obey, one rule to
a field and in no order of checks.

* `violation?_eq_none_iff`: a draft breaks no rule exactly if it is lawful.
* `build_eq_ok_iff`: the configuration of a draft holds that draft as it is.
-/

namespace HotspotBackup

namespace Band

theorem isSingle_iff {b : Band} : b.isSingle = true ↔ b ∈ [ghz2, ghz5, ghz6, ghz60] := by
  have hext : ∀ c : Band, b = c ↔ b.bits = c.bits := fun c => ⟨fun h => h ▸ rfl, ext⟩
  simp only [isSingle, Bool.or_eq_true, decide_eq_true_eq, List.mem_cons, List.not_mem_nil,
    or_false, hext, ghz2, ghz5, ghz6, ghz60, or_assoc]

end Band

namespace Draft

/-- A passphrase that clients of a security type accept. -/
structure AcceptsPassphrase (security : SecurityType) (phrase : String) : Prop where
  used : security.usesPassphrase = true
  nonempty : 0 < Utf8.size phrase
  bounded : security.boundsPassphrase = true →
    minWpa2PassphraseSize ≤ Utf8.size phrase ∧ Utf8.size phrase ≤ maxWpa2PassphraseSize

/-- Settings of a hotspot that obey every rule. -/
structure Lawful (d : Draft) : Prop where
  ssid : ∀ name, d.ssid = some name → Utf8.size name ≤ maxSsidSize
  /-- A passphrase that is used is there. -/
  needed : d.securityType.usesPassphrase = true → d.passphrase ≠ none
  passphrase : ∀ phrase, d.passphrase = some phrase → AcceptsPassphrase d.securityType phrase
  /-- A channel is assigned to one band at a time. -/
  single : ∀ band ∈ d.channels.bands, band ∈ [Band.ghz2, .ghz5, .ghz6, .ghz60]
  channel : d.channel.toNat ≤ maxStoredNumber
  channels : ∀ entry ∈ d.channels.entries, entry.2.toNat ≤ maxStoredNumber
  clients : d.maxNumberOfClients.toNat ≤ maxStoredNumber

/-! ## One check after another -/

theorem ssidViolation?_eq_none_iff {d : Draft} :
    d.ssidViolation? = none ↔ ∀ name, d.ssid = some name → Utf8.size name ≤ maxSsidSize := by
  unfold ssidViolation?
  cases d.ssid with
  | none => simp
  | some name => simp

theorem passphraseViolation?_eq_none_iff {d : Draft} :
    d.passphraseViolation? = none ↔
      (d.securityType.usesPassphrase = true → d.passphrase ≠ none) ∧
        ∀ phrase, d.passphrase = some phrase → AcceptsPassphrase d.securityType phrase := by
  unfold passphraseViolation?
  cases d.passphrase with
  | none => cases d.securityType.usesPassphrase <;> simp
  | some phrase =>
    simp only [ne_eq, reduceCtorEq, not_false_eq_true, implies_true, true_and, Option.some.injEq,
      forall_eq']
    cases hu : d.securityType.usesPassphrase with
    | false =>
      refine ⟨fun h => (nomatch h), fun h => ?_⟩
      have := h.used
      simp [hu] at this
    | true =>
      by_cases hempty : Utf8.size phrase = 0
      · have hno : ¬ AcceptsPassphrase d.securityType phrase := fun h =>
          absurd hempty (Nat.ne_of_gt h.nonempty)
        simp [hempty, hno]
      · simp only [hempty, ↓reduceIte, ite_eq_right_iff, reduceCtorEq, imp_false,
          Decidable.not_and_not_right]
        exact ⟨fun h => ⟨hu, Nat.pos_of_ne_zero hempty, h⟩, fun h => h.bounded⟩

theorem bandViolation?_eq_none_iff {d : Draft} :
    d.bandViolation? = none ↔
      ∀ band ∈ d.channels.bands, band ∈ [Band.ghz2, .ghz5, .ghz6, .ghz60] := by
  rw [bandViolation?, Option.map_eq_none_iff, List.find?_eq_none]
  simp only [← Band.isSingle_iff, Bool.not_eq_true, Bool.not_eq_false']

theorem channelViolation?_eq_none_iff {d : Draft} :
    d.channelViolation? = none ↔ d.channel.toNat ≤ maxStoredNumber ∧
      ∀ entry ∈ d.channels.entries, entry.2.toNat ≤ maxStoredNumber := by
  simp only [channelViolation?, isStorable, ite_eq_left_iff, reduceCtorEq, imp_false,
    Bool.and_eq_true, decide_eq_true_eq, List.all_eq_true, Classical.not_not]

theorem clientsViolation?_eq_none_iff {d : Draft} :
    d.clientsViolation? = none ↔ d.maxNumberOfClients.toNat ≤ maxStoredNumber := by
  simp [clientsViolation?, isStorable]

/-! ## All checks -/

/-- A draft breaks no rule exactly if it is lawful. -/
theorem violation?_eq_none_iff {d : Draft} : d.violation? = none ↔ d.Lawful := by
  simp only [violation?, Option.orElse_eq_orElse, Option.orElse_eq_or, Option.or_eq_none_iff,
    ssidViolation?_eq_none_iff, passphraseViolation?_eq_none_iff, bandViolation?_eq_none_iff,
    channelViolation?_eq_none_iff, clientsViolation?_eq_none_iff]
  refine ⟨fun h => ?_, fun h => ?_⟩
  · obtain ⟨hs, ⟨hn, hp⟩, hb, ⟨hc, he⟩, hm⟩ := h
    exact ⟨hs, hn, hp, hb, hc, he, hm⟩
  · exact ⟨h.ssid, ⟨h.needed, h.passphrase⟩, h.single, ⟨h.channel, h.channels⟩, h.clients⟩

/-- The configuration of a draft holds that draft as it is. -/
theorem build_eq_ok_iff {d : Draft} {c : Configuration} : d.build = .ok c ↔ c.draft = d := by
  unfold build
  split
  · rename_i h
    refine ⟨fun hc => ?_, fun hc => ?_⟩
    · cases hc
      rfl
    · subst hc
      rfl
  · rename_i v h
    refine ⟨fun hc => (nomatch hc), fun hc => ?_⟩
    rw [← hc, c.accepted] at h
    cases h

/-- A draft that is no configuration is reported with the rule it breaks. -/
theorem build_eq_error_iff {d : Draft} {v : Violation} :
    d.build = .error v ↔ d.violation? = some v := by
  unfold build
  refine ⟨fun h => ?_, fun h => ?_⟩
  · split at h
    · cases h
    · rename_i hw
      cases h
      exact hw
  · split
    · rename_i hn
      rw [h] at hn
      cases hn
    · rename_i hw
      rw [h] at hw
      cases hw
      rfl

end Draft

theorem Configuration.lawful (c : Configuration) : c.draft.Lawful :=
  Draft.violation?_eq_none_iff.1 c.accepted

end HotspotBackup
