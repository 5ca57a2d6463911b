import HotspotBackup.Proofs.Channels
import HotspotBackup.Proofs.Rules
import HotspotBackup.Session
import Mathlib.Logic.ExistsUnique

/-!
# Which broken rule is reported

The rules of a configuration one by one (`Rule`), in the order in which they
are checked: what each asks of a draft in numbers (`Rule.Holds`), and what is
reported where a draft breaks it (`Rule.Reports`).

* `Rule.check_eq_none_iff` and `Rule.reports_of_check`: this of the check of one
  rule, whatever becomes of the others.
* `Draft.violation?_eq_findSome?`: the checks are made in the order of the rules,
  until one of them fails.
* `Draft.build_reports_first_broken`: so a draft that keeps every rule is a
  configuration as it is, and of any other the first broken rule is reported.
-/

namespace HotspotBackup

namespace Band

/-- A band is single if exactly one bit of its mask is set. -/
theorem isSingle_iff_existsUnique {b : Band} :
    b.isSingle = true ↔ ∃! i, b.bits.testBit i = true := by
  have hlow : ∀ i, b.bits.testBit i = true → i < 4 := by
    intro i hi
    refine Nat.lt_of_not_le fun hge => ?_
    have hsmall : b.bits < 2 ^ i :=
      Nat.lt_of_lt_of_le b.bounds.2 (Nat.pow_le_pow_right (n := 2) (by decide) hge)
    rw [Nat.testBit_lt_two_pow hsmall] at hi
    cases hi
  -- so the question is one about sixteen masks and four bits
  have hmasks : ∀ n : Fin 16, (n.val = 1 || n.val = 2 || n.val = 4 || n.val = 8) = true ↔
      ∃ i : Fin 4, n.val.testBit i = true ∧ ∀ j : Fin 4, n.val.testBit j = true → j = i := by
    decide
  rw [isSingle, hmasks ⟨b.bits, b.bounds.2⟩]
  refine ⟨fun h => ?_, fun h => ?_⟩
  · obtain ⟨i, hi, honly⟩ := h
    exact ⟨i, hi, fun j hj => congrArg Fin.val (honly ⟨j, hlow j hj⟩ hj)⟩
  · obtain ⟨i, hi, honly⟩ := h
    exact ⟨⟨i, hlow i hi⟩, hi, fun j hj => Fin.ext (honly j hj)⟩

end Band

/-- A rule of a configuration. -/
inductive Rule where
  /-- The network name fits the radio. -/
  | ssid
  /-- There is a passphrase exactly if the security type uses one. -/
  | presence
  /-- A passphrase is not empty. -/
  | content
  /-- A passphrase has a size that clients with WPA2 only accept. -/
  | size
  /-- A channel is assigned to one band at a time. -/
  | keys
  /-- Every channel can be stored. -/
  | channels
  /-- The client count can be stored. -/
  | clients
  deriving DecidableEq

namespace Rule

/-- Every rule, in the order in which they are checked. -/
def all : List Rule := [ssid, presence, content, size, keys, channels, clients]

theorem mem_all (rule : Rule) : rule ∈ all := by cases rule <;> decide

/-- What a rule asks of a draft. -/
def Holds (d : Draft) : Rule → Prop
  | ssid => ∀ name, d.ssid = some name → Utf8.size name ≤ 32
  | presence => d.passphrase.isSome = d.securityType.usesPassphrase
  | content => ∀ phrase, d.passphrase = some phrase → 0 < Utf8.size phrase
  | size => d.securityType ∈ [.wpa2Psk, .wpa3SaeTransition] →
      ∀ phrase, d.passphrase = some phrase → 8 ≤ Utf8.size phrase ∧ Utf8.size phrase ≤ 63
  | keys => ∀ band ∈ d.channels.bands, ∃! i, band.bits.testBit i = true
  | channels => d.channel.toNat ≤ 2147483647 ∧
      ∀ entry ∈ d.channels.entries, entry.2.toNat ≤ 2147483647
  | clients => d.maxNumberOfClients.toNat ≤ 2147483647

/-- What is reported of a draft that breaks a rule. Of the bands that share a
channel it is the smallest. -/
def Reports (d : Draft) : Rule → Violation → Prop
  | ssid, v => ∃ name, d.ssid = some name ∧ v = .ssidTooLong (Utf8.size name)
  | presence, v =>
    match d.passphrase with
    | some _ => v = .passphraseUnused d.securityType
    | none => v = .passphraseMissing d.securityType
  | content, v => v = .passphraseEmpty
  | size, v => v = .passphraseSize d.securityType
  | keys, v => ∃ band ∈ d.channels.bands, (¬ ∃! i, band.bits.testBit i = true) ∧
      (∀ other ∈ d.channels.bands, (¬ ∃! i, other.bits.testBit i = true) →
        band.bits ≤ other.bits) ∧ v = .sharedChannel band
  | channels, v => v = .channelTooLarge
  | clients, v => v = .tooManyClients

/-- A rule that a draft breaks, and none that is checked before it. -/
def FirstBroken (d : Draft) (rule : Rule) : Prop :=
  ∃ before after, all = before ++ rule :: after ∧ ¬ rule.Holds d ∧
    ∀ earlier ∈ before, earlier.Holds d

/-! ## One rule -/

/-- The check of one rule, whatever becomes of the others. -/
def check (d : Draft) : Rule → Option Violation
  | ssid => d.ssidViolation?
  | presence =>
    match d.passphrase, d.securityType.usesPassphrase with
    | some _, false => some (.passphraseUnused d.securityType)
    | none, true => some (.passphraseMissing d.securityType)
    | _, _ => none
  | content =>
    match d.passphrase with
    | some phrase => if Utf8.size phrase = 0 then some .passphraseEmpty else none
    | none => none
  | size =>
    match d.passphrase with
    | some phrase =>
      if d.securityType.boundsPassphrase ∧
          ¬ (minWpa2PassphraseSize ≤ Utf8.size phrase ∧ Utf8.size phrase ≤ maxWpa2PassphraseSize)
      then some (.passphraseSize d.securityType)
      else none
    | none => none
  | keys => d.bandViolation?
  | channels => d.channelViolation?
  | clients => d.clientsViolation?

theorem boundsPassphrase_iff {security : SecurityType} :
    security.boundsPassphrase = true ↔ security ∈ [.wpa2Psk, .wpa3SaeTransition] := by
  cases security <;> decide

/-- A check passes exactly if its rule holds. -/
theorem check_eq_none_iff {d : Draft} {rule : Rule} : rule.check d = none ↔ rule.Holds d := by
  cases rule with
  | ssid => exact Draft.ssidViolation?_eq_none_iff
  | presence =>
    simp only [check, Holds]
    cases d.passphrase <;> cases d.securityType.usesPassphrase <;> simp
  | content =>
    simp only [check, Holds]
    cases d.passphrase <;> simp [Nat.pos_iff_ne_zero]
  | size =>
    simp only [check, Holds, boundsPassphrase_iff]
    cases d.passphrase with
    | none => simp
    | some phrase =>
      simp only [ite_eq_right_iff, reduceCtorEq, imp_false, Decidable.not_and_not_right,
        Option.some.injEq, forall_eq']
      rfl
  | keys =>
    simp only [check, Holds, ← Band.isSingle_iff_existsUnique, Draft.bandViolation?_eq_none_iff,
      Band.isSingle_iff]
  | channels => exact Draft.channelViolation?_eq_none_iff
  | clients => exact Draft.clientsViolation?_eq_none_iff

/-- The first band that shares a channel is the smallest one, since the bands
ascend. -/
theorem reports_of_bandViolation? {d : Draft} {v : Violation} (h : d.bandViolation? = some v) :
    keys.Reports d v := by
  obtain ⟨band, hfind, rfl⟩ := Option.map_eq_some_iff.1 h
  obtain ⟨hband, before, after, hbands, hbefore⟩ := List.find?_eq_some_iff_append.1 hfind
  simp only [Reports, ← Band.isSingle_iff_existsUnique]
  have hascending := d.channels.pairwise_bands
  rw [hbands] at hascending ⊢
  obtain ⟨-, hlater, -⟩ := List.pairwise_append.1 hascending
  refine ⟨band, by simp, by simpa using hband, fun other hother hshared => ?_, rfl⟩
  rcases List.mem_append.1 hother with hmem | hmem
  · exact absurd (by simpa using hbefore other hmem) hshared
  · rcases List.mem_cons.1 hmem with rfl | hmem
    · exact Nat.le_refl _
    · exact Nat.le_of_lt ((List.pairwise_cons.1 hlater).1 other hmem)

/-- A check that fails reports what its rule reports. -/
theorem reports_of_check {d : Draft} {rule : Rule} {v : Violation} (h : rule.check d = some v) :
    rule.Reports d v := by
  cases rule with
  | ssid =>
    simp only [check, Draft.ssidViolation?] at h
    split at h
    · rename_i name hname
      split at h
      · cases h
      · cases h
        exact ⟨name, hname, rfl⟩
    · cases h
  | presence =>
    simp only [check] at h
    simp only [Reports]
    split at h
    · rename_i hpresent hused
      cases h
      rw [hpresent]
    · rename_i habsent hused
      cases h
      rw [habsent]
    · cases h
  | keys => exact reports_of_bandViolation? h
  | content | size =>
    simp only [check] at h
    split at h
    · split at h
      · cases h
        rfl
      · cases h
    · cases h
  | channels | clients =>
    simp only [check, Draft.channelViolation?, Draft.clientsViolation?] at h
    split at h
    · cases h
    · cases h
      rfl

/-- A rule reports one thing of a draft. -/
theorem Reports.unique {d : Draft} {rule : Rule} {v w : Violation} (hv : rule.Reports d v)
    (hw : rule.Reports d w) : v = w := by
  cases rule with
  | ssid =>
    obtain ⟨name, hname, rfl⟩ := hv
    obtain ⟨other, hother, rfl⟩ := hw
    rw [hname] at hother
    cases hother
    rfl
  | presence =>
    simp only [Reports] at hv hw
    cases hp : d.passphrase with
    | none =>
      rw [hp] at hv hw
      rw [hv, hw]
    | some phrase =>
      rw [hp] at hv hw
      rw [hv, hw]
  | keys =>
    obtain ⟨band, hband, hshared, hleast, rfl⟩ := hv
    obtain ⟨other, hother, hshared', hleast', rfl⟩ := hw
    have heq : band = other :=
      Band.ext (Nat.le_antisymm (hleast other hother hshared') (hleast' band hband hshared))
    rw [heq]
  | content | size | channels | clients => exact Eq.trans hv (Eq.symm hw)

end Rule

namespace Draft

open Rule (check)

/-! ## All of them -/

theorem passphraseViolation?_eq (d : Draft) : d.passphraseViolation? =
    (check d .presence).or ((check d .content).or (check d .size)) := by
  unfold passphraseViolation?
  simp only [check]
  cases d.passphrase with
  | none => cases d.securityType.usesPassphrase <;> rfl
  | some phrase =>
    cases d.securityType.usesPassphrase with
    | false => rfl
    | true => by_cases hempty : Utf8.size phrase = 0 <;> simp [hempty]

/-- The rules are checked one after another until one of them fails. -/
theorem violation?_eq_findSome? (d : Draft) : d.violation? = Rule.all.findSome? (check d) := by
  have hcons : ∀ (rule : Rule) (rules : List Rule),
      (rule :: rules).findSome? (check d) = (check d rule).or (rules.findSome? (check d)) := by
    intro rule rules
    rw [List.findSome?_cons]
    cases check d rule <;> rfl
  simp only [Rule.all, hcons, List.findSome?_nil, Option.or_none]
  simp only [violation?, passphraseViolation?_eq, Option.orElse_eq_orElse, Option.orElse_eq_or,
    Option.or_assoc]
  rfl

/-- What is found wrong with a draft is what its first broken rule reports. -/
theorem violation?_eq_some_iff {d : Draft} {v : Violation} :
    d.violation? = some v ↔ ∃ rule : Rule, rule.FirstBroken d ∧ rule.Reports d v := by
  rw [violation?_eq_findSome?, List.findSome?_eq_some_iff]
  simp only [Rule.check_eq_none_iff]
  refine ⟨fun h => ?_, fun h => ?_⟩
  · obtain ⟨before, rule, after, hall, hcheck, hbefore⟩ := h
    have hbroken : ¬ rule.Holds d := by
      rw [← Rule.check_eq_none_iff, hcheck]
      exact nofun
    exact ⟨rule, ⟨before, after, hall, hbroken, hbefore⟩, Rule.reports_of_check hcheck⟩
  · obtain ⟨rule, ⟨before, after, hall, hbroken, hbefore⟩, hreports⟩ := h
    cases hcheck : rule.check d with
    | none => exact absurd (Rule.check_eq_none_iff.1 hcheck) hbroken
    | some w =>
      rw [hreports.unique (Rule.reports_of_check hcheck)]
      exact ⟨before, rule, after, hall, hcheck, hbefore⟩

theorem exists_build_iff {d : Draft} : (∃ c, d.build = .ok c) ↔ ∀ rule : Rule, rule.Holds d := by
  have hnone : (∃ c, d.build = .ok c) ↔ d.violation? = none := by
    refine ⟨fun h => ?_, fun h => ?_⟩
    · obtain ⟨c, hc⟩ := h
      rw [← build_eq_ok_iff.1 hc]
      exact c.accepted
    · exact ⟨⟨d, h⟩, build_eq_ok_iff.2 rfl⟩
  rw [hnone, violation?_eq_findSome?, List.findSome?_eq_none_iff]
  simp only [Rule.check_eq_none_iff, Rule.mem_all, true_implies]

/-- A draft makes a configuration exactly if every rule holds of it, and the
configuration has each of its settings. Otherwise what is reported is the first
rule that it breaks, and nothing else is. -/
theorem build_reports_first_broken (d : Draft) :
    ((∃ c, d.build = .ok c) ↔ ∀ rule : Rule, rule.Holds d) ∧
      (∀ c, d.build = .ok c → ∀ f, Field.get c.draft f = Field.get d f) ∧
      (∀ v, d.build = .error v ↔ ∃ rule : Rule, rule.FirstBroken d ∧ rule.Reports d v) ∧
      ∀ s : Session, s.draft = d → ∀ e, (s.step .build).1 = .failed e ↔
        ∃ v, e = .invalid v ∧ ∃ rule : Rule, rule.FirstBroken d ∧ rule.Reports d v := by
  have herror : ∀ v, d.build = .error v ↔ ∃ rule : Rule, rule.FirstBroken d ∧ rule.Reports d v :=
    fun v => build_eq_error_iff.trans violation?_eq_some_iff
  refine ⟨exists_build_iff, fun c hc f => ?_, herror, fun s hs e => ?_⟩
  · rw [build_eq_ok_iff.1 hc]
  · subst hs
    simp only [← herror]
    cases hb : s.draft.build with
    | ok c => simp only [Session.step, hb, reduceCtorEq, and_false, exists_false]
    | error v =>
      simp only [Session.step, hb, Session.Answer.failed.injEq, Except.error.injEq,
        exists_eq_right', eq_comm]

/-- A draft with an empty passphrase for clients with WPA2 only, with two channels
that are shared between bands, and with too many clients. -/
def muddled : Draft :=
  { passphrase := some "", securityType := .wpa2Psk, maxNumberOfClients := 4294967295
    channels := (ChannelMap.insert ⟨12, by decide⟩ 1 ∅).insert ⟨3, by decide⟩ 36 }

/-- The same with a passphrase of the smallest size. -/
def keyed : Draft :=
  { muddled with passphrase := some "eight of" }

/-- Of `muddled` the passphrase is reported, and with another passphrase the
smaller one of the bands. -/
theorem build_reports_first_broken_muddled :
    (∃ rule : Rule, rule.FirstBroken muddled ∧ rule.Reports muddled .passphraseEmpty) ∧
      (∃ rule : Rule, rule.FirstBroken keyed ∧
        rule.Reports keyed (.sharedChannel (Band.ghz2.union .ghz5))) ∧
      ∀ rule : Rule, rule.Holds { keyed with channels := ∅, maxNumberOfClients := 2147483647 } := by
  refine ⟨((build_reports_first_broken _).2.2.1 _).1 ?_,
    ((build_reports_first_broken _).2.2.1 _).1 ?_,
    (build_reports_first_broken _).1.1 ⟨⟨_, ?_⟩, build_eq_ok_iff.2 rfl⟩⟩
  · decide +kernel
  · decide +kernel
  · decide +kernel

end Draft

end HotspotBackup
