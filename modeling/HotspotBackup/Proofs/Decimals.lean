import HotspotBackup.Report

/-!
# Plain decimals

A number is written in decimal without a sign and without a leading zero
(`decimal_cases`), and is read back as it was (`plainDecimal?_decimal`).
-/

namespace HotspotBackup.Scalar

open Digits

theorem isDigit_of_mem_decimal {n : Nat} {c : Char} (h : c ∈ decimal n) : c.isDigit = true :=
  Nat.isDigit_of_mem_toDigits (by decide) (by decide) h

theorem bounds_of_isDigit {c : Char} (h : c.isDigit = true) : '0' ≤ c ∧ c ≤ '9' := by
  simp only [Char.isDigit, Bool.and_eq_true, decide_eq_true_eq] at h
  exact ⟨h.1, h.2⟩

theorem toNat_of_isDigit {c : Char} (h : c.isDigit = true) : 48 ≤ c.toNat ∧ c.toNat ≤ 57 :=
  bounds_of_isDigit h

/-- A decimal is zero, or it begins with another digit. By induction on the
number, a digit at a time from its end. -/
theorem decimal_cases (n : Nat) :
    (n = 0 ∧ decimal n = ['0']) ∨ (0 < n ∧ ∃ c cs, decimal n = c :: cs ∧ c ≠ '0') := by
  have hdigit : ∀ d < 10, d ≠ 0 → d.digitChar ≠ '0' := by decide
  induction n using Nat.strongRecOn with
  | ind n ih =>
    by_cases hn : n < 10
    · have hone : decimal n = [n.digitChar] := Nat.toDigits_of_lt_base hn
      by_cases hzero : n = 0
      · subst hzero
        exact .inl ⟨rfl, rfl⟩
      · exact .inr ⟨Nat.pos_of_ne_zero hzero, n.digitChar, [], hone, hdigit n hn hzero⟩
    · have hmore : decimal n = decimal (n / 10) ++ [(n % 10).digitChar] :=
        Nat.toDigits_of_base_le (by decide) (Nat.not_lt.1 hn)
      rcases ih (n / 10) (by omega) with ⟨hzero, -⟩ | ⟨-, c, cs, hc, hne⟩
      · omega
      · exact .inr ⟨by omega, c, cs ++ [(n % 10).digitChar], by rw [hmore, hc]; rfl, hne⟩

/-! ## Reading -/

theorem value?_of_isDigit {c : Char} (h : c.isDigit = true) :
    value? 10 c = some (c.toNat - '0'.toNat) := by
  have hn := toNat_of_isDigit h
  have hzero : '0'.toNat = 48 := rfl
  have hlt : c.toNat - '0'.toNat < 10 := by omega
  rw [value?, hexValue?, if_pos (bounds_of_isDigit h)]
  simp only [Option.filter, hlt, decide_true, ↓reduceIte]

theorem readFrom?_of_digits {cs : List Char} (h : ∀ c ∈ cs, c.isDigit = true) (read : Nat) :
    readFrom? 10 read cs = some (Nat.ofDigitChars 10 cs read) := by
  induction cs generalizing read with
  | nil => rfl
  | cons c cs ih =>
    have hc := value?_of_isDigit (h c List.mem_cons_self)
    have hrest := ih (fun d hd => h d (List.mem_cons_of_mem _ hd))
    rw [Nat.ofDigitChars_cons, Nat.mul_comm 10 read]
    simp only [readFrom?, hc, Option.bind_eq_bind, Option.bind_some, hrest]

theorem plainDecimal?_decimal (n : Nat) : plainDecimal? (decimal n) = some n := by
  rcases decimal_cases n with ⟨rfl, hn⟩ | ⟨-, c, cs, hc, hne⟩
  · rw [hn]
    rfl
  · have hread : readFrom? 10 0 (c :: cs) = some n := by
      rw [← hc, readFrom?_of_digits fun d hd => isDigit_of_mem_decimal hd]
      exact congrArg some Nat.ofDigitChars_ten_toDigits
    rw [hc, plainDecimal?]
    · exact hread
    all_goals simp [hne]

end HotspotBackup.Scalar
