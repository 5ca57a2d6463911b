import HotspotBackup.Toml.Token

/-!
# Quoted text is read back

What stands between the marks of a text that was quoted spells that text,
whichever quotation was chosen for it.

* `unescape?_escape`: escapes are undone, in one line and in several.
* `Quotation.decode?_body`: so is the end of line that a text of several lines
  begins with.
-/

namespace HotspotBackup.Toml

open Digits

variable {m : Bool} {rest text : List Char}

theorem unescape?_plain (h : unescape? m .inText rest = some text) {c : Char} (hc : c ≠ '\\') :
    unescape? m .inText (c :: rest) = some (c :: text) := by
  rw [unescape?]
  · simp [h]
  all_goals simp_all

theorem unescape?_letter (h : unescape? m .inText rest = some text) {letter c : Char}
    (hc : escaped? letter = some c) :
    unescape? m .inText ('\\' :: letter :: rest) = some (c :: text) := by
  have hb : isBlank letter = false := by
    unfold escaped? at hc
    split at hc <;> first | rfl | cases hc
  have hne : ∀ other, escaped? other = none → letter ≠ other := by
    rintro other ho rfl
    rw [ho] at hc
    cases hc
  have hn : letter ≠ '\n' := hne _ rfl
  have hu : letter ≠ 'u' := hne _ rfl
  have hU : letter ≠ 'U' := hne _ rfl
  rw [unescape?]
  · simp [hb, hn, hc, h]
  all_goals simp [hu, hU]

theorem unescape?_codePoint (h : unescape? m .inText rest = some text) {a b c d x : Char}
    (hx : codePoint? [a, b, c, d] = some x) :
    unescape? m .inText ('\\' :: 'u' :: a :: b :: c :: d :: rest) = some (x :: text) := by
  rw [unescape?]
  · simp [hx, h]
  · exact fun hj => Joint.noConfusion hj

theorem codePoint?_upperHex {n : Nat} (h : n < 128) :
    codePoint? (upperHex 4 n) = some (Char.ofNat n) := by
  revert h n
  decide +kernel

theorem upperHex_four (n : Nat) : ∃ a b c d, upperHex 4 n = [a, b, c, d] :=
  ⟨_, _, _, _, rfl⟩

theorem toNat_lt_of_isControl {c : Char} (h : isControl c = true) : c.toNat < 128 := by
  simp only [isControl, Bool.or_eq_true, Bool.and_eq_true, decide_eq_true_eq] at h
  rcases h with ⟨⟨h, -⟩, -⟩ | rfl
  · omega
  · decide

/-- What is written for a character stands for it. -/
theorem unescape?_escapeChar (h : unescape? m .inText rest = some text) (c : Char) :
    unescape? m .inText (escapeChar m c ++ rest) = some (c :: text) := by
  unfold escapeChar
  split
  · exact unescape?_letter h rfl
  · exact unescape?_letter h rfl
  · split
    · exact unescape?_plain h (by decide)
    · exact unescape?_letter h rfl
  · exact unescape?_letter h rfl
  · exact unescape?_letter h rfl
  · exact unescape?_letter h rfl
  · rename_i hne
    split
    · rename_i hc
      obtain ⟨a, b, d, e, hx⟩ := upperHex_four c.toNat
      have hcp := codePoint?_upperHex (toNat_lt_of_isControl hc)
      rw [hx, Char.ofNat_toNat] at hcp
      rw [hx]
      exact unescape?_codePoint h hcp
    · exact unescape?_plain h hne

/-- By induction on the text, whatever run of marks stands before it. -/
theorem unescape?_escape (m : Bool) (run : Nat) (cs : List Char) :
    unescape? m .inText (escape m run cs) = some cs := by
  induction cs generalizing run with
  | nil => exact unescape?_nil m
  | cons c cs ih =>
    rw [escape]
    split
    · rename_i hc
      subst hc
      by_cases hrun : (if m then 2 else 0) < run + 1
      · rw [if_pos hrun]
        have hmark : escaped? '"' = some '"' := rfl
        exact unescape?_letter (ih 0) hmark
      · rw [if_neg hrun]
        have hmark : '"' ≠ '\\' := by decide
        exact unescape?_plain (ih (run + 1)) hmark
    · exact unescape?_escapeChar (ih 0) c

/-! ## What stands between the marks -/

theorem dropBreak_cons {c : Char} (h : c ≠ '\n') (rest : List Char) :
    dropBreak (c :: rest) = c :: rest := by
  unfold dropBreak
  split
  · rename_i heq
    exact absurd (List.cons.inj heq).1 h
  · rfl

/-- Only an end of line is written as one. -/
theorem dropBreak_escape {cs : List Char} (h : '\n' ∉ cs) (run : Nat) :
    dropBreak (escape true run cs) = escape true run cs := by
  cases cs with
  | nil => rfl
  | cons c cs =>
    have hc : c ≠ '\n' := fun hc => h (hc ▸ List.mem_cons_self)
    have hmark : '"' ≠ '\n' := by decide
    have hslash : '\\' ≠ '\n' := by decide
    rw [escape]
    split
    · by_cases hrun : (if true then 2 else 0) < run + 1
      · rw [if_pos hrun]
        exact dropBreak_cons hslash _
      · rw [if_neg hrun]
        exact dropBreak_cons hmark _
    · unfold escapeChar
      split
      · exact dropBreak_cons hslash _
      · exact dropBreak_cons hslash _
      · exact absurd rfl hc
      · exact dropBreak_cons hslash _
      · exact dropBreak_cons hslash _
      · exact dropBreak_cons hslash _
      · split
        · exact dropBreak_cons hslash _
        · exact dropBreak_cons hc _

namespace Quotation

/-- What stands between the marks of a quotation. -/
def body (q : Quotation) (cs : List Char) : List Char :=
  match q.quote with
  | .double => escape q.multiline 0 cs
  | .single => cs

/-- The end of line with which a text of several lines begins. -/
def break? (q : Quotation) (cs : List Char) : List Char :=
  if q.multiline && cs.contains '\n' then ['\n'] else []

theorem wrap_eq (q : Quotation) (cs : List Char) :
    q.wrap cs = q.marks ++ q.break? cs ++ q.body cs ++ q.marks :=
  rfl

theorem dropBreak_body {q : Quotation} {cs : List Char} (h : '\n' ∉ cs) (hm : q.multiline = true) :
    dropBreak (q.body cs) = q.body cs := by
  obtain ⟨quote, multiline⟩ := q
  cases quote with
  | double =>
    cases hm
    exact dropBreak_escape h 0
  | single =>
    cases cs with
    | nil => rfl
    | cons c cs => exact dropBreak_cons (fun hc => h (hc ▸ List.mem_cons_self)) cs

/-- What stands between the marks spells the text. -/
theorem decode?_body (q : Quotation) (cs : List Char) :
    q.decode? (q.break? cs ++ q.body cs) = some (String.ofList cs) := by
  have hbody : (if q.multiline then dropBreak (q.break? cs ++ q.body cs)
      else q.break? cs ++ q.body cs) = q.body cs := by
    cases hm : q.multiline with
    | false => simp [break?, hm]
    | true =>
      by_cases hn : '\n' ∈ cs
      · simp [break?, hm, hn, dropBreak]
      · simp [break?, hm, hn, dropBreak_body hn hm]
  rw [decode?, hbody, body]
  cases q.quote with
  | double => simp [unescape?_escape]
  | single => rfl

end Quotation

end HotspotBackup.Toml
