import HotspotBackup.Proofs.JsonGrammar
import Mathlib.Data.List.Chain
import Mathlib.Data.List.TakeWhile

/-!
# Tokens are found in the octets that lay them out

What scanning makes of tokens that are laid out with any white space
(`scanFrom_of_laidOut`). A string and a punctuation mark are tokens whatever follows
them (`Scans`); a word or a number is one only if it is not continued
(`ScansBefore`), and so of two tokens next to each other one has to be a mark
(`Alternates`), as of two tokens of a value one is (`alternates_tokens`).

* `runs_stringText` and `isNumber_of_numberText`: the grammar of strings and of
  numbers is kept by the scanner.
-/

namespace HotspotBackup

namespace Json

open Utf8 (octets asciiOctet)

/-! ## Numbers -/

theorem digitRun?_append {digits rest : List Char} (h : DigitsText digits)
    (hrest : ∀ c ∈ rest.head?, c.isDigit = false) : digitRun? (digits ++ rest) = some rest := by
  obtain ⟨hne, hd⟩ := h
  cases digits with
  | nil => exact absurd rfl hne
  | cons c cs =>
    have hstop : rest.dropWhile (·.isDigit) = rest := by
      cases rest with
      | nil => rfl
      | cons d rest => simp [hrest d rfl]
    rw [List.cons_append, digitRun?, if_pos (hd c List.mem_cons_self),
      List.dropWhile_append_of_pos fun d hm => hd d (List.mem_cons_of_mem _ hm), hstop]

theorem isExponent_of_exponentText {cs : List Char} (h : ExponentText cs) :
    isExponent cs = true := by
  cases h with
  | absent => rfl
  | @present mark sign digits hmark hsign hd =>
    have hrun : digitRun? (digits ++ []) = some [] := digitRun?_append hd nofun
    rw [List.append_nil] at hrun
    obtain ⟨c, rest, rfl⟩ := List.exists_cons_of_ne_nil hd.nonempty
    have hdigit := hd.digits c List.mem_cons_self
    have hplus : c ≠ '+' := by rintro rfl; exact absurd hdigit (by decide)
    have hminus : c ≠ '-' := by rintro rfl; exact absurd hdigit (by decide)
    have hmark : (decide (mark = 'e') || decide (mark = 'E')) = true := by
      simpa using hmark
    simp only [List.mem_cons, List.not_mem_nil, or_false] at hsign
    rcases hsign with rfl | rfl | rfl <;> simp [isExponent, hmark, hrun, hplus, hminus]

theorem isFraction_of_fractionText {fraction exponent : List Char} (hf : FractionText fraction)
    (he : ExponentText exponent) : isFraction (fraction ++ exponent) = true := by
  have hexp := isExponent_of_exponentText he
  have hhead : ∀ c ∈ exponent.head?, c.isDigit = false ∧ c ≠ '.' := by
    cases he with
    | absent => nofun
    | present hmark =>
      rintro c hc
      cases hc
      simp only [List.mem_cons, List.not_mem_nil, or_false] at hmark
      rcases hmark with rfl | rfl <;> decide
  cases hf with
  | absent =>
    rw [List.nil_append, isFraction]
    · exact hexp
    · rintro rest rfl
      exact (hhead '.' rfl).2 rfl
  | present hd =>
    rw [List.cons_append, isFraction, digitRun?_append hd fun c hc => (hhead c hc).1]
    exact hexp

/-- Behind the whole part of a number stands no digit. -/
theorem not_isDigit_of_head? {fraction exponent : List Char} (hf : FractionText fraction)
    (he : ExponentText exponent) : ∀ c ∈ (fraction ++ exponent).head?, c.isDigit = false := by
  cases hf with
  | present hd =>
    rintro c hc
    cases hc
    rfl
  | absent =>
    cases he with
    | absent => nofun
    | present hmark =>
      rintro c hc
      cases hc
      simp only [List.mem_cons, List.not_mem_nil, or_false] at hmark
      rcases hmark with rfl | rfl <;> decide

theorem isNumber_of_numberText {cs : List Char} (h : NumberText cs) : isNumber cs = true := by
  obtain ⟨hsign, hwhole, hf, he⟩ := h
  rename_i sign whole fraction exponent
  have htail := isFraction_of_fractionText hf he
  have hunsigned : isNumber (whole ++ (fraction ++ exponent)) = true ∧
      isNumber ('-' :: (whole ++ (fraction ++ exponent))) = true := by
    cases hwhole with
    | zero => exact ⟨htail, htail⟩
    | @other first rest hne hd =>
      have hrun := digitRun?_append hd (not_isDigit_of_head? hf he)
      have hminus : first ≠ '-' := by
        rintro rfl
        exact absurd (hd.digits _ List.mem_cons_self) (by decide)
      rw [List.cons_append] at hrun ⊢
      simp [isNumber, hne, hminus, hrun, htail]
  simp only [List.mem_cons, List.not_mem_nil, or_false] at hsign
  rcases hsign with rfl | rfl
  · exact hunsigned.1
  · exact hunsigned.2

theorem WholeText.digits {whole : List Char} (h : WholeText whole) : DigitsText whole := by
  cases h with
  | zero => exact ⟨List.cons_ne_nil '0' [], List.forall_mem_singleton.2 rfl⟩
  | other _ hd => exact hd

theorem numberChar_of_isDigit {c : Char} (h : c.isDigit = true) :
    c.toNat < 128 ∧ isNumberChar c = true := by
  have hn := Scalar.toNat_of_isDigit h
  exact ⟨by omega, by simp only [isNumberChar, h, Bool.true_or]⟩

/-- A number begins with a minus or a digit. -/
theorem exists_head_of_numberText {cs : List Char} (h : NumberText cs) :
    ∃ c rest, cs = c :: rest ∧ (c = '-' ∨ c.isDigit = true) := by
  obtain ⟨hsign, hwhole, -, -⟩ := h
  obtain ⟨c, rest, hc⟩ := List.exists_cons_of_ne_nil hwhole.digits.nonempty
  simp only [List.mem_cons, List.not_mem_nil, or_false] at hsign
  rcases hsign with rfl | rfl
  · subst hc
    exact ⟨c, _, rfl, .inr (hwhole.digits.digits c List.mem_cons_self)⟩
  · exact ⟨'-', _, rfl, .inl rfl⟩

/-- A number is made of its characters. -/
theorem numberChar_of_mem {cs : List Char} (h : NumberText cs) :
    ∀ c ∈ cs, c.toNat < 128 ∧ isNumberChar c = true := by
  obtain ⟨hsign, hwhole, hf, he⟩ := h
  have hwholes := fun c hc => numberChar_of_isDigit (hwhole.digits.digits c hc)
  have hminus : '-'.toNat < 128 ∧ isNumberChar '-' = true := by decide
  have hplus : '+'.toNat < 128 ∧ isNumberChar '+' = true := by decide
  simp only [List.forall_mem_append]
  refine ⟨?_, hwholes, ?_, ?_⟩
  · simp only [List.mem_cons, List.not_mem_nil, or_false] at hsign
    rcases hsign with rfl | rfl
    · nofun
    · exact List.forall_mem_singleton.2 hminus
  · cases hf with
    | absent => nofun
    | present hd =>
      exact List.forall_mem_cons.2 ⟨by decide, fun c hc => numberChar_of_isDigit (hd.digits c hc)⟩
  · cases he with
    | absent => nofun
    | present hmark hs hd =>
      simp only [List.mem_cons, List.not_mem_nil, or_false] at hmark hs
      rw [List.forall_mem_cons, List.forall_mem_append]
      refine ⟨?_, ?_, fun c hc => numberChar_of_isDigit (hd.digits c hc)⟩
      · rcases hmark with rfl | rfl <;> decide
      · rcases hs with rfl | rfl | rfl
        · nofun
        · exact List.forall_mem_singleton.2 hplus
        · exact List.forall_mem_singleton.2 hminus

/-! ## Scanning in steps -/

/-- Octets lead from one mode to another, and complete some tokens on the way,
whatever follows them. -/
def Runs (m : Mode) (b : Bytes) (tokens : List Token) (next : Mode) : Prop :=
  ∀ rest, scanFrom m (b ++ rest) = (tokens ++ ·) <$> scanFrom next rest

section

variable {m next last : Mode} {b b' : Bytes} {tokens tokens' : List Token}

theorem Runs.nil (m : Mode) : Runs m [] [] m := by
  intro rest
  cases h : scanFrom m rest <;> simp [h]

theorem Runs.append (h : Runs m b tokens next) (h' : Runs next b' tokens' last) :
    Runs m (b ++ b') (tokens ++ tokens') last := by
  intro rest
  rw [List.append_assoc, h, h']
  cases scanFrom last rest <;> simp

theorem scanFrom_cons {octet : UInt8} (h : m.step octet = some (tokens, next)) (rest : Bytes) :
    scanFrom m (octet :: rest) = (tokens ++ ·) <$> scanFrom next rest := by
  cases hrest : scanFrom next rest <;> simp [scanFrom, h, hrest]

theorem runs_of_step {octet : UInt8} (h : m.step octet = some (tokens, next)) :
    Runs m [octet] tokens next :=
  scanFrom_cons h

end

/-! ## Strings -/

theorem charOfNat_ne {octet : UInt8} {d : Char} (h : octet.toNat ≠ d.toNat) :
    Char.ofNat octet.toNat ≠ d := by
  have hlt := octet.toNat_lt
  rintro rfl
  exact h (Utf8.toNat_charOfNat (by omega)).symm

theorem step_string_plain {octet : UInt8} (hquote : octet.toNat ≠ 34) (hslash : octet.toNat ≠ 92)
    (hcontrol : 32 ≤ octet.toNat) (read : Bytes) :
    (Mode.string read).step octet = some ([], .string (octet :: read)) := by
  have hq : Char.ofNat octet.toNat ≠ '"' := charOfNat_ne hquote
  have hs : Char.ofNat octet.toNat ≠ '\\' := charOfNat_ne hslash
  have hc : ¬ octet < 32 := by
    rw [UInt8.lt_iff_toNat_lt]
    exact Nat.not_lt.2 hcontrol
  simp only [Mode.step, hq, hs, hc, ↓reduceIte]

theorem step_escape_letter {letter : UInt8} (h : letter ∈ [34, 92, 47, 98, 102, 110, 114, 116])
    (read : Bytes) : (Mode.escape read).step letter = some ([], .string (letter :: read)) := by
  simp only [List.mem_cons, List.not_mem_nil, or_false] at h
  rcases h with rfl | rfl | rfl | rfl | rfl | rfl | rfl | rfl <;> rfl

theorem step_unit {octet : UInt8} (h : IsHexOctet octet) (left : Nat) (read : Bytes) :
    (Mode.unit left read).step octet = some ([], match left with
        | 0 => .string (octet :: read)
        | left + 1 => .unit left (octet :: read)) := by
  have hn := Option.isNone_eq_false_iff.2 h
  cases left <;> simp only [Mode.step, hn, ↓reduceIte, Bool.false_eq_true]

/-- What stands between quotation marks is passed over. -/
theorem runs_stringText {raw : Bytes} (h : StringText raw) (read : Bytes) :
    Runs (.string read) raw [] (.string (raw.reverse ++ read)) := by
  have hbackslash : ∀ read, Runs (.string read) [92] [] (.escape (92 :: read)) :=
    fun read => runs_of_step rfl
  induction h generalizing read with
  | nil => exact .nil _
  | @plain octet rest hquote hslash hcontrol _ ih =>
    rw [List.reverse_cons, List.append_assoc]
    exact (runs_of_step (step_string_plain hquote hslash hcontrol read)).append (ih _)
  | @letter octet rest hletter _ ih =>
    rw [List.reverse_cons, List.reverse_cons, List.append_assoc, List.append_assoc]
    exact (hbackslash read).append ((runs_of_step (step_escape_letter hletter _)).append (ih _))
  | @unit a b c d rest hdigits _ ih =>
    simp only [List.forall_mem_cons] at hdigits
    obtain ⟨ha, hb, hc, hd, -⟩ := hdigits
    have hu : (Mode.escape (92 :: read)).step 117 = some ([], .unit 3 (117 :: 92 :: read)) := rfl
    simp only [List.reverse_cons, List.append_assoc]
    exact (hbackslash read).append ((runs_of_step hu).append
      ((runs_of_step (step_unit ha 3 _)).append ((runs_of_step (step_unit hb 2 _)).append
        ((runs_of_step (step_unit hc 1 _)).append
          ((runs_of_step (step_unit hd 0 _)).append (ih _))))))

/-! ## Tokens between others -/

/-- Octets are some tokens, whatever follows them. -/
def Scans (b : Bytes) (tokens : List Token) : Prop :=
  Runs .between b tokens .between

/-- Octets begin with what may stand behind a word or a number: white space or a
punctuation mark. -/
def Closes (b : Bytes) : Prop :=
  ∃ octet rest, b = octet :: rest ∧ octet ∈ [32, 9, 10, 13, 123, 125, 91, 93, 58, 44]

/-- Nothing follows, or what may stand behind a word or a number. -/
def Follows (rest : Bytes) : Prop :=
  rest = [] ∨ Closes rest

/-- Octets are some tokens, if what follows them may stand behind a word or a
number. -/
def ScansBefore (b : Bytes) (tokens : List Token) : Prop :=
  ∀ rest, Follows rest → scanFrom .between (b ++ rest) = (tokens ++ ·) <$> scanFrom .between rest

theorem Scans.before {b : Bytes} {tokens : List Token} (h : Scans b tokens) :
    ScansBefore b tokens :=
  fun rest _ => h rest

/-- A punctuation mark. -/
def Token.isMark : Token → Bool
  | beginObject | endObject | beginArray | endArray | colon | comma => true
  | null | bool _ | number _ | string _ => false

theorem scans_mark {mark : Token} (h : mark.isMark = true) : Scans mark.octets [mark] := by
  cases mark with
  | beginObject | endObject | beginArray | endArray | colon | comma => exact runs_of_step rfl
  | null | bool _ | number _ | string _ => cases h

/-- A string between its quotation marks. -/
theorem scans_string {raw : Bytes} (h : StringText raw) :
    Scans (Token.string raw).octets [.string raw] := by
  have hopen : Mode.between.step 34 = some ([], .string []) := rfl
  have hclose : (Mode.string (raw.reverse ++ [])).step 34 = some ([.string raw], .between) := by
    simp [Mode.step]
  exact (runs_of_step hopen).append ((runs_stringText h []).append (runs_of_step hclose))

/-- White space is no token. -/
theorem scans_gap {gap : Bytes} (h : IsGap gap) : Scans gap [] := by
  induction gap with
  | nil => exact .nil _
  | cons octet gap ih =>
    have hfirst : Scans [octet] [] := by
      have ho := h octet List.mem_cons_self
      simp only [List.mem_cons, List.not_mem_nil, or_false] at ho
      rcases ho with rfl | rfl | rfl | rfl <;> exact runs_of_step rfl
    exact hfirst.append (ih fun o ho => h o (List.mem_cons_of_mem _ ho))

/-! ## Words and numbers -/

/-- What may stand behind a value ends a word or a number before it. -/
theorem scanFrom_of_close {m : Mode} {tokens : List Token} {rest : Bytes}
    (hm : (∃ read, m = .word read) ∨ ∃ read, m = .number read) (hc : m.close? = some tokens)
    (hf : Follows rest) : scanFrom m rest = (tokens ++ ·) <$> scanFrom .between rest := by
  rcases hf with rfl | ⟨octet, rest, rfl, hoctet⟩
  · rw [scanFrom, hc, scanFrom]
    simp [Mode.close?]
  · have hstep : m.step octet =
        (fun opened => (tokens ++ opened.1, opened.2)) <$> Mode.between.step octet := by
      simp only [List.mem_cons, List.not_mem_nil, or_false] at hoctet
      rcases hm with ⟨read, rfl⟩ | ⟨read, rfl⟩
      · rcases hoctet with rfl | rfl | rfl | rfl | rfl | rfl | rfl | rfl | rfl | rfl <;>
          simp [Mode.step, hc] <;> rfl
      · rcases hoctet with rfl | rfl | rfl | rfl | rfl | rfl | rfl | rfl | rfl | rfl <;>
          simp [Mode.step, hc] <;> rfl
    cases hb : Mode.between.step octet with
    | none =>
      rw [hb] at hstep
      simp [scanFrom, hstep, hb]
    | some opened =>
      obtain ⟨done, next⟩ := opened
      rw [hb] at hstep
      rw [scanFrom_cons hstep, scanFrom_cons hb]
      cases scanFrom next rest <;> simp

/-- A token that lasts until it is not continued. -/
theorem scansBefore_of_runs {m : Mode} {b : Bytes} {token : Token} (h : Runs .between b [] m)
    (hm : (∃ read, m = .word read) ∨ ∃ read, m = .number read) (hc : m.close? = some [token]) :
    ScansBefore b [token] := by
  intro rest hf
  rw [h, scanFrom_of_close hm hc hf]
  cases scanFrom .between rest <;> rfl

theorem charOfNat_asciiOctet {c : Char} (h : c.toNat < 128) :
    Char.ofNat (asciiOctet c).toNat = c := by
  rw [asciiOctet, UInt8.toNat_ofNat', Nat.mod_eq_of_lt (by omega), Char.ofNat_toNat]

/-- By induction on the characters that are left. -/
theorem runs_of_chars {modes : List Char → Mode} {cs : List Char}
    (h : ∀ c ∈ cs, c.toNat < 128 ∧
      ∀ read, (modes read).step (asciiOctet c) = some ([], modes (c :: read)))
    (read : List Char) : Runs (modes read) (octets cs) [] (modes (cs.reverse ++ read)) := by
  induction cs generalizing read with
  | nil => exact .nil _
  | cons c cs ih =>
    obtain ⟨hlt, hstep⟩ := h c List.mem_cons_self
    have hrest := ih (fun d hd => h d (List.mem_cons_of_mem _ hd)) (c :: read)
    rw [Utf8.octets_cons, Utf8.encodeChar_ascii hlt, List.reverse_cons, List.append_assoc]
    exact (runs_of_step (hstep read)).append hrest

theorem scansBefore_word {first : Char} {cs : List Char} {token : Token}
    (hopen : Mode.between.step (asciiOctet first) = some ([], .word [first]))
    (hletters : (first :: cs).all (fun c => c.toNat < 128 && c.isAlpha) = true)
    (hw : word? (first :: cs) = some token) : ScansBefore (octets (first :: cs)) [token] := by
  have hletter : ∀ c ∈ first :: cs, c.toNat < 128 ∧ c.isAlpha = true := by
    simpa only [List.all_eq_true, Bool.and_eq_true, decide_eq_true_eq] using hletters
  have hsteps : ∀ c ∈ cs, c.toNat < 128 ∧
      ∀ read, (Mode.word read).step (asciiOctet c) = some ([], .word (c :: read)) := by
    intro c hc
    obtain ⟨hlt, halpha⟩ := hletter c (List.mem_cons_of_mem _ hc)
    refine ⟨hlt, fun read => ?_⟩
    simp only [Mode.step, charOfNat_asciiOctet hlt, halpha, ↓reduceIte]
  have hruns := (runs_of_step hopen).append (runs_of_chars hsteps [first])
  rw [Utf8.octets_cons, Utf8.encodeChar_ascii (hletter first List.mem_cons_self).1]
  refine scansBefore_of_runs hruns (.inl ⟨_, rfl⟩) ?_
  simp only [Mode.close?, List.reverse_append, List.reverse_reverse, List.reverse_singleton,
    List.singleton_append, hw, Option.map_some]

theorem step_between_number {c : Char} (h : c = '-' ∨ c.isDigit = true) :
    Mode.between.step (asciiOctet c) = some ([], .number [c]) := by
  rcases h with rfl | h
  · rfl
  have hn := Scalar.toNat_of_isDigit h
  have hblank : isBlank c = false := by
    simp only [isBlank, Bool.or_eq_false_iff, decide_eq_false_iff_not]
    refine ⟨⟨⟨?_, ?_⟩, ?_⟩, ?_⟩ <;> (rintro rfl; exact absurd h (by decide))
  have hquote : c ≠ '"' := by
    rintro rfl
    exact absurd h (by decide)
  simp only [Mode.step, charOfNat_asciiOctet (show c.toNat < 128 by omega), openToken?, hblank,
    hquote, h, Bool.or_true, Bool.false_eq_true, ↓reduceIte]

/-- A number, if no further character of one follows. -/
theorem scansBefore_number {cs : List Char} (h : NumberText cs) :
    ScansBefore (octets cs) [.number cs] := by
  have hnumber := isNumber_of_numberText h
  have hchars := numberChar_of_mem h
  obtain ⟨c, rest, rfl, hc⟩ := exists_head_of_numberText h
  have hsteps : ∀ d ∈ rest, d.toNat < 128 ∧
      ∀ read, (Mode.number read).step (asciiOctet d) = some ([], .number (d :: read)) := by
    intro d hd
    obtain ⟨hlt, hn⟩ := hchars d (List.mem_cons_of_mem _ hd)
    refine ⟨hlt, fun read => ?_⟩
    simp only [Mode.step, charOfNat_asciiOctet hlt, hn, ↓reduceIte]
  have hruns := (runs_of_step (step_between_number hc)).append (runs_of_chars hsteps [c])
  rw [Utf8.octets_cons, Utf8.encodeChar_ascii (hchars c List.mem_cons_self).1]
  refine scansBefore_of_runs hruns (.inr ⟨_, rfl⟩) ?_
  simp only [Mode.close?, List.reverse_append, List.reverse_reverse, List.reverse_singleton,
    List.singleton_append, hnumber, ↓reduceIte]

/-- A token in its octets. -/
theorem scansBefore_token {token : Token} (h : token.WellFormed) :
    ScansBefore token.octets [token] := by
  cases token with
  | beginObject | endObject | beginArray | endArray | colon | comma => exact (scans_mark rfl).before
  | null => exact scansBefore_word rfl rfl rfl
  | bool b => cases b <;> exact scansBefore_word rfl rfl rfl
  | number digits => exact scansBefore_number h
  | string raw => exact (scans_string h).before

/-! ## Layouts -/

/-- Of two tokens next to each other, one is a mark. -/
def Alternates (tokens : List Token) : Prop :=
  tokens.IsChain fun t u => t.isMark = true ∨ u.isMark = true

theorem Alternates.behind {mark : Token} {ts : List Token} (hm : mark.isMark = true)
    (h : Alternates ts) : Alternates (mark :: ts) :=
  List.isChain_cons.2 ⟨fun _ _ => .inl hm, h⟩

/-- Tokens on both sides of a mark. -/
theorem Alternates.around {mark : Token} {ts us : List Token} (h : Alternates ts)
    (hm : mark.isMark = true) (h' : Alternates us) : Alternates (ts ++ mark :: us) := by
  refine List.isChain_append.2 ⟨h, h'.behind hm, fun t _ u hu => .inr ?_⟩
  cases hu
  exact hm

/-- By induction on the parts. -/
theorem alternates_intercalate {parts : List (List Token)} (h : ∀ part ∈ parts, Alternates part) :
    Alternates (List.intercalate [.comma] parts) := by
  induction parts with
  | nil => exact List.isChain_nil
  | cons part parts ih =>
    have hpart := h part List.mem_cons_self
    cases parts with
    | nil => rwa [List.intercalate_singleton]
    | cons next parts =>
      have hrest := ih fun p hp => h p (List.mem_cons_of_mem _ hp)
      have hcomma : Token.comma.isMark = true := rfl
      have haround := hpart.around hcomma hrest
      rwa [List.intercalate_cons_cons, List.append_assoc]

/-- Parts between two marks. -/
theorem alternates_bracketed {opening closing : Token} (ho : opening.isMark = true)
    (hc : closing.isMark = true) {parts : List (List Token)}
    (h : ∀ part ∈ parts, Alternates part) :
    Alternates (opening :: List.intercalate [.comma] parts ++ [closing]) := by
  have hinner := (alternates_intercalate h).around hc List.isChain_nil
  exact hinner.behind ho

/-- By induction on the value. -/
theorem alternates_tokens (v : Json) : Alternates v.tokens := by
  induction v using tokens.induct with
  | case1 | case2 | case3 | case4 =>
    rw [tokens]
    exact List.isChain_singleton _
  | case5 items ih =>
    rw [tokens]
    exact alternates_bracketed rfl rfl (List.forall_mem_map.2 ih)
  | case6 members ih =>
    have hmember : ∀ m ∈ members, Alternates (.string m.1 :: .colon :: m.2.tokens) :=
      fun m hm => Alternates.around (List.isChain_singleton (Token.string m.1)) rfl (ih m hm)
    rw [tokens]
    exact alternates_bracketed rfl rfl (List.forall_mem_map.2 hmember)

/-- What is laid out behind a word or a number may stand there. -/
theorem follows_of_laidOut {ts : List Token} {b : Bytes} (h : LaidOut ts b)
    (hm : ∀ t ∈ ts.head?, t.isMark = true) : Follows b := by
  have hblank : ∀ {octet : UInt8} {gap rest : Bytes}, IsGap (octet :: gap) →
      Follows (octet :: (gap ++ rest)) := fun hg =>
    .inr ⟨_, _, rfl, List.mem_append_left [123, 125, 91, 93, 58, 44] (hg _ List.mem_cons_self)⟩
  cases h with
  | nil hg =>
    cases b with
    | nil => exact .inl rfl
    | cons octet gap =>
      have hf : Follows (octet :: (gap ++ [])) := hblank hg
      rwa [List.append_nil] at hf
  | @cons gap rest token tokens hg _ _ =>
    cases gap with
    | cons octet gap => exact hblank hg
    | nil =>
      have hmark := hm token rfl
      cases token with
      | beginObject | endObject | beginArray | endArray | colon | comma =>
        exact .inr ⟨_, rest, rfl, by decide⟩
      | null | bool _ | number _ | string _ => cases hmark

/-- Tokens that alternate are found where they are laid out. By induction on the
layout. -/
theorem scanFrom_of_laidOut {ts : List Token} {b : Bytes} (h : LaidOut ts b)
    (ha : Alternates ts) : scanFrom .between b = some ts := by
  induction h with
  | @nil gap hg =>
    have hall := scans_gap hg []
    rw [List.append_nil] at hall
    rw [hall]
    rfl
  | @cons gap rest token ts hg hw hrest ih =>
    obtain ⟨hnext, ha⟩ := List.isChain_cons.1 ha
    -- a mark is a token whatever follows; behind another token comes a mark
    have htoken : scanFrom .between (token.octets ++ rest) =
        ([token] ++ ·) <$> scanFrom .between rest := by
      by_cases hm : token.isMark = true
      · exact scans_mark hm rest
      · have hmarks := fun t ht => (hnext t ht).resolve_left hm
        exact scansBefore_token hw rest (follows_of_laidOut hrest hmarks)
    rw [scans_gap hg, htoken, ih ha]
    rfl

/-- A text that says a value is split into the tokens of the value. -/
theorem scan_of_spells {v : Json} {text : Bytes} (h : v.Spells text) :
    Token.scan text = some v.tokens :=
  scanFrom_of_laidOut h (alternates_tokens v)

end Json

end HotspotBackup
