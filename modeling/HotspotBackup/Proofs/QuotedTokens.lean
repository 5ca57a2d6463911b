import HotspotBackup.Proofs.Quoting

/-!
# Quoted text is one token

Scanning in steps (`Mode.run`), and what scanning makes of a text that was
quoted: one token with what stands between the marks, whichever quotation was
chosen.

* `scan_of_run`: a document whose scanning ends between two tokens.
* `Quotation.Passes`: scanning goes on inside a quoted text, and the marks of
  its own that it holds back stay few enough. It does with escaped text
  (`passes_escape`), and between single marks with any text that has no long run
  of them (`passes_of_longestRun`).
* `Quotation.run_write`: a text that was quoted, at the end of its line.
* `all_isAllowed_write`: it holds no character that may not stand in a
  document.
-/

namespace HotspotBackup.Toml

/-! ## Scanning in steps -/

/-- The tokens that characters complete, and the mode after them. -/
def Mode.run : Mode → List Char → Option (List Token × Mode)
  | m, [] => some ([], m)
  | m, c :: rest => do
    let (done, next) ← m.step c
    let (more, last) ← next.run rest
    return (done ++ more, last)

namespace Mode

variable {m next last : Mode} {ts us : List Token} {cs ds : List Char}

theorem run_cons {c : Char} (h : m.step c = some (ts, next)) (h' : next.run cs = some (us, last)) :
    m.run (c :: cs) = some (ts ++ us, last) := by
  simp [run, h, h']

theorem run_append (h : m.run cs = some (ts, next)) (h' : next.run ds = some (us, last)) :
    m.run (cs ++ ds) = some (ts ++ us, last) := by
  induction cs generalizing m ts with
  | nil =>
    cases h
    exact h'
  | cons c cs ih =>
    simp only [run, Option.bind_eq_bind, Option.bind_eq_some_iff, Option.pure_def,
      Option.some.injEq, Prod.exists, Prod.mk.injEq] at h
    obtain ⟨done, mid, hc, more, _, hcs, rfl, rfl⟩ := h
    rw [List.append_assoc, List.cons_append]
    exact run_cons hc (ih hcs)

/-- Scanning a whole text ends as the mode after it does. -/
theorem scanFrom_of_run (h : m.run cs = some (ts, last)) (h' : last.close? = some us) :
    scanFrom m cs = some (ts ++ us) := by
  induction cs generalizing m ts with
  | nil =>
    cases h
    exact h'
  | cons c cs ih =>
    simp only [run, Option.bind_eq_bind, Option.bind_eq_some_iff, Option.pure_def,
      Option.some.injEq, Prod.exists, Prod.mk.injEq] at h
    obtain ⟨done, mid, hc, more, _, hcs, rfl, rfl⟩ := h
    simp [scanFrom, hc, ih hcs]

end Mode

/-- No character that may stand in a document is a carriage return. -/
theorem joinBreaks_of_allowed {cs : List Char} (h : cs.all isAllowed = true) :
    joinBreaks cs = cs := by
  induction cs with
  | nil => rfl
  | cons c cs ih =>
    rw [List.all_cons, Bool.and_eq_true] at h
    have hc : c ≠ '\r' := by
      rintro rfl
      exact absurd h.1 (by decide)
    rw [joinBreaks, ih h.2]
    exact fun _ hr => absurd hr hc

/-- A document whose scanning ends between two tokens. -/
theorem scan_of_run {c : Char} {cs : List Char} {ts : List Token} (hc : c ≠ '\uFEFF')
    (ha : (c :: cs).all isAllowed = true)
    (h : Mode.between.run (c :: cs) = some (ts, .between)) : Token.scan (c :: cs) = some ts := by
  have hmark : dropOrderMark (c :: cs) = c :: cs := by
    unfold dropOrderMark
    split
    · rename_i heq
      exact absurd (List.cons.inj heq).1 hc
    · rfl
  have hscan : scanFrom .between (c :: cs) = some (ts ++ []) := Mode.scanFrom_of_run h rfl
  rw [Token.scan, hmark, joinBreaks_of_allowed ha, if_pos ha, hscan,
    List.append_nil]

theorem ne_of_isKeyChar {c d : Char} (hc : isKeyChar c = true) (hd : isKeyChar d = false) :
    c ≠ d := by
  rintro rfl
  rw [hc] at hd
  cases hd

theorem upperHex_keyChars {n : Nat} (h : n < 128) :
    (Digits.upperHex 4 n).all isKeyChar = true := by
  revert h n
  decide +kernel

/-! ## Inside a quoted text -/

namespace Quotation

/-- The most marks of its own that stand side by side in a quoted text. -/
def limit (q : Quotation) : Nat :=
  if q.multiline then 2 else 0

/-- The mode in a quoted text, after `run` marks of its own. -/
def inText (q : Quotation) (run : Nat) (read : List Char) : Mode :=
  if q.multiline then .block q.quote run read else .line q.quote read

/-- What was read of a quoted text, with the marks that are held back. -/
def held (q : Quotation) (run : Nat) (read : List Char) : List Char :=
  read.reverse ++ List.replicate run q.quote.mark

/-- From `run` marks of its own, scanning goes on inside a quoted text and
leads to `after` of them. -/
def Passes (q : Quotation) (run : Nat) (cs : List Char) (after : Nat) : Prop :=
  run ≤ q.limit → after ≤ q.limit ∧ ∀ read, ∃ read',
    (q.inText run read).run cs = some ([], q.inText after read') ∧
      q.held after read' = q.held run read ++ cs

variable {q : Quotation} {run between after : Nat} {cs ds : List Char} {c : Char}
variable {ts : List Token} {last : Mode}

theorem Passes.nil (q : Quotation) (run : Nat) : q.Passes run [] run :=
  fun h => ⟨h, fun read => ⟨read, rfl, (List.append_nil _).symm⟩⟩

theorem Passes.append (h : q.Passes run cs between) (h' : q.Passes between ds after) :
    q.Passes run (cs ++ ds) after := by
  intro hrun
  obtain ⟨hbetween, h⟩ := h hrun
  obtain ⟨hafter, h'⟩ := h' hbetween
  refine ⟨hafter, fun read => ?_⟩
  obtain ⟨read₁, hcs, hheld₁⟩ := h read
  obtain ⟨read₂, hds, hheld₂⟩ := h' read₁
  refine ⟨read₂, Mode.run_append hcs hds, ?_⟩
  rw [hheld₂, hheld₁, List.append_assoc]

/-- A character that is read as it is. -/
theorem passes_char (hmark : c ≠ q.quote.mark) (hslash : q.quote = .double → c ≠ '\\')
    (hbreak : q.multiline = false → c ≠ '\n') : q.Passes run [c] 0 := by
  intro hrun
  have hescape : (q.quote = .double && c = '\\' : Bool) = false := by
    cases hq : q.quote with
    | double => simp [hslash hq]
    | single => rfl
  refine ⟨Nat.zero_le _, fun read => ⟨c :: (List.replicate run q.quote.mark ++ read), ?_, ?_⟩⟩
  · have hstep : (q.inText run read).step c =
        some ([], q.inText 0 (c :: (List.replicate run q.quote.mark ++ read))) := by
      unfold inText
      cases hm : q.multiline with
      | false =>
        have hzero : run = 0 := by simpa [limit, hm] using hrun
        subst hzero
        simp [Mode.step, lineChar, hmark, hbreak hm, hescape]
      | true =>
        have hfew : ¬ 3 ≤ run := by
          have hlimit : run ≤ 2 := by simpa [limit, hm] using hrun
          omega
        simp [Mode.step, blockChar, hmark, hfew, hescape]
    exact Mode.run_cons hstep rfl
  · simp [held]

/-- A mark that is not one too many. -/
theorem passes_mark (h : run + 1 ≤ q.limit) : q.Passes run [q.quote.mark] (run + 1) := by
  intro _
  have hm : q.multiline = true := by
    cases hm : q.multiline with
    | false => simp [limit, hm] at h
    | true => rfl
  have hfew : run ≠ 4 := by
    have hlimit : run + 1 ≤ 2 := by simpa [limit, hm] using h
    omega
  refine ⟨h, fun read => ⟨read, ?_, ?_⟩⟩
  · have hstep : (q.inText run read).step q.quote.mark = some ([], q.inText (run + 1) read) := by
      simp [inText, hm, Mode.step, blockChar, hfew]
    exact Mode.run_cons hstep rfl
  · simp [held, List.replicate_succ']

/-- A backslash and the character that it escapes. -/
theorem passes_pair {m : Bool} (hbreak : c ≠ '\n') :
    Passes ⟨.double, m⟩ run ['\\', c] 0 := by
  intro hrun
  refine ⟨Nat.zero_le _, fun read => ⟨c :: '\\' :: (List.replicate run '"' ++ read), ?_, ?_⟩⟩
  · cases m with
    | false =>
      have hzero : run = 0 := Nat.le_zero.1 hrun
      subst hzero
      have hslash : (Mode.line .double read).step '\\' = some ([], .lineEscape ('\\' :: read)) :=
        rfl
      have hstep : (Mode.lineEscape ('\\' :: read)).step c =
          some ([], .line .double (c :: '\\' :: read)) := by
        simp [Mode.step, hbreak]
      exact Mode.run_cons hslash (Mode.run_cons hstep rfl)
    | true =>
      have hfew : ¬ 3 ≤ run := by
        have hlimit : run ≤ 2 := hrun
        omega
      have hslash : (Mode.block .double run read).step '\\' =
          some ([], .blockEscape ('\\' :: (List.replicate run '"' ++ read))) := by
        simp [Mode.step, blockChar, hfew, Quote.mark]
      have hstep : (Mode.blockEscape ('\\' :: (List.replicate run '"' ++ read))).step c =
          some ([], .block .double 0 (c :: '\\' :: (List.replicate run '"' ++ read))) := rfl
      exact Mode.run_cons hslash (Mode.run_cons hstep rfl)
  · simp [held, Quote.mark]

/-- Characters of unquoted keys are read as they are. -/
theorem passes_keyChars (h : cs.all isKeyChar = true) : q.Passes 0 cs 0 := by
  induction cs with
  | nil => exact Passes.nil q 0
  | cons c cs ih =>
    rw [List.all_cons, Bool.and_eq_true] at h
    have hmark : c ≠ q.quote.mark := by
      cases q.quote <;> exact ne_of_isKeyChar h.1 rfl
    have hc : q.Passes 0 [c] 0 :=
      passes_char hmark (fun _ => ne_of_isKeyChar h.1 rfl) fun _ => ne_of_isKeyChar h.1 rfl
    exact hc.append (ih h.2)

/-- What is written for a character, with its escape. -/
theorem passes_escapeChar {m : Bool} (hc : c ≠ '"') :
    Passes ⟨.double, m⟩ run (escapeChar m c) 0 := by
  unfold escapeChar
  split
  · exact passes_pair (by decide)
  · exact passes_pair (by decide)
  · cases m with
    | false => exact passes_pair (by decide)
    | true =>
      apply passes_char
      · decide
      · decide
      · exact fun hm => Bool.noConfusion hm
  · exact passes_pair (by decide)
  · exact passes_pair (by decide)
  · exact passes_pair (by decide)
  · rename_i hbreak _ _ hslash
    split
    · rename_i hcontrol
      have hu : Passes ⟨.double, m⟩ run ['\\', 'u'] 0 := passes_pair (by decide)
      have hdigits : Passes ⟨.double, m⟩ 0 (Digits.upperHex 4 c.toNat) 0 :=
        passes_keyChars (upperHex_keyChars (toNat_lt_of_isControl hcontrol))
      exact hu.append hdigits
    · exact passes_char hc (fun _ => hslash) fun _ => hbreak

/-- Escaped text, after marks of its own. By induction on the text: the marks
that `escape` counts are the ones that scanning holds back. -/
theorem passes_escape (m : Bool) (run : Nat) (cs : List Char) :
    ∃ after, Passes ⟨.double, m⟩ run (escape m run cs) after := by
  induction cs generalizing run with
  | nil => exact ⟨run, Passes.nil _ run⟩
  | cons c cs ih =>
    rw [escape]
    split
    · by_cases hrun : (if m then 2 else 0) < run + 1
      · obtain ⟨after, hrest⟩ := ih 0
        have hpair : Passes ⟨.double, m⟩ run ['\\', '"'] 0 := passes_pair (by decide)
        rw [if_pos hrun]
        exact ⟨after, hpair.append hrest⟩
      · obtain ⟨after, hrest⟩ := ih (run + 1)
        rw [if_neg hrun]
        have hmark : Passes ⟨.double, m⟩ run ['"'] (run + 1) := passes_mark (Nat.not_lt.1 hrun)
        exact ⟨after, hmark.append hrest⟩
    · rename_i hc
      obtain ⟨after, hrest⟩ := ih 0
      exact ⟨after, (passes_escapeChar hc).append hrest⟩

theorem le_longestRun (mark : Char) (run : Nat) (cs : List Char) :
    run ≤ longestRun mark run cs := by
  induction cs generalizing run with
  | nil => exact Nat.le_refl run
  | cons c cs ih =>
    rw [longestRun]
    split
    · exact Nat.le_of_succ_le (ih (run + 1))
    · exact Nat.le_max_left _ _

/-- A text between single marks, none of whose runs of them is too long. -/
theorem passes_of_longestRun {m : Bool} (hbreak : m = false → '\n' ∉ cs)
    (h : longestRun '\'' run cs ≤ limit ⟨.single, m⟩) :
    ∃ after, Passes ⟨.single, m⟩ run cs after := by
  induction cs generalizing run with
  | nil => exact ⟨run, Passes.nil _ run⟩
  | cons c cs ih =>
    have hrest : m = false → '\n' ∉ cs := fun hm hn => hbreak hm (List.mem_cons_of_mem _ hn)
    rw [longestRun] at h
    split at h
    · rename_i hc
      subst hc
      obtain ⟨after, hcs⟩ := ih hrest h
      have hlimit : run + 1 ≤ limit ⟨.single, m⟩ := Nat.le_trans (le_longestRun _ _ cs) h
      have hmark : Passes ⟨.single, m⟩ run ['\''] (run + 1) := passes_mark hlimit
      exact ⟨after, hmark.append hcs⟩
    · rename_i hc
      obtain ⟨after, hcs⟩ := ih hrest (Nat.le_trans (Nat.le_max_right _ _) h)
      have hchar : Passes ⟨.single, m⟩ run [c] 0 :=
        passes_char hc (fun hq => Quote.noConfusion hq)
          fun hm hn => hbreak hm (hn ▸ List.mem_cons_self)
      exact ⟨after, hchar.append hcs⟩

/-! ## From mark to mark -/

theorem run_marks_line (quote : Quote) (read : List Char) :
    (Mode.line quote read).run [quote.mark, '\n'] =
      some ([.text ⟨quote, false⟩ read.reverse, .newline], .between) := by
  cases quote <;> rfl

/-- With marks of its own before them, five side by side end a text at once. -/
theorem run_marks_block (quote : Quote) {run : Nat} (h : run ≤ 2) (read : List Char) :
    (Mode.block quote run read).run (List.replicate 3 quote.mark ++ ['\n']) =
      some ([.text ⟨quote, true⟩ (read.reverse ++ List.replicate run quote.mark), .newline],
        .between) := by
  have hcases : run = 0 ∨ run = 1 ∨ run = 2 := by omega
  rcases hcases with rfl | rfl | rfl <;> cases quote <;> rfl

/-- The marks that end a text, at the end of a line. -/
theorem run_marks (h : run ≤ q.limit) (read : List Char) :
    (q.inText run read).run (q.marks ++ ['\n']) =
      some ([.text q (q.held run read), .newline], .between) := by
  obtain ⟨quote, multiline⟩ := q
  cases multiline with
  | false =>
    have hzero : run = 0 := Nat.le_zero.1 h
    subst hzero
    have hend := run_marks_line quote read
    rwa [← List.append_nil read.reverse] at hend
  | true => exact run_marks_block quote h read

/-- What stands between the marks, with the marks after it. -/
theorem run_body (h : q.Passes 0 cs after) :
    (q.inText 0 []).run (cs ++ q.marks ++ ['\n']) = some ([.text q cs, .newline], .between) := by
  obtain ⟨hafter, h⟩ := h (Nat.zero_le _)
  obtain ⟨read, hcs, hheld⟩ := h []
  have hend := run_marks hafter read
  rw [hheld] at hend
  rw [List.append_assoc]
  exact Mode.run_append hcs hend

/-- Three marks after blanks begin a text of several lines. -/
theorem run_marks_begin (quote : Quote) (blanks : List Char) :
    (Mode.blank blanks).run (List.replicate 3 quote.mark) =
      some ([.blank blanks.reverse], .block quote 0 []) := by
  cases quote <;> rfl

/-- One mark after blanks begins a text on one line, unless another mark
stands next to it. -/
theorem run_mark_begin (quote : Quote) (blanks : List Char) {c : Char} (hc : c ≠ quote.mark)
    (h : (Mode.line quote []).run (c :: cs) = some (ts, last)) :
    (Mode.blank blanks).run (quote.mark :: c :: cs) = some (.blank blanks.reverse :: ts, last) := by
  have hstep : (Mode.opening quote).step c = (Mode.line quote []).step c := by
    simp [Mode.step, hc]
  have hline : (Mode.opening quote).run (c :: cs) = some (ts, last) := by
    rwa [Mode.run, hstep]
  have hmark : (Mode.blank blanks).step quote.mark =
      some ([.blank blanks.reverse], .opening quote) := by
    cases quote <;> rfl
  exact Mode.run_cons hmark hline

/-- A text that begins after blanks. On one line, the first character after
the mark must not be the mark again. -/
theorem run_quoted (h : q.Passes 0 cs after)
    (hhead : q.multiline = false → cs.head? ≠ some q.quote.mark) (blanks : List Char) :
    (Mode.blank blanks).run (q.marks ++ cs ++ q.marks ++ ['\n']) =
      some ([.blank blanks.reverse, .text q cs, .newline], .between) := by
  have hbody := run_body h
  obtain ⟨quote, multiline⟩ := q
  cases multiline with
  | false =>
    cases cs with
    | nil => cases quote <;> rfl
    | cons c cs =>
      have hc : c ≠ quote.mark := fun hc => hhead rfl (congrArg some hc)
      exact run_mark_begin quote blanks hc hbody
  | true =>
    rw [List.append_assoc, List.append_assoc, ← List.append_assoc cs]
    exact Mode.run_append (run_marks_begin quote blanks) hbody

/-! ## The chosen quotation -/

/-- Single marks are chosen for text that stands between them as it is. -/
theorem of_choose_single {m : Bool} (h : choose cs = ⟨.single, m⟩) :
    cs.any isControl = false ∧ longestRun '\'' 0 cs ≤ limit ⟨.single, m⟩ ∧
      (m = false → '\n' ∉ cs) := by
  simp only [choose] at h
  split at h
  · cases h
  split at h
  · rename_i hc
    cases h
    simp only [Bool.and_eq_true, Bool.not_eq_true', decide_eq_true_eq] at hc
    obtain ⟨⟨hcontrol, hrun⟩, hbreak⟩ := hc
    refine ⟨hcontrol, Nat.le_of_eq hrun, fun _ hn => ?_⟩
    rw [List.contains_iff_mem.2 hn] at hbreak
    cases hbreak
  split at h
  · cases h
  split at h
  · rename_i hc
    cases h
    simp only [Bool.and_eq_true, Bool.not_eq_true', decide_eq_true_eq] at hc
    exact ⟨hc.1, hc.2, fun hm => Bool.noConfusion hm⟩
  · cases h

theorem passes_body (cs : List Char) :
    ∃ after, (choose cs).Passes 0 ((choose cs).break? cs ++ (choose cs).body cs) after := by
  have hbreak : (choose cs).Passes 0 ((choose cs).break? cs) 0 := by
    unfold break?
    split
    · rename_i h
      have hm : (choose cs).multiline = true := (Bool.and_eq_true_iff.1 h).1
      apply passes_char
      · cases (choose cs).quote <;> decide
      · exact fun _ => by decide
      · simp [hm]
    · exact Passes.nil _ 0
  have hbody : ∃ after, (choose cs).Passes 0 ((choose cs).body cs) after := by
    rcases hq : choose cs with ⟨_ | _, m⟩
    · exact passes_escape m 0 cs
    · obtain ⟨-, hrun, hline⟩ := of_choose_single hq
      exact passes_of_longestRun hline hrun
  obtain ⟨after, hbody⟩ := hbody
  exact ⟨after, hbreak.append hbody⟩

theorem head?_escape (cs : List Char) : (escape false 0 cs).head? ≠ some '"' := by
  have hslash : some '\\' ≠ some '"' := by decide
  cases cs with
  | nil => exact nofun
  | cons c cs =>
    rw [escape]
    split
    · exact hslash
    · rename_i hc
      unfold escapeChar
      split
      · exact hslash
      · exact hslash
      · exact hslash
      · exact hslash
      · exact hslash
      · exact hslash
      · split
        · exact hslash
        · exact fun hs => hc (Option.some.inj hs)

theorem head?_of_longestRun {mark : Char} (h : longestRun mark 0 cs = 0) :
    cs.head? ≠ some mark := by
  cases cs with
  | nil => exact nofun
  | cons c cs =>
    intro hc
    have hrun : 0 < longestRun mark (0 + 1) cs := le_longestRun mark (0 + 1) cs
    rw [longestRun, if_pos (Option.some.inj hc)] at h
    exact Nat.ne_of_gt hrun h

/-- On one line, what stands between the marks does not begin with one. -/
theorem head?_body (hm : (choose cs).multiline = false) :
    ((choose cs).break? cs ++ (choose cs).body cs).head? ≠ some (choose cs).quote.mark := by
  have hbreak : (choose cs).break? cs = [] := by
    simp [break?, hm]
  rw [hbreak, List.nil_append]
  rcases hq : choose cs with ⟨_ | _, m⟩
  · rw [hq] at hm
    cases hm
    exact head?_escape cs
  · rw [hq] at hm
    cases hm
    obtain ⟨-, hrun, -⟩ := of_choose_single hq
    exact head?_of_longestRun (Nat.le_zero.1 hrun)

/-- A text that was quoted, after blanks and at the end of a line: one token
that spells it. -/
theorem run_write (s : String) (blanks : List Char) :
    ∃ q raw, q.decode? raw = some s ∧ (Mode.blank blanks).run (write s ++ ['\n']) =
      some ([.blank blanks.reverse, .text q raw, .newline], .between) := by
  obtain ⟨after, hpasses⟩ := passes_body s.toList
  have hspelt := decode?_body (choose s.toList) s.toList
  have hrun := run_quoted hpasses head?_body blanks
  rw [String.ofList_toList] at hspelt
  rw [← List.append_assoc (choose s.toList).marks, ← wrap_eq] at hrun
  exact ⟨_, _, hspelt, hrun⟩

end Quotation

/-! ## Characters of quoted text -/

theorem isAllowed_iff_not_isControl {c : Char} : isAllowed c = true ↔ isControl c = false := by
  by_cases htab : c = '\t'
  · subst htab
    decide
  by_cases hbreak : c = '\n'
  · subst hbreak
    decide
  by_cases hdel : c = '\x7f'
  · subst hdel
    decide
  simp [isAllowed, isControl, htab, hbreak, hdel]

theorem all_isAllowed_append {cs ds : List Char} (h : cs.all isAllowed = true)
    (h' : ds.all isAllowed = true) : (cs ++ ds).all isAllowed = true := by
  rw [List.all_append, h, h']
  rfl

theorem upperHex_allowed {n : Nat} (h : n < 128) :
    (Digits.upperHex 4 n).all isAllowed = true := by
  revert h n
  decide +kernel

theorem all_isAllowed_escapeChar (m : Bool) (c : Char) :
    (escapeChar m c).all isAllowed = true := by
  unfold escapeChar
  split
  · rfl
  · rfl
  · cases m <;> rfl
  · rfl
  · rfl
  · rfl
  · split
    · rename_i hc
      exact upperHex_allowed (toNat_lt_of_isControl hc)
    · rename_i hc
      rw [List.all_cons, isAllowed_iff_not_isControl.2 (Bool.eq_false_iff.2 hc)]
      rfl

theorem all_isAllowed_escape (m : Bool) (run : Nat) (cs : List Char) :
    (escape m run cs).all isAllowed = true := by
  induction cs generalizing run with
  | nil => rfl
  | cons c cs ih =>
    rw [escape]
    split
    · by_cases hrun : (if m then 2 else 0) < run + 1
      · rw [if_pos hrun]
        exact ih 0
      · rw [if_neg hrun]
        exact ih (run + 1)
    · exact all_isAllowed_append (all_isAllowed_escapeChar m c) (ih 0)

/-- Quoted text holds no character that may not stand in a document. -/
theorem all_isAllowed_write (s : String) : (Quotation.write s).all isAllowed = true := by
  have hmarks : ∀ q : Quotation, q.marks.all isAllowed = true := by
    rintro ⟨_ | _, _ | _⟩ <;> rfl
  have hbreak : ∀ q : Quotation, (q.break? s.toList).all isAllowed = true := by
    intro q
    unfold Quotation.break?
    split <;> rfl
  have hbody : ((Quotation.choose s.toList).body s.toList).all isAllowed = true := by
    rcases hq : Quotation.choose s.toList with ⟨_ | _, m⟩
    · exact all_isAllowed_escape m 0 s.toList
    · obtain ⟨hcontrol, -, -⟩ := Quotation.of_choose_single hq
      rw [List.any_eq_false] at hcontrol
      rw [Quotation.body, List.all_eq_true]
      exact fun c hc => isAllowed_iff_not_isControl.2 (Bool.eq_false_iff.2 (hcontrol c hc))
  rw [Quotation.write, Quotation.wrap_eq]
  exact all_isAllowed_append (all_isAllowed_append (all_isAllowed_append (hmarks _) (hbreak _))
    hbody) (hmarks _)

end HotspotBackup.Toml
