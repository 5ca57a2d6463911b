import HotspotBackup.Proofs.Cursors
import HotspotBackup.Proofs.WirePrograms

/-!
# What reads consume

A read that finds something consumes the size of what it found
(`exists_of_reader_eq_ok`), and one that fails consumes what it refuses:
nothing, a word or a length, or a text with its length (`Refuses`). A read is
refused in one of these ways or finds something (`refuses_or_found`), so that
they are all the failures there are (`reader_eq_error_iff`).

`steps_accounted` says this of every read of a program that goes on after its
failures, read by read with the cursors of `Cursors`: none of them is stopped for
taking octets that are not there.
-/

namespace HotspotBackup.Wire

open Reader

/-! ## What is found -/

/-- The octets that are written for what was found. -/
def Found.octets : Found → Bytes
  | i32 n => Wire.i32 n
  | u32 n => Wire.u32 n
  | u64 n => Wire.u64 n
  | flag b => Wire.flag b
  | length n => Wire.length n
  | text s => Wire.text? s
  | addresses macs => Wire.addresses macs
  | finish => []

theorem length_of_spellsText {s : Option String} {e : Bytes} (h : SpellsText s e) :
    e.length = (Wire.text? s).length := by
  cases s with
  | none =>
    rw [SpellsText, ← absent_eq] at h
    rw [h, Wire.text?]
  | some s =>
    obtain ⟨n, raw, -, -, hraw, rfl⟩ := h
    rw [Wire.text?, hraw, List.length_append, List.length_append, length_length,
      Bytes.length_ofNat]

theorem length_of_spellsFlag {b : Bool} {e : Bytes} (h : SpellsFlag b e) : e.length = 1 := by
  obtain ⟨octet, rfl, -⟩ := h
  rfl

theorem length_of_spellsAddresses {macs : List MacAddress} {e : Bytes}
    (h : SpellsAddresses macs e) : e.length = (Wire.addresses macs).length := by
  obtain ⟨-, rfl⟩ := h
  rw [Wire.addresses, List.length_append, List.length_append, length_length, Bytes.length_ofNat]

section

variable {request : Request} {found : Found} {b rest : Bytes}

theorem exists_of_recognizes {r : Reader α} {E : α → Bytes → Prop} (hr : Recognizes r E)
    (f : α → Found) (hsize : ∀ a e, E a e → e.length = (f a).octets.length)
    (h : (f <$> r) b = (.ok found, rest)) :
    ∃ e, b = e ++ rest ∧ e.length = found.octets.length := by
  obtain ⟨e, ⟨a, he, rfl⟩, rfl⟩ := (hr.map f).sound h
  exact ⟨e, rfl, hsize a e he⟩

/-- A read that finds something consumes as many octets as are written for it. -/
theorem exists_of_reader_eq_ok (h : request.reader b = (.ok found, rest)) :
    ∃ e, b = e ++ rest ∧ e.length = found.octets.length := by
  cases request with
  | i32 field =>
    exact exists_of_recognizes (recognizes_i32 field) .i32
      (fun v e he => by rw [he, Found.octets, length_i32, Bytes.length_ofNat]) h
  | u32 field =>
    exact exists_of_recognizes (recognizes_u32 field) .u32
      (fun v e he => by rw [he, Found.octets, length_u32, Bytes.length_ofNat]) h
  | u64 field =>
    exact exists_of_recognizes (recognizes_u64 field) .u64
      (fun v e he => by rw [he, Found.octets, length_u64, Bytes.length_ofNat]) h
  | flag field =>
    exact exists_of_recognizes (recognizes_flag field) .flag
      (fun v e he => length_of_spellsFlag he) h
  | nonNegative field =>
    exact exists_of_recognizes (recognizes_nonNegative field) .u32
      (fun v e he => by rw [he.2, Found.octets, length_u32, Bytes.length_ofNat]) h
  | length field size =>
    obtain ⟨n, s, hcount, hfound⟩ := exists_of_bind_eq_ok h
    obtain ⟨-, -, -, rfl⟩ := exists_of_count_eq_ok hcount
    cases hfound
    exact ⟨_, rfl, by rw [Found.octets, length_length, Bytes.length_ofNat]⟩
  | text field =>
    exact exists_of_recognizes (recognizes_text? field) .text
      (fun v e he => length_of_spellsText he) h
  | addresses field =>
    exact exists_of_recognizes (recognizes_addresses field) .addresses
      (fun v e he => length_of_spellsAddresses he) h
  | finish =>
    obtain ⟨u, s, hend, hfound⟩ := exists_of_bind_eq_ok h
    unfold Reader.finish at hend
    split at hend
    · cases hend
      cases hfound
      exact ⟨[], rfl, rfl⟩
    · cases hend

end

/-! ## What is refused -/

namespace Request

/-- The field that the failure of a read names. The end has no name. -/
def field : Request → String
  | i32 field | u32 field | u64 field | flag field | nonNegative field | length field _
  | text field | addresses field => field
  | finish => ""

/-- The octets without which nothing is read: those of a word or a flag, or of the
length in front. -/
def width : Request → Nat
  | i32 _ | u32 _ | nonNegative _ | length .. | text _ | addresses _ => 4
  | u64 _ => 8
  | flag _ => 1
  | finish => 0

/-- The size of the elements that are counted in front, if any are. -/
def elementSize? : Request → Option Nat
  | length _ size => some size
  | text _ => some 1
  | addresses _ => some 6
  | i32 _ | u32 _ | u64 _ | flag _ | nonNegative _ | finish => none

end Request

/-- A read refuses the octets `b`, for a cause, and consumes `n` of them:

* nothing where a word, a flag or the length in front is cut short, nor at the end;
* the four octets of a number that must not be negative, and of a length that is
  negative (the mark of an absent text is none), that counts more octets than can
  be addressed, or more than follow;
* a text that is not well formed, with its length. -/
inductive Refuses : Request → Bytes → Malformation → Nat → Prop
  | cut {request : Request} {b : Bytes} : b.length < request.width →
    Refuses request b (.truncated request.field request.width b.length) 0
  | negative {field : String} {v : Int32} {rest : Bytes} : v < 0 →
    Refuses (.nonNegative field) (i32 v ++ rest) (.negative field v.toInt) 4
  | negativeLength {request : Request} {size : Nat} {v : Int32} {rest : Bytes} :
    request.elementSize? = some size → v < 0 → (request = .text request.field → v ≠ -1) →
      Refuses request (i32 v ++ rest) (.negativeLength request.field v.toInt) 4
  | overflow {request : Request} {size n : Nat} {rest : Bytes} :
    request.elementSize? = some size → n ≤ maxStoredNumber → addressable ≤ n * size →
      Refuses request (Bytes.ofNat 4 n ++ rest) (.lengthOverflow request.field n) 4
  | lacking {request : Request} {size n : Nat} {rest : Bytes} :
    request.elementSize? = some size → n ≤ maxStoredNumber → n * size < addressable →
      rest.length < n * size → Refuses request (Bytes.ofNat 4 n ++ rest)
        (.truncated request.field (n * size) rest.length) 4
  | badText {field : String} {raw rest : Bytes} {fault : Utf8.Fault} :
    raw.length ≤ maxStoredNumber → Utf8.decode raw = .error fault →
      Refuses (.text field) (Bytes.ofNat 4 raw.length ++ (raw ++ rest)) (.badText field fault)
        (4 + raw.length)
  | leftOver {b : Bytes} : b ≠ [] → Refuses .finish b (.trailing b.length) 0

section

variable {request : Request} {cause : Malformation} {b rest : Bytes} {size taken : Nat}

theorem drop_i32 (v : Int32) (rest : Bytes) : (i32 v ++ rest).drop 4 = rest :=
  List.drop_left' (length_i32 v)

theorem drop_ofNat (n : Nat) (rest : Bytes) : (Bytes.ofNat 4 n ++ rest).drop 4 = rest :=
  List.drop_left' (Bytes.length_ofNat 4 n)

/-- A word other than `-1` is not the mark of an absent text. -/
theorem i32_ne_absent {v : Int32} (h : v ≠ -1) : i32 v ≠ absent := by
  intro heq
  have hsame : i32 v ++ [] = i32 (-1) ++ [] := by rw [heq, absent]
  exact h ((recognizes_i32 "").unique rfl rfl hsame).1

/-- A read in front of which a length is refused. -/
theorem reader_of_count_error (hs : request.elementSize? = some size) (hb : ¬ b.length < 4)
    (hmark : request = .text request.field → b.take 4 ≠ absent)
    (h : count request.field size b = (.error cause, rest)) :
    request.reader b = (.error cause, rest) := by
  cases request with
  | length field size' =>
    cases hs
    exact bind_error h
  | addresses field =>
    cases hs
    exact bind_error (bind_error h)
  | text field =>
    cases hs
    have ht : Reader.text? field b = (some <$> Reader.text field) b := by
      rw [Reader.text?, if_neg hb, if_neg (hmark rfl)]
    exact bind_error (ht.trans (bind_error (bind_error h)))
  | i32 _ | u32 _ | u64 _ | flag _ | nonNegative _ | finish => cases hs

/-- Octets are cut short in front of the first one. -/
theorem reader_of_short (h : b.length < request.width) : request.reader b =
    (.error (.truncated request.field request.width b.length), b) := by
  have hu32 (field : String) (h : b.length < 4) :
      Reader.u32 field b = (.error (.truncated field 4 b.length), b) := bind_error (if_pos h)
  cases request with
  | i32 field => exact bind_error (bind_error (hu32 field h))
  | u32 field => exact bind_error (hu32 field h)
  | u64 field => exact bind_error (bind_error (if_pos h))
  | flag field => exact bind_error (bind_error (if_pos h))
  | nonNegative field => exact bind_error (bind_error (bind_error (hu32 field h)))
  | length field size => exact bind_error (bind_error (bind_error (hu32 field h)))
  | text field => exact bind_error (if_pos h)
  | addresses field => exact bind_error (bind_error (bind_error (bind_error (hu32 field h))))
  | finish => exact absurd h (Nat.not_lt_zero _)

/-- What the octets of a text are read as that all follow their length. -/
theorem text?_counted (field : String) {raw : Bytes} (hn : raw.length ≤ maxStoredNumber)
    (rest : Bytes) : Reader.text? field (Bytes.ofNat 4 raw.length ++ (raw ++ rest)) =
      match Utf8.decode raw with
      | .ok s => (.ok (some s), rest)
      | .error fault => (.error (.badText field fault), rest) := by
  have hcount : count field 1 (Bytes.ofNat 4 raw.length ++ (raw ++ rest)) =
      (.ok raw.length, raw ++ rest) := by
    rw [count_word field hn (Nat.lt_of_le_of_lt (Nat.mul_le_mul_right 1 hn) (by decide)),
      if_neg (by rw [List.length_append]; omega)]
  have hraw : octets field raw.length (raw ++ rest) = (.ok raw, rest) :=
    (Recognizes.octets field raw.length).complete rest ⟨rfl, rfl⟩
  rw [text?_word field hn]
  cases hdecode : Utf8.decode raw with
  | ok s =>
    refine bind_ok ((bind_ok hcount).trans ((bind_ok hraw).trans ?_))
    rw [hdecode]
    rfl
  | error fault =>
    refine bind_error ((bind_ok hcount).trans ((bind_ok hraw).trans ?_))
    rw [hdecode]
    rfl

/-- A read fails as it refuses its octets. -/
theorem reader_of_refuses (h : Refuses request b cause taken) :
    request.reader b = (.error cause, b.drop taken) := by
  have long (n : Nat) (rest : Bytes) : ¬ (Bytes.ofNat 4 n ++ rest).length < 4 := by simp
  have unmarked {n : Nat} (hn : n ≤ maxStoredNumber) (rest : Bytes) :
      (Bytes.ofNat 4 n ++ rest).take 4 ≠ absent := by
    rw [List.take_left' (Bytes.length_ofNat 4 n)]
    exact ofNat_ne_absent hn
  cases h with
  | cut hcut => exact reader_of_short hcut
  | @negative field v rest hv =>
    rw [drop_i32]
    refine bind_error ((bind_ok (i32_append field v rest)).trans ?_)
    rw [if_pos hv]
    rfl
  | @negativeLength request size v rest hs hv hmark =>
    rw [drop_i32]
    refine reader_of_count_error hs (by simp) (fun ht => ?_) (count_of_negative _ size hv rest)
    rw [List.take_left' (length_i32 v)]
    exact i32_ne_absent (hmark ht)
  | @overflow request size n rest hs hn hover =>
    rw [drop_ofNat]
    refine reader_of_count_error hs (long n rest) (fun _ => unmarked hn rest) ?_
    rw [count_number _ hn, if_pos hover]
  | @lacking request size n rest hs hn hsize hless =>
    rw [drop_ofNat]
    refine reader_of_count_error hs (long n rest) (fun _ => unmarked hn rest) ?_
    rw [count_word _ hn hsize, if_pos hless]
  | @badText field raw rest fault hn hbad =>
    have hdrop : (Bytes.ofNat 4 raw.length ++ (raw ++ rest)).drop (4 + raw.length) = rest := by
      rw [← List.drop_drop, drop_ofNat, List.drop_left]
    rw [hdrop]
    refine bind_error ?_
    rw [text?_counted field hn, hbad]
  | leftOver hb =>
    refine bind_error ?_
    rw [Reader.finish, if_neg (fun hl => hb (List.length_eq_zero_iff.1 hl))]
    rfl

/-! ## There is nothing else to refuse -/

/-- As many octets as some addresses have are addresses. -/
theorem exists_replicate_address (field : String) (n : Nat) (h : n * 6 ≤ b.length) :
    ∃ macs rest, replicate n (address field) b = (.ok macs, rest) := by
  induction n generalizing b with
  | zero => exact ⟨[], b, rfl⟩
  | succ n ih =>
    obtain ⟨m, s, rfl⟩ := exists_octets (b := b) (by omega)
    rw [List.length_append, MacAddress.length_octets] at h
    obtain ⟨macs, rest, hrest⟩ := ih (b := s) (by omega)
    have hfirst : address field (m.octets ++ s) = (.ok m, s) :=
      (recognizes_address field).complete s rfl
    exact ⟨m :: macs, rest, (bind_ok hfirst).trans (bind_ok hrest)⟩

variable (request) in
/-- The length in front is refused, or as many octets as it counts follow it. -/
theorem refuses_or_counts (hs : request.elementSize? = some size) {v : Int32}
    (hmark : request = .text request.field → v ≠ -1) (rest : Bytes) :
    (∃ cause, Refuses request (i32 v ++ rest) cause 4) ∨
      ∃ n, i32 v = Bytes.ofNat 4 n ∧ n ≤ maxStoredNumber ∧ n * size ≤ rest.length ∧
        count request.field size (i32 v ++ rest) = (.ok n, rest) := by
  by_cases hv : v < 0
  · exact .inl ⟨_, .negativeLength hs hv hmark⟩
  have hn : v.toUInt32.toNat ≤ maxStoredNumber := by
    rw [negative_iff] at hv
    omega
  have hword : i32 v = Bytes.ofNat 4 v.toUInt32.toNat := rfl
  rw [hword]
  by_cases hover : addressable ≤ v.toUInt32.toNat * size
  · exact .inl ⟨_, .overflow hs hn hover⟩
  by_cases hless : rest.length < v.toUInt32.toNat * size
  · exact .inl ⟨_, .lacking hs hn (Nat.not_le.1 hover) hless⟩
  refine .inr ⟨_, rfl, hn, Nat.not_lt.1 hless, ?_⟩
  rw [count_number _ hn, if_neg hover, if_neg hless]

/-- A read refuses its octets, or it finds something in them. -/
theorem refuses_or_found (request : Request) (b : Bytes) :
    (∃ cause taken, Refuses request b cause taken) ∨
      ∃ found rest, request.reader b = (.ok found, rest) := by
  by_cases hcut : b.length < request.width
  · exact .inl ⟨_, _, .cut hcut⟩
  have octets_ok (field : String) {need : Nat} (h : ¬ b.length < need) :
      octets field need b = (.ok (b.take need), b.drop need) := if_neg h
  cases request with
  | i32 field => exact .inr ⟨_, _, bind_ok (bind_ok (bind_ok (octets_ok field hcut)))⟩
  | u32 field => exact .inr ⟨_, _, bind_ok (bind_ok (octets_ok field hcut))⟩
  | u64 field => exact .inr ⟨_, _, bind_ok (bind_ok (octets_ok field hcut))⟩
  | flag field => exact .inr ⟨_, _, bind_ok (bind_ok (octets_ok field hcut))⟩
  | nonNegative field =>
    obtain ⟨v, rest, rfl⟩ := exists_word hcut
    by_cases hv : v < 0
    · exact .inl ⟨_, _, .negative hv⟩
    · refine .inr ⟨.u32 v.toUInt32, rest, bind_ok ((bind_ok (i32_append field v rest)).trans ?_)⟩
      rw [if_neg hv]
      rfl
  | length field size =>
    obtain ⟨v, rest, rfl⟩ := exists_word hcut
    obtain ⟨cause, hc⟩ | ⟨n, -, -, -, hcount⟩ :=
      refuses_or_counts (.length field size) rfl (fun h => nomatch h) rest
    · exact .inl ⟨cause, 4, hc⟩
    · exact .inr ⟨.length n, rest, bind_ok hcount⟩
  | addresses field =>
    obtain ⟨v, rest, rfl⟩ := exists_word hcut
    obtain ⟨cause, hc⟩ | ⟨n, -, -, hle, hcount⟩ :=
      refuses_or_counts (.addresses field) rfl (fun h => nomatch h) rest
    · exact .inl ⟨cause, 4, hc⟩
    · obtain ⟨macs, rest', hmacs⟩ := exists_replicate_address field n hle
      exact .inr ⟨.addresses macs, rest', bind_ok ((bind_ok hcount).trans hmacs)⟩
  | text field =>
    obtain ⟨v, rest, rfl⟩ := exists_word hcut
    by_cases hv : v = -1
    · subst hv
      exact .inr ⟨.text none, rest, bind_ok ((recognizes_text? field).complete rest absent_eq)⟩
    obtain ⟨cause, hc⟩ | ⟨n, hword, hn, hle, hcount⟩ :=
      refuses_or_counts (.text field) rfl (fun _ => hv) rest
    · exact .inl ⟨cause, 4, hc⟩
    rw [Nat.mul_one] at hle
    -- The length counts the octets `raw`, whatever they spell.
    obtain ⟨raw, rest, rfl, rfl⟩ : ∃ raw s, rest = raw ++ s ∧ raw.length = n :=
      ⟨rest.take n, rest.drop n, (List.take_append_drop n rest).symm, List.length_take_of_le hle⟩
    rw [hword]
    cases hraw : Utf8.decode raw with
    | error fault => exact .inl ⟨_, _, .badText hn hraw⟩
    | ok s =>
      have hfound := text?_counted field hn rest
      rw [hraw] at hfound
      exact .inr ⟨.text (some s), rest, bind_ok hfound⟩
  | finish =>
    by_cases hb : b = []
    · subst hb
      exact .inr ⟨.finish, [], rfl⟩
    · exact .inl ⟨_, _, .leftOver hb⟩

/-- The failures of a read, and what it leaves then, are those of the octets that it
refuses. -/
theorem reader_eq_error_iff : request.reader b = (.error cause, rest) ↔
    ∃ taken, Refuses request b cause taken ∧ rest = b.drop taken := by
  refine ⟨fun h => ?_, fun h => ?_⟩
  · obtain ⟨cause', taken, hrefuses⟩ | ⟨found, rest', hfound⟩ := refuses_or_found request b
    · rw [reader_of_refuses hrefuses] at h
      cases h
      exact ⟨taken, hrefuses, rfl⟩
    · rw [hfound] at h
      cases h
  · obtain ⟨taken, hrefuses, rfl⟩ := h
    exact reader_of_refuses hrefuses

/-- What a read leaves is an end of what it was given. -/
theorem reader_suffix (request : Request) (b : Bytes) : (request.reader b).2 <:+ b := by
  rcases hr : request.reader b with ⟨answer, rest⟩
  cases answer with
  | ok found =>
    obtain ⟨e, rfl, -⟩ := exists_of_reader_eq_ok hr
    exact List.suffix_append e rest
  | error cause =>
    obtain ⟨taken, -, rfl⟩ := reader_eq_error_iff.1 hr
    exact List.drop_suffix taken b

end

/-! ## Programs of reads -/

/-- One read of a program, with the octets in front of it and the walk of its cursor. -/
structure Step where
  request : Request
  before : Bytes
  walk : Walk Found

/-- The reads of a program, of which each goes on where the last one left off, up to
one that is stopped. -/
def Request.steps : List Request → Bytes → List Step
  | [], _ => []
  | request :: requests, b =>
    ⟨request, b, request.cursor b⟩ ::
      match (request.cursor b).outcome with
      | some (_, rest) => steps requests rest
      | none => []

/-- What holds of a read of a program on the octets `b`, with its answer and what is
left after it. -/
structure Accounted (b : Bytes) (step : Step) (answer : Except Malformation Found)
    (rest : Bytes) : Prop where
  outcome : step.walk.outcome = some (answer, rest)
  /-- No octets are taken that are not there. -/
  covered : ∀ e ∈ step.walk.events, e.Covered
  before : step.before <:+ b
  after : rest <:+ step.before
  /-- What is found is consumed. -/
  found : ∀ v, answer = .ok v → step.before.length = v.octets.length + rest.length
  /-- A failure consumes what it refuses, and these are all the failures. -/
  refused : ∀ cause, answer = .error cause ↔
    ∃ taken, Refuses step.request step.before cause taken ∧ rest = step.before.drop taken
  /-- The look for the end consumes nothing. -/
  finish : step.request = .finish → rest = step.before

theorem reader_finish (b : Bytes) : (Request.finish.reader b).2 = b := by
  cases b <;> rfl

theorem accounted (request : Request) {b s : Bytes} (h : s <:+ b) :
    Accounted b ⟨request, s, request.cursor s⟩ (request.reader s).1 (request.reader s).2 where
  outcome := (request.reaches_cursor s).outcome
  covered := (request.reaches_cursor s).covered
  before := h
  after := reader_suffix request s
  found v hv := by
    obtain ⟨e, he, hl⟩ := exists_of_reader_eq_ok (Prod.ext hv rfl :
      request.reader s = (.ok v, (request.reader s).2))
    rw [← hl, ← List.length_append, ← he]
  refused cause := by
    rw [← reader_eq_error_iff]
    exact ⟨fun hc => Prod.ext hc rfl, fun hc => congrArg Prod.fst hc⟩
  finish hr := by
    cases hr
    exact reader_finish s

/-- A program of reads that goes on after its failures makes all its reads, each
of them on an end of the octets and from where the last one left off. None takes
octets that are not there. One that finds something consumes as many octets as are
written for it; one that fails consumes those that it refuses, and it fails wherever
there are any; and the look for the end consumes nothing. By induction on the
program. -/
theorem steps_accounted (requests : List Request) (b : Bytes) :
    (Request.steps requests b).map (·.request) = requests ∧
      List.Forall₂ (fun step answer => Accounted b step answer.1 answer.2)
        (Request.steps requests b) (Request.runAll requests b) := by
  have run (s : Bytes) (hs : s <:+ b) : (Request.steps requests s).map (·.request) = requests ∧
      List.Forall₂ (fun step answer => Accounted b step answer.1 answer.2)
        (Request.steps requests s) (Request.runAll requests s) := by
    induction requests generalizing s with
    | nil => exact ⟨rfl, .nil⟩
    | cons request requests ih =>
      obtain ⟨hall, hrest⟩ := ih _ ((reader_suffix request s).trans hs)
      rw [Request.steps, (request.reaches_cursor s).outcome, Request.runAll]
      exact ⟨congrArg (request :: ·) hall, .cons (accounted request hs) hrest⟩
  exact run b (List.suffix_refl b)

/-- What is left after a flag and six failures: a negative number, a text that is not
well formed, a count too large to be addressed, one of more addresses than follow, a
word cut short, and an octet left over. -/
example : (Request.runAll [.flag "a", .nonNegative "b", .text "c", .length "d" 17179869184,
      .addresses "e", .u64 "f", .finish]
    [7, 255, 255, 255, 254, 0, 0, 0, 1, 200, 64, 0, 0, 0, 0, 0, 0, 1, 9]).map (·.2.length) =
    [18, 14, 9, 5, 1, 1, 1] := by
  decide

end HotspotBackup.Wire
