import HotspotBackup.Proofs.FieldWriting
import HotspotBackup.Wire.Program
import Mathlib.Algebra.GroupWithZero.Nat

/-!
# Programs of primitives are read back

A buffer grows by the size of each write, which its value alone decides
(`length_writeAll`). Reads that match the writes one by one (`Matches`) find
the values that were written and leave what follows the buffer
(`run_of_matches`), by induction on the program from the same of one write
(`reader_of_readBy`).

So octets that are read by one program of reads were written by one program of
writes at most (`eq_of_writeAll_eq`): an absent text is not taken for an empty
one, nor a length for what it counts.
-/

namespace HotspotBackup.Wire

open Reader

/-! ## Sizes -/

namespace Item

/-- The number of octets of a write. -/
def size : Item → Nat
  | i32 _ | u32 _ | length _ => 4
  | u64 _ => 8
  | flag _ => 1
  | text none => 4
  | text (some s) => 4 + Utf8.size s
  | addresses macs => 4 + 6 * macs.length

/-- The length or count that a write stores, if it stores one. -/
def storedLength : Item → Nat
  | length n => n
  | text s => (s.map Utf8.size).getD 0
  | addresses macs => macs.length
  | i32 _ | u32 _ | u64 _ | flag _ => 0

theorem length_octets (item : Item) : item.octets.length = item.size := by
  cases item with
  | i32 n | u32 n | u64 n | flag b | length n => simp [octets, size]
  | text s =>
    cases s with
    | none => simp [octets, size, text?]
    | some s => simp [octets, size, text?, Utf8.size]
  | addresses macs =>
    rw [octets, Wire.addresses, List.length_append, length_length, length_flatMap_octets, size]
    omega

theorem writeAll_cons (item : Item) (items : List Item) :
    writeAll (item :: items) = item.octets ++ writeAll items :=
  List.flatMap_cons

theorem length_writeAll (items : List Item) :
    (writeAll items).length = (items.map size).sum := by
  rw [writeAll, List.length_flatMap]
  exact congrArg List.sum (List.map_congr_left fun item _ => length_octets item)

end Item

/-! ## Matching reads -/

/-- A read matches a write behind which `rest` follows. A word that is not
negative may be read as such, and a length with any size of its elements for
which these follow. Octets in memory are fewer than `addressable`, so that of
the two bounds on a length the second follows from the first there. -/
inductive ReadBy (rest : Bytes) : Item → Request → Prop
  | i32 {n : Int32} {field : String} : ReadBy rest (.i32 n) (.i32 field)
  | u32 {n : UInt32} {field : String} : ReadBy rest (.u32 n) (.u32 field)
  | u64 {n : UInt64} {field : String} : ReadBy rest (.u64 n) (.u64 field)
  | flag {b : Bool} {field : String} : ReadBy rest (.flag b) (.flag field)
  | nonNegative {n : UInt32} {field : String} :
    n.toNat ≤ maxStoredNumber → ReadBy rest (.u32 n) (.nonNegative field)
  | length {n size : Nat} {field : String} :
    n * size ≤ rest.length → n * size < addressable → ReadBy rest (.length n) (.length field size)
  | text {s : Option String} {field : String} : ReadBy rest (.text s) (.text field)
  | addresses {macs : List MacAddress} {field : String} :
    ReadBy rest (.addresses macs) (.addresses field)

/-- Reads match writes one by one, in the same order, with `t` behind them. -/
inductive Matches (t : Bytes) : List Item → List Request → Prop
  | nil : Matches t [] []
  | cons {item : Item} {request : Request} {items : List Item} {requests : List Request} :
    ReadBy (Item.writeAll items ++ t) item request → Matches t items requests →
      Matches t (item :: items) (request :: requests)

namespace Item

/-- What a matching read finds. -/
def found : Item → Found
  | i32 n => .i32 n
  | u32 n => .u32 n
  | u64 n => .u64 n
  | flag b => .flag b
  | length n => .length n
  | text s => .text s
  | addresses macs => .addresses macs

theorem found_injective : Function.Injective found := by
  intro a b h
  cases a <;> cases b <;> cases h <;> rfl

/-- The answers to matching reads: each value, with the later writes and then
`t` left. -/
def answers (t : Bytes) : List Item → List (Except Malformation Found × Bytes)
  | [] => []
  | item :: items => (.ok item.found, writeAll items ++ t) :: answers t items

theorem answers_injective {t : Bytes} {items items' : List Item}
    (h : answers t items = answers t items') : items = items' := by
  induction items generalizing items' with
  | nil =>
    cases items' with
    | nil => rfl
    | cons item' items' => cases h
  | cons item items ih =>
    cases items' with
    | nil => cases h
    | cons item' items' =>
      rw [answers, answers, List.cons.injEq, Prod.mk.injEq, Except.ok.injEq] at h
      rw [found_injective h.1.1, ih h.2]

end Item

theorem map_of_ok {r : Reader α} {b rest : Bytes} {a : α} (f : α → β) (h : r b = (.ok a, rest)) :
    (f <$> r) b = (.ok (f a), rest) :=
  bind_ok h

/-- One write is read back by a matching read, and what follows it is left. -/
theorem reader_of_readBy {rest : Bytes} {item : Item} {request : Request}
    (hfit : item.storedLength ≤ maxStoredNumber) (h : ReadBy rest item request) :
    request.reader (item.octets ++ rest) = (.ok item.found, rest) := by
  cases h with
  | i32 => exact map_of_ok _ ((recognizes_i32 _).complete rest rfl)
  | u32 => exact map_of_ok _ ((recognizes_u32 _).complete rest rfl)
  | u64 => exact map_of_ok _ ((recognizes_u64 _).complete rest rfl)
  | flag => exact map_of_ok _ ((recognizes_flag _).complete rest (spellsFlag_flag _))
  | nonNegative hn => exact map_of_ok _ ((recognizes_nonNegative _).complete rest ⟨hn, rfl⟩)
  | @length n size field hrest hsize =>
    have hn : n ≤ maxStoredNumber := hfit
    have hword : (Item.length n).octets = Bytes.ofNat 4 n := length_eq hn
    refine map_of_ok _ ?_
    rw [hword, count_word field hn hsize, if_neg (Nat.not_lt.2 hrest)]
  | @text s =>
    refine map_of_ok _ ((recognizes_text? _).complete rest (spellsText_text? fun t ht => ?_))
    subst ht
    exact hfit
  | addresses =>
    exact map_of_ok _ ((recognizes_addresses _).complete rest (spellsAddresses_addresses hfit))

section

variable {t : Bytes} {items : List Item} {requests : List Request}

/-- A program of writes is read back by matching reads, and reading goes on
where it ends. By induction on the program. -/
theorem run_of_matches (hfit : ∀ item ∈ items, item.storedLength ≤ maxStoredNumber)
    (h : Matches t items requests) (more : List Request) :
    Request.runAll (requests ++ more) (Item.writeAll items ++ t) =
      Item.answers t items ++ Request.runAll more t := by
  induction h with
  | nil => rfl
  | @cons item request items requests hread _ ih =>
    have hitem := reader_of_readBy (hfit item List.mem_cons_self) hread
    have hrest := ih fun item hi => hfit item (List.mem_cons_of_mem _ hi)
    rw [List.cons_append, Request.runAll, Item.writeAll_cons, List.append_assoc, hitem, hrest]
    rfl

/-- One program of reads matches one program of writes with the same octets. -/
theorem eq_of_writeAll_eq {items' : List Item}
    (hfit : ∀ item ∈ items, item.storedLength ≤ maxStoredNumber)
    (hfit' : ∀ item ∈ items', item.storedLength ≤ maxStoredNumber)
    (h : Matches t items requests) (h' : Matches t items' requests)
    (heq : Item.writeAll items = Item.writeAll items') : items = items' := by
  have hrun := run_of_matches hfit h []
  have hrun' := run_of_matches hfit' h' []
  rw [heq, hrun', List.append_cancel_right_eq] at hrun
  exact (Item.answers_injective hrun).symm

theorem runAll_finish (t : Bytes) : Request.runAll [.finish] t =
    [(if t = [] then .ok .finish else .error (.trailing t.length), t)] := by
  cases t <;> rfl

/-- After each write the buffer has the size of all writes so far, and is empty
only while that is nothing. What was written is read back by the matching reads
in the same order, value by value, whatever follows it, and what follows is left
as it is, so that the end is found exactly if nothing follows. No other program
that the same reads match has the same octets. -/
theorem program_reads_back (hfit : ∀ item ∈ items, item.storedLength ≤ maxStoredNumber)
    (h : Matches t items requests) :
    Item.sizes items =
        (List.range (items.length + 1)).map (fun n => ((items.take n).map Item.size).sum) ∧
      (∀ n, Item.writeAll (items.take n) = [] ↔ ((items.take n).map Item.size).sum = 0) ∧
      (∀ more, Request.runAll (requests ++ more) (Item.writeAll items ++ t) =
        Item.answers t items ++ Request.runAll more t) ∧
      Request.runAll (requests ++ [.finish]) (Item.writeAll items ++ t) =
        Item.answers t items ++
          [(if t = [] then .ok .finish else .error (.trailing t.length), t)] ∧
      ∀ items', (∀ item ∈ items', item.storedLength ≤ maxStoredNumber) →
        Matches t items' requests → Item.writeAll items = Item.writeAll items' →
          items = items' := by
  refine ⟨?_, fun n => ?_, run_of_matches hfit h, ?_, fun items' hfit' h' heq => ?_⟩
  · exact List.map_congr_left fun n _ => Item.length_writeAll _
  · rw [← Item.length_writeAll, List.length_eq_zero_iff]
  · rw [run_of_matches hfit h, runAll_finish]
  · exact eq_of_writeAll_eq hfit hfit' h h' heq

end

/-- A program in which the mark of an absent text stands next to a number, an
empty text and a length of the same octets. -/
def lookalikes : List Item :=
  [.i32 (-1), .text none, .text (some ""), .length 2, .u32 7, .addresses [⟨0, 0, 0, 1, 0, 0⟩],
    .u64 18446744073709551615, .flag true]

/-- The reads that match `lookalikes`. -/
def lookalikeReads : List Request :=
  [.i32 "a", .text "b", .text "c", .length "d" 8, .nonNegative "e", .addresses "f", .u64 "g",
    .flag "h"]

theorem program_reads_back_lookalikes :
    (∀ item ∈ lookalikes, item.storedLength ≤ maxStoredNumber) ∧
      Matches [255, 255, 255, 255] lookalikes lookalikeReads ∧
      Item.sizes lookalikes = [0, 4, 8, 12, 16, 20, 30, 38, 39] ∧
      (Request.runAll (lookalikeReads ++ [.finish])
          (Item.writeAll lookalikes ++ [255, 255, 255, 255])).map (·.1) =
        [.ok (.i32 (-1)), .ok (.text none), .ok (.text (some "")), .ok (.length 2), .ok (.u32 7),
          .ok (.addresses [⟨0, 0, 0, 1, 0, 0⟩]), .ok (.u64 18446744073709551615),
          .ok (.flag true), .error (.trailing 4)] := by
  have hfit : ∀ item ∈ lookalikes, item.storedLength ≤ maxStoredNumber := by decide
  have hmatch : Matches [255, 255, 255, 255] lookalikes lookalikeReads :=
    .cons .i32 (.cons .text (.cons .text (.cons (.length (by decide) (by decide))
      (.cons (.nonNegative (by decide)) (.cons .addresses (.cons .u64 (.cons .flag .nil)))))))
  obtain ⟨hsizes, -, -, hrun, -⟩ := program_reads_back hfit hmatch
  refine ⟨hfit, hmatch, hsizes.trans ?_, ?_⟩
  · decide
  · rw [hrun]
    decide

end HotspotBackup.Wire
