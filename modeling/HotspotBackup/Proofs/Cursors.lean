import HotspotBackup.Proofs.ReadFaults
import HotspotBackup.Wire.Program

/-!
# Reads, access by access

A `Reader` never looks beyond the octets that are left. A `Cursor` could: it
takes octets without a check (`Cursor.take`), and is stopped where they are not
there. What is checked is a step of its own, ahead of the octets that are taken
on account of it. A `Walk` is what a cursor comes to, with the events on the way.

`Walk.Reaches` says that a walk is not stopped, that it comes to the answer of a
reader, and that it never asks for more octets than are left. It is proved once
for each way to put cursors together (`reaches_pure`, `Reaches.bind`), and for
each read in turn:

* `Request.reaches_cursor`: every read of a program,
* `Field.reaches_cursorChannels`: the channels by band,

with the passes of their loops.
-/

namespace HotspotBackup

namespace Wire

/-! ## Cursors -/

/-- What a cursor does beside reading on. -/
inductive Event where
  /-- `need` octets are taken, of `left` that are left. -/
  | take (need left : Nat)
  /-- Memory is set aside for `size` octets, of `left` that are left. -/
  | reserve (size left : Nat)
  /-- A loop over elements begins a pass. -/
  | pass
  deriving DecidableEq

/-- An event that asks for no more octets than are left. -/
def Event.Covered : Event → Prop
  | take need left => need ≤ left
  | reserve size left => size ≤ left
  | pass => True

/-- What a cursor comes to: an answer and the octets left after it, unless it is
stopped. -/
structure Walk (α : Type) where
  outcome : Option (Except Malformation α × Bytes)
  events : List Event

/-- The number of passes that the loops of a walk begin. -/
def Walk.passes (w : Walk α) : Nat :=
  w.events.count .pass

/-- A reader that may be stopped for taking octets that are not there. -/
def Cursor (α : Type) : Type :=
  Bytes → Walk α

namespace Cursor

/-- Reading of `c` and then of what `next` makes of its value. -/
def andThen (c : Cursor α) (next : α → Cursor β) : Cursor β := fun b =>
  match (c b).outcome with
  | some (.ok a, rest) => ⟨(next a rest).outcome, (c b).events ++ (next a rest).events⟩
  | some (.error cause, rest) => ⟨some (.error cause, rest), (c b).events⟩
  | none => ⟨none, (c b).events⟩

instance : Monad Cursor where
  pure a := fun b => ⟨some (.ok a, b), []⟩
  bind := andThen

/-- A failure that consumes nothing. -/
def fail (cause : Malformation) : Cursor α := fun b =>
  ⟨some (.error cause, b), []⟩

/-- The value that is there, or a failure with `cause`. -/
def ofOption (cause : Malformation) : Option α → Cursor α
  | some a => pure a
  | none => fail cause

/-- The number of octets that are left. -/
def left : Cursor Nat := fun b =>
  ⟨some (.ok b.length, b), []⟩

/-- The next `n` octets, or fewer at the end, which are left where they are. -/
def peek (n : Nat) : Cursor Bytes := fun b =>
  ⟨some (.ok (b.take n), b), []⟩

/-- The next `need` octets, without a check that they are there. -/
def take (need : Nat) : Cursor Bytes := fun b =>
  ⟨if b.length < need then none else some (.ok (b.take need), b.drop need),
    [.take need b.length]⟩

/-- Memory for `size` octets. -/
def reserve (size : Nat) : Cursor Unit := fun b =>
  ⟨some (.ok (), b), [.reserve size b.length]⟩

/-- The beginning of a pass. -/
def pass : Cursor Unit := fun b =>
  ⟨some (.ok (), b), [.pass]⟩

/-! ### The reads -/

def ensure (field : String) (need : Nat) : Cursor Unit := do
  let left ← left
  if left < need then fail (.truncated field need left) else return ()

def octets (field : String) (need : Nat) : Cursor Bytes := do
  ensure field need
  take need

def u32 (field : String) : Cursor UInt32 := do
  return UInt32.ofNat (Bytes.toNat (← octets field 4))

def i32 (field : String) : Cursor Int32 := do
  return (← u32 field).toInt32

def u64 (field : String) : Cursor UInt64 := do
  return UInt64.ofNat (Bytes.toNat (← octets field 8))

def flag (field : String) : Cursor Bool := do
  return Bytes.toNat (← octets field 1) != 0

def nonNegative (field : String) : Cursor UInt32 := do
  let value ← i32 field
  if value < 0 then fail (.negative field value.toInt) else return value.toUInt32

def count (field : String) (size : Nat) : Cursor Nat := do
  let value ← i32 field
  if value < 0 then fail (.negativeLength field value.toInt)
  else if Reader.addressable ≤ value.toInt.toNat * size then
    fail (.lengthOverflow field value.toInt.toNat)
  else
    ensure field (value.toInt.toNat * size)
    return value.toInt.toNat

/-- A text behind its length, for which no check is made beside that of the length. -/
def text (field : String) : Cursor String := do
  let size ← count field 1
  reserve size
  match Utf8.decode (← take size) with
  | .ok s => return s
  | .error fault => fail (.badText field fault)

/-- A text or the mark of an absent one, which is looked for before the length is
read. -/
def text? (field : String) : Cursor (Option String) := do
  ensure field 4
  if (← peek 4) = absent then
    let _ ← take 4
    return none
  else some <$> text field

/-- The six octets of an address, without a check that they are there. -/
def address : Cursor MacAddress := fun b =>
  match b with
  | o₁ :: o₂ :: o₃ :: o₄ :: o₅ :: o₆ :: rest =>
    ⟨some (.ok ⟨o₁, o₂, o₃, o₄, o₅, o₆⟩, rest), [.take 6 b.length]⟩
  | _ => ⟨none, [.take 6 b.length]⟩

/-- As many passes over `c` as `n` says. -/
def replicate : Nat → Cursor α → Cursor (List α)
  | 0, _ => pure []
  | n + 1, c => do
    pass
    return (← c) :: (← replicate n c)

/-- Addresses behind their count, for which no check is made beside that of the
count. -/
def addresses (field : String) : Cursor (List MacAddress) := do
  let n ← count field 6
  reserve (n * 6)
  replicate n address

def finish : Cursor Unit := do
  let left ← left
  if left = 0 then return () else fail (.trailing left)

end Cursor

/-- The cursor of a read. -/
def Request.cursor : Request → Cursor Found
  | i32 field => .i32 <$> Cursor.i32 field
  | u32 field => .u32 <$> Cursor.u32 field
  | u64 field => .u64 <$> Cursor.u64 field
  | flag field => .flag <$> Cursor.flag field
  | nonNegative field => .u32 <$> Cursor.nonNegative field
  | length field size => .length <$> Cursor.count field size
  | text field => .text <$> Cursor.text? field
  | addresses field => .addresses <$> Cursor.addresses field
  | finish => (fun _ => .finish) <$> Cursor.finish

/-! ## Walks that reach an answer -/

/-- A walk comes to an answer without being stopped, asks for no octets that are
not left, and begins `n` passes at most. -/
structure Walk.Reaches (w : Walk α) (answer : Except Malformation α × Bytes) (n : Nat) : Prop where
  outcome : w.outcome = some answer
  covered : ∀ e ∈ w.events, e.Covered
  passes : w.passes ≤ n

namespace Cursor

theorem bind_of_ok {c : Cursor α} {next : α → Cursor β} {b rest : Bytes} {a : α}
    (h : (c b).outcome = some (.ok a, rest)) :
    (c >>= next) b = ⟨(next a rest).outcome, (c b).events ++ (next a rest).events⟩ := by
  show andThen c next b = _
  rw [andThen, h]

theorem bind_of_error {c : Cursor α} {next : α → Cursor β} {b rest : Bytes}
    {cause : Malformation} (h : (c b).outcome = some (.error cause, rest)) :
    (c >>= next) b = ⟨some (.error cause, rest), (c b).events⟩ := by
  show andThen c next b = _
  rw [andThen, h]

theorem left_bind (next : Nat → Cursor α) (b : Bytes) :
    (left >>= next) b = next b.length b := rfl

theorem peek_bind (n : Nat) (next : Bytes → Cursor α) (b : Bytes) :
    (peek n >>= next) b = next (b.take n) b := rfl

theorem reaches_pure (a : α) (b : Bytes) :
    ((pure a : Cursor α) b).Reaches ((pure a : Reader α) b) 0 :=
  ⟨rfl, List.forall_mem_nil _, Nat.le_refl 0⟩

theorem reaches_fail (cause : Malformation) (b : Bytes) :
    ((fail cause : Cursor α) b).Reaches ((Reader.fail cause : Reader α) b) 0 :=
  ⟨rfl, List.forall_mem_nil _, Nat.le_refl 0⟩

theorem reaches_ofOption (cause : Malformation) (a : Option α) (b : Bytes) :
    (ofOption cause a b).Reaches (Reader.ofOption cause a b) 0 := by
  cases a with
  | none => exact reaches_fail cause b
  | some a => exact reaches_pure a b

end Cursor

namespace Walk.Reaches

open Cursor

variable {c : Cursor α} {r : Reader α} {b : Bytes} {m n : Nat}

theorem le {w : Walk α} {answer : Except Malformation α × Bytes} (h : w.Reaches answer m)
    (hle : m ≤ n) : w.Reaches answer n :=
  ⟨h.outcome, h.covered, Nat.le_trans h.passes hle⟩

/-- Cursors reach one after another what readers do. -/
theorem bind {next : α → Cursor β} {next' : α → Reader β} (hc : (c b).Reaches (r b) m)
    (hn : ∀ a rest, r b = (.ok a, rest) → (next a rest).Reaches (next' a rest) n) :
    ((c >>= next) b).Reaches ((r >>= next') b) (m + n) := by
  rcases hr : r b with ⟨answer, rest⟩
  have hout := hc.outcome
  rw [hr] at hout
  cases answer with
  | ok a =>
    have hnext := hn a rest hr
    rw [bind_of_ok hout, Reader.bind_ok hr]
    refine ⟨hnext.outcome, fun e he => ?_, ?_⟩
    · exact (List.mem_append.1 he).elim (hc.covered e) (hnext.covered e)
    · have hpasses := Nat.add_le_add hc.passes hnext.passes
      rwa [Walk.passes, Walk.passes, ← List.count_append] at hpasses
  | error cause =>
    rw [bind_of_error hout, Reader.bind_error hr]
    exact ⟨rfl, hc.covered, Nat.le_trans hc.passes (Nat.le_add_right m n)⟩

/-- The same, where the first cursor begins no pass. -/
theorem andThen {next : α → Cursor β} {next' : α → Reader β} (hc : (c b).Reaches (r b) 0)
    (hn : ∀ a rest, r b = (.ok a, rest) → (next a rest).Reaches (next' a rest) n) :
    ((c >>= next) b).Reaches ((r >>= next') b) n :=
  (hc.bind hn).le (Nat.le_of_eq (Nat.zero_add n))

theorem map (f : α → β) (hc : (c b).Reaches (r b) n) : ((f <$> c) b).Reaches ((f <$> r) b) n :=
  hc.bind fun a rest _ => reaches_pure (f a) rest

theorem ite {p : Prop} [Decidable p] {c' : Cursor α} {r' : Reader α}
    (hc : p → (c b).Reaches (r b) n) (hc' : ¬ p → (c' b).Reaches (r' b) n) :
    ((if p then c else c') b).Reaches ((if p then r else r') b) n := by
  by_cases hp : p
  · rw [if_pos hp, if_pos hp]
    exact hc hp
  · rw [if_neg hp, if_neg hp]
    exact hc' hp

/-- Memory is set aside for octets that are left. -/
theorem behind_reserve {next : Unit → Cursor α} {size : Nat} (h : size ≤ b.length)
    (hn : (next () b).Reaches (r b) n) : ((reserve size >>= next) b).Reaches (r b) n :=
  ⟨hn.outcome, List.forall_mem_cons.2 ⟨h, hn.covered⟩, hn.passes⟩

theorem behind_pass {next : Unit → Cursor α} (hn : (next () b).Reaches (r b) n) :
    ((pass >>= next) b).Reaches (r b) (n + 1) :=
  ⟨hn.outcome, List.forall_mem_cons.2 ⟨trivial, hn.covered⟩, by
    rw [Walk.passes, bind_of_ok (c := pass) rfl]
    exact Nat.le_trans (Nat.le_of_eq List.count_cons_self) (Nat.succ_le_succ hn.passes)⟩

end Walk.Reaches

/-! ## Reads -/

namespace Cursor

variable (field : String) {b : Bytes}

theorem ensure_run (need : Nat) (b : Bytes) :
    ensure field need b = ⟨some (Reader.ensure field need b), []⟩ := by
  rw [ensure, left_bind, Reader.ensure]
  split <;> rfl

theorem reaches_ensure (need : Nat) (b : Bytes) :
    (ensure field need b).Reaches (Reader.ensure field need b) 0 := by
  rw [ensure_run]
  exact ⟨rfl, List.forall_mem_nil _, Nat.le_refl 0⟩

/-- What follows a check is reached with the octets that were checked for, or not
at all. -/
theorem behind_ensure {next : Unit → Cursor α} {need n : Nat}
    {answer : Except Malformation α × Bytes}
    (hshort : b.length < need → answer = (.error (.truncated field need b.length), b))
    (hn : need ≤ b.length → (next () b).Reaches answer n) :
    ((ensure field need >>= next) b).Reaches answer n := by
  by_cases h : b.length < need
  · have hout : (ensure field need b).outcome =
        some (.error (.truncated field need b.length), b) := by
      rw [ensure_run, Reader.ensure, if_pos h]
    rw [bind_of_error hout, hshort h, ensure_run]
    exact ⟨rfl, List.forall_mem_nil _, Nat.zero_le n⟩
  · have hout : (ensure field need b).outcome = some (.ok (), b) := by
      rw [ensure_run, Reader.ensure, if_neg h]
    rw [bind_of_ok hout, ensure_run]
    exact hn (Nat.not_lt.1 h)

/-- Octets that are there are taken. -/
theorem reaches_take {need : Nat} (h : need ≤ b.length) :
    (take need b).Reaches (Reader.octets field need b) 0 := by
  rw [Reader.octets, if_neg (Nat.not_lt.2 h)]
  exact ⟨if_neg (Nat.not_lt.2 h), List.forall_mem_singleton.2 h, Nat.le_refl 0⟩

theorem reaches_octets (need : Nat) (b : Bytes) :
    (octets field need b).Reaches (Reader.octets field need b) 0 :=
  behind_ensure field (fun h => if_pos h) fun h => reaches_take field h

theorem reaches_u32 (b : Bytes) : (u32 field b).Reaches (Reader.u32 field b) 0 :=
  (reaches_octets field 4 b).andThen fun _ _ _ => reaches_pure _ _

theorem reaches_i32 (b : Bytes) : (i32 field b).Reaches (Reader.i32 field b) 0 :=
  (reaches_u32 field b).andThen fun _ _ _ => reaches_pure _ _

theorem reaches_u64 (b : Bytes) : (u64 field b).Reaches (Reader.u64 field b) 0 :=
  (reaches_octets field 8 b).andThen fun _ _ _ => reaches_pure _ _

theorem reaches_flag (b : Bytes) : (flag field b).Reaches (Reader.flag field b) 0 :=
  (reaches_octets field 1 b).andThen fun _ _ _ => reaches_pure _ _

theorem reaches_nonNegative (b : Bytes) :
    (nonNegative field b).Reaches (Reader.nonNegative field b) 0 :=
  (reaches_i32 field b).andThen fun _ rest _ =>
    .ite (fun _ => reaches_fail _ rest) fun _ => reaches_pure _ rest

theorem reaches_count (size : Nat) (b : Bytes) :
    (count field size b).Reaches (Reader.count field size b) 0 :=
  (reaches_i32 field b).andThen fun _ rest _ =>
    .ite (fun _ => reaches_fail _ rest) fun _ =>
      .ite (fun _ => reaches_fail _ rest) fun _ =>
        (reaches_ensure field _ rest).andThen fun _ _ _ => reaches_pure _ _

/-- The check of the length is enough for the octets of the text. -/
theorem reaches_text (b : Bytes) : (text field b).Reaches (Reader.text field b) 0 := by
  refine (reaches_count field 1 b).andThen fun size rest hcount => ?_
  obtain ⟨-, -, hle, -⟩ := Reader.exists_of_count_eq_ok hcount
  rw [Nat.mul_one] at hle
  refine .behind_reserve hle ((reaches_take field hle).andThen fun raw rest _ => ?_)
  cases Utf8.decode raw with
  | ok s => exact reaches_pure s rest
  | error fault => exact reaches_fail _ rest

theorem reaches_text? (b : Bytes) : (text? field b).Reaches (Reader.text? field b) 0 := by
  refine behind_ensure field (fun h => if_pos h) fun h => ?_
  rw [peek_bind, Reader.text?, if_neg (Nat.not_lt.2 h)]
  split
  -- The mark is taken on account of the check ahead of the look for it.
  · have hnone : (Reader.octets field 4 >>= fun _ => (pure none : Reader (Option String))) b =
        (.ok none, b.drop 4) := Reader.bind_ok (if_neg (Nat.not_lt.2 h))
    rw [← hnone]
    exact (reaches_take field h).andThen fun _ rest _ => reaches_pure none rest
  -- The length is still in front, and is checked once more.
  · exact (reaches_text field b).map some

theorem reaches_address (h : 6 ≤ b.length) :
    (address b).Reaches (Reader.address field b) 0 := by
  obtain ⟨m, rest, rfl⟩ := Reader.exists_octets h
  exact ⟨rfl, List.forall_mem_singleton.2 h, Nat.le_refl 0⟩

/-- By induction on the number of addresses: as many octets are left as they have. -/
theorem reaches_replicate_address (n : Nat) (h : n * 6 ≤ b.length) :
    (replicate n address b).Reaches (Reader.replicate n (Reader.address field) b) n := by
  induction n generalizing b with
  | zero => exact reaches_pure [] b
  | succ n ih =>
    refine .behind_pass ((reaches_address field (by omega)).andThen fun m rest hm => ?_)
    obtain ⟨e, rfl, rfl⟩ := (Reader.recognizes_address field).sound hm
    rw [List.length_append, MacAddress.length_octets] at h
    exact (ih (by omega)).bind fun _ rest _ => reaches_pure _ rest

theorem reaches_addresses (b : Bytes) :
    (addresses field b).Reaches (Reader.addresses field b) (b.length / 6) := by
  refine (reaches_count field 6 b).andThen fun n rest hcount => ?_
  obtain ⟨-, -, hle, rfl⟩ := Reader.exists_of_count_eq_ok hcount
  refine .behind_reserve hle ((reaches_replicate_address field n hle).le ?_)
  rw [List.length_append]
  omega

theorem reaches_finish (b : Bytes) : (finish b).Reaches (Reader.finish b) 0 := by
  rw [finish, left_bind, Reader.finish]
  split
  · exact reaches_pure () b
  · exact reaches_fail _ b

end Cursor

/-- The cursor of a read comes to the answer of its reader. -/
theorem Request.reaches_cursor (request : Request) (b : Bytes) :
    (request.cursor b).Reaches (request.reader b) (b.length / 6) := by
  cases request with
  | i32 field => exact ((Cursor.reaches_i32 field b).map _).le (Nat.zero_le _)
  | u32 field => exact ((Cursor.reaches_u32 field b).map _).le (Nat.zero_le _)
  | u64 field => exact ((Cursor.reaches_u64 field b).map _).le (Nat.zero_le _)
  | flag field => exact ((Cursor.reaches_flag field b).map _).le (Nat.zero_le _)
  | nonNegative field => exact ((Cursor.reaches_nonNegative field b).map _).le (Nat.zero_le _)
  | length field size => exact ((Cursor.reaches_count field size b).map _).le (Nat.zero_le _)
  | text field => exact ((Cursor.reaches_text? field b).map _).le (Nat.zero_le _)
  | addresses field => exact (Cursor.reaches_addresses field b).map _
  | finish => exact ((Cursor.reaches_finish b).map _).le (Nat.zero_le _)

end Wire

/-! ## Channels -/

namespace Field

open Wire

def cursorBand (field : String) : Cursor Band := do
  let bits ← Cursor.u32 field
  Cursor.ofOption (.badBand field bits.toNat) (Band.ofBits? bits.toNat)

/-- As many passes as `n` says, each of them for an entry on top of those already
read. -/
def cursorEntries (field : String) : Nat → ChannelMap → Cursor ChannelMap
  | 0, m => pure m
  | n + 1, m => do
    Cursor.pass
    let band ← cursorBand field
    let channel ← Cursor.nonNegative field
    if (m.get? band).isSome then Cursor.fail (.duplicateChannel band)
    else cursorEntries field n (m.insert band channel)

def cursorChannels (field : String) : Cursor ChannelMap := do
  cursorEntries field (← Cursor.count field 8) ∅

variable (field : String)

theorem reaches_cursorBand (b : Bytes) :
    (cursorBand field b).Reaches (readBand field b) 0 :=
  (Cursor.reaches_u32 field b).andThen fun _ rest _ => Cursor.reaches_ofOption _ _ rest

/-- By induction on the number of entries, on top of any map. -/
theorem reaches_cursorEntries (n : Nat) (m : ChannelMap) (b : Bytes) :
    (cursorEntries field n m b).Reaches (readEntries field n m b) n := by
  induction n generalizing m b with
  | zero => exact Cursor.reaches_pure m b
  | succ n ih =>
    refine .behind_pass ((reaches_cursorBand field b).andThen fun band rest _ =>
      (Cursor.reaches_nonNegative field rest).andThen fun channel rest _ => ?_)
    exact .ite (fun _ => (Cursor.reaches_fail _ rest).le (Nat.zero_le n)) fun _ => ih _ rest

theorem reaches_cursorChannels (b : Bytes) :
    (cursorChannels field b).Reaches (readChannels field b) (b.length / 8) := by
  refine (Cursor.reaches_count field 8 b).andThen fun n rest hcount => ?_
  obtain ⟨-, -, hle, rfl⟩ := Reader.exists_of_count_eq_ok hcount
  refine (reaches_cursorEntries field n ∅ rest).le ?_
  rw [List.length_append]
  omega

end Field

end HotspotBackup
