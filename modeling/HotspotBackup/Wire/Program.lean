import HotspotBackup.Wire.Reader

/-!
# Programs of primitives

A program of writes is a list of `Item`s on one buffer, a program of reads
a list of `Request`s on one run of octets. Reads go on after a failure from
where the failure left off, so that what a failing read consumed can be
seen (`Request.runAll`).
-/

namespace HotspotBackup.Wire

/-- One write. -/
inductive Item where
  | i32 (n : Int32)
  | u32 (n : UInt32)
  | u64 (n : UInt64)
  | flag (b : Bool)
  | length (n : Nat)
  | text (s : Option String)
  | addresses (macs : List MacAddress)
  deriving DecidableEq

/-- The octets of one write. -/
def Item.octets : Item → Bytes
  | i32 n => Wire.i32 n
  | u32 n => Wire.u32 n
  | u64 n => Wire.u64 n
  | flag b => Wire.flag b
  | length n => Wire.length n
  | text s => Wire.text? s
  | addresses macs => Wire.addresses macs

/-- The buffer after a program of writes. -/
def Item.writeAll (items : List Item) : Bytes :=
  items.flatMap octets

/-- The size of the buffer before the first write and after each. -/
def Item.sizes (items : List Item) : List Nat :=
  (List.range (items.length + 1)).map fun n => (writeAll (items.take n)).length

/-- One read. Each names the field that its failure reports. -/
inductive Request where
  | i32 (field : String)
  | u32 (field : String)
  | u64 (field : String)
  | flag (field : String)
  | nonNegative (field : String)
  | length (field : String) (size : Nat)
  | text (field : String)
  | addresses (field : String)
  | finish
  deriving DecidableEq

/-- What a read finds. -/
inductive Found where
  | i32 (n : Int32)
  | u32 (n : UInt32)
  | u64 (n : UInt64)
  | flag (b : Bool)
  | length (n : Nat)
  | text (s : Option String)
  | addresses (macs : List MacAddress)
  | finish
  deriving DecidableEq

/-- The reader of a request. -/
def Request.reader : Request → Reader Found
  | i32 field => .i32 <$> Reader.i32 field
  | u32 field => .u32 <$> Reader.u32 field
  | u64 field => .u64 <$> Reader.u64 field
  | flag field => .flag <$> Reader.flag field
  | nonNegative field => .u32 <$> Reader.nonNegative field
  | length field size => .length <$> Reader.count field size
  | text field => .text <$> Reader.text? field
  | addresses field => .addresses <$> Reader.addresses field
  | finish => (fun _ => .finish) <$> Reader.finish

/-- The answers of a program of reads, each with the octets left after it. -/
def Request.runAll : List Request → Bytes → List (Except Malformation Found × Bytes)
  | [], _ => []
  | request :: rest, b =>
    let answer := request.reader b
    answer :: runAll rest answer.2

end HotspotBackup.Wire
