import HotspotBackup.Bytes
import HotspotBackup.Text.Digits
import HotspotBackup.Text.Pieces

/-!
# Hardware addresses

A `MacAddress` is six octets. Three notations are read: twelve hexadecimal
digits written bare, or six pairs of them separated throughout by colons or
throughout by hyphens; each digit may be of either case. One notation is
written: lower-case pairs separated by colons.
-/

namespace HotspotBackup

/-- The address of a network interface: six octets in transmission order. -/
structure MacAddress where
  first : UInt8
  second : UInt8
  third : UInt8
  fourth : UInt8
  fifth : UInt8
  sixth : UInt8
  deriving DecidableEq, Repr

namespace MacAddress

/-- The octets of an address, in order. -/
def octets (m : MacAddress) : Bytes :=
  [m.first, m.second, m.third, m.fourth, m.fifth, m.sixth]

/-- The address of exactly six octets. -/
def ofOctets? : Bytes → Option MacAddress
  | [a, b, c, d, e, f] => some ⟨a, b, c, d, e, f⟩
  | _ => none

@[simp] theorem length_octets (m : MacAddress) : m.octets.length = 6 := rfl

@[simp] theorem ofOctets?_octets (m : MacAddress) : ofOctets? m.octets = some m := rfl

/-! ## Notations -/

/-- The characters that may separate pairs. -/
def isSeparator (c : Char) : Bool :=
  c = ':' || c = '-'

/-- The characters of a text two by two; an odd one stands alone at the end. -/
def twoByTwo : List Char → List (List Char)
  | [] => []
  | [c] => [[c]]
  | c :: d :: rest => [c, d] :: twoByTwo rest

/-- The groups in which a text writes its octets: the first separator that
occurs separates them all, and without one each pair is a group. -/
def groups (text : List Char) : List (List Char) :=
  match text.find? isSeparator with
  | some sep => pieces sep text
  | none => twoByTwo text

/-- The address that a text names, in any of the three notations. -/
def parse? (text : String) : Option MacAddress := do
  ofOctets? (← (groups text.toList).mapM Digits.ofHexPair?)

/-- The written form of an address: lower-case pairs separated by colons. -/
def text (m : MacAddress) : String :=
  String.ofList (List.intercalate [':'] (m.octets.map Digits.hexPair))

/-- The wording of the refusal of a text that names no address. -/
def refusal (text : String) : String :=
  s!"invalid MAC address '{text}'"

/-- The refusal of a text that names no address, with the text as it was given. -/
structure Refusal where
  text : String
  deriving DecidableEq, Repr

/-- The wording of a refusal. -/
def Refusal.message (r : Refusal) : String :=
  refusal r.text

/-- The address that a text names, or the refusal of the text. -/
def parse (text : String) : Except Refusal MacAddress :=
  match parse? text with
  | some m => .ok m
  | none => .error ⟨text⟩

end MacAddress

end HotspotBackup
