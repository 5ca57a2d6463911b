import HotspotBackup.Text.Digits

/-!
# Decimal fractions

A `Decimal` is an unsigned number as it is commonly written: digits, with
or without a fraction and a power of ten. Texts hold such numbers where
only their presence matters, and whether a double can hold them: `isFinite`
decides that exactly, without rounding anything.
-/

namespace HotspotBackup

/-- An unsigned number: the digits around its point and its power of ten. -/
structure Decimal where
  whole : List Char
  fraction : List Char
  exponent : Int
  deriving DecidableEq, Repr

namespace Decimal

/-- The digits that a text begins with, and the rest. -/
def digits (cs : List Char) : List Char × List Char :=
  (cs.takeWhile (·.isDigit), cs.dropWhile (·.isDigit))

/-- A sign that a text may begin with, and the rest. -/
def sign : List Char → Option Char × List Char
  | '+' :: rest => (some '+', rest)
  | '-' :: rest => (some '-', rest)
  | rest => (none, rest)

/-- The power of ten that a text spells, with or without a sign. -/
def exponent? (cs : List Char) : Option Int := do
  let magnitude ← Digits.read? 10 (sign cs).2
  return if (sign cs).1 = some '-' then -magnitude else magnitude

/-- The power of ten that ends a number, after its mark; none stands for the
power zero. -/
def power? : List Char → Option Int
  | [] => some 0
  | mark :: rest => if mark = 'e' ∨ mark = 'E' then exponent? rest else none

/-- The fraction that a text begins with, and the rest. -/
def point : List Char → List Char × List Char
  | '.' :: rest => digits rest
  | rest => ([], rest)

/-- The number that a text spells. Digits may be missing on one side of the
point, not on both. -/
def parse? (cs : List Char) : Option Decimal := do
  let (whole, rest) := digits cs
  let (fraction, rest) := point rest
  if whole.isEmpty && fraction.isEmpty then none
  else return { whole, fraction, exponent := ← power? rest }

/-- The least number that rounds beyond the largest double. -/
def bound : Nat :=
  (1 <<< 1024) - (1 <<< 970)

/-- The digits from the first one that is not zero. -/
def significant (d : Decimal) : List Char :=
  (d.whole ++ d.fraction).dropWhile (· = '0')

/-- The power of ten that bounds the number: it is below ten to this power,
and not below a tenth of that unless it is zero. -/
def magnitude (d : Decimal) : Int :=
  d.significant.length + d.exponent - d.fraction.length

/-- Whether the number rounds to a double. Only numbers near the bound,
which has 309 digits, are compared digit by digit. -/
def isFinite (d : Decimal) : Bool :=
  if d.significant.isEmpty || d.magnitude < 309 then true
  else if 309 < d.magnitude then false
  else
    let value := (Digits.readFrom? 10 0 d.significant).getD 0
    let size := d.significant.length
    value * Nat.pow 10 (309 - size) < bound * Nat.pow 10 (size - 309)

end Decimal

end HotspotBackup
