import HotspotBackup.Settings.Value
import HotspotBackup.Text.Decimal

/-!
# Unquoted values of TOML

Flags, numbers, dates and times. Numbers and dates are checked and then
forgotten, since no setting is one: a whole number must fit 64 bits and a
fraction must not exceed the doubles, and a date must be one of the
calendar.
-/

namespace HotspotBackup.Toml

/-! ## Numbers -/

/-- Digits of `base`, with underscores between them. -/
def isGrouped (base : Nat) : List Char → Bool
  | [] => false
  | [c] => (Digits.value? base c).isSome
  | c :: '_' :: rest => (Digits.value? base c).isSome && isGrouped base rest
  | c :: rest => (Digits.value? base c).isSome && isGrouped base rest

/-- The number of grouped digits. -/
def grouped? (base : Nat) (cs : List Char) : Option Nat :=
  if isGrouped base cs then Digits.read? base (cs.filter (· ≠ '_')) else none

/-- Digits of a decimal number without a leading zero. -/
def isWhole : List Char → Bool
  | ['0'] => true
  | '0' :: _ => false
  | cs => isGrouped 10 cs

/-- A whole number of 64 bits, in decimal with a sign or without, or after
the mark of another base. -/
def isInteger (cs : List Char) : Bool :=
  match cs with
  | '0' :: 'x' :: digits => (grouped? 16 digits).any (· < 1 <<< 63)
  | '0' :: 'o' :: digits => (grouped? 8 digits).any (· < 1 <<< 63)
  | '0' :: 'b' :: digits => (grouped? 2 digits).any (· < 1 <<< 63)
  | cs =>
    let (sign, digits) := Decimal.sign cs
    let bound := if sign = some '-' then (1 <<< 63) + 1 else 1 <<< 63
    isWhole digits && (grouped? 10 digits).any (· < bound)

/-- The grouped digits that a text begins with, and the rest. -/
def groupedDigits (cs : List Char) : List Char × List Char :=
  (cs.takeWhile fun c => c.isDigit || c = '_', cs.dropWhile fun c => c.isDigit || c = '_')

/-- A power of ten with its mark. -/
def isPower : List Char → Bool
  | mark :: rest => (mark = 'e' || mark = 'E') && isGrouped 10 (Decimal.sign rest).2
  | [] => false

/-- A fraction, a power of ten, or both. -/
def isFractional : List Char → Bool
  | '.' :: rest =>
    let (digits, rest) := groupedDigits rest
    isGrouped 10 digits && (rest.isEmpty || isPower rest)
  | rest => isPower rest

/-- An unsigned number that is not whole as written. -/
def isFraction (cs : List Char) : Bool :=
  let (whole, rest) := groupedDigits cs
  isWhole whole && isFractional rest

/-- A number that is not whole as written, an infinity, or none at all. Only
below zero may it exceed the doubles. -/
def isFloat (cs : List Char) : Bool :=
  let (sign, rest) := Decimal.sign cs
  rest = ['i', 'n', 'f'] || rest = ['n', 'a', 'n'] ||
    (isFraction rest &&
      (sign = some '-' || (Decimal.parse? (rest.filter (· ≠ '_'))).any (·.isFinite)))

/-! ## Dates and times -/

/-- The number of two digits. -/
def twoDigits? : List Char → Option Nat
  | [a, b] => Digits.read? 10 [a, b]
  | _ => none

/-- Whether the digits `a` and `b` spell a number between bounds. -/
def isBetween (low high : Nat) (a b : Char) : Bool :=
  (twoDigits? [a, b]).any fun n => low ≤ n && n ≤ high

/-- The number of days of a month. -/
def daysOf (year month : Nat) : Nat :=
  if month = 2 then
    if year % 4 = 0 ∧ (year % 100 ≠ 0 ∨ year % 400 = 0) then 29 else 28
  else if month = 4 ∨ month = 6 ∨ month = 9 ∨ month = 11 then 30
  else 31

/-- Whether a day is one of the calendar. -/
def isDay (year month day : Nat) : Bool :=
  1 ≤ month && month ≤ 12 && 1 ≤ day && day ≤ daysOf year month

/-- A day of the calendar. -/
def isDate : List Char → Bool
  | [y₁, y₂, y₃, y₄, '-', m₁, m₂, '-', d₁, d₂] =>
    match Digits.read? 10 [y₁, y₂, y₃, y₄], twoDigits? [m₁, m₂], twoDigits? [d₁, d₂] with
    | some year, some month, some day => isDay year month day
    | _, _, _ => false
  | _ => false

/-- Nothing, or the distance from universal time. -/
def isOffset : List Char → Bool
  | [] => true
  | [z] => z = 'Z' || z = 'z'
  | [sign, h₁, h₂, ':', m₁, m₂] =>
    (sign = '+' || sign = '-') && isBetween 0 23 h₁ h₂ && isBetween 0 59 m₁ m₂
  | _ => false

/-- What follows the seconds of a time: digits after a point, and the
distance from universal time where `offset` allows one. -/
def isTimeTail (offset : Bool) (cs : List Char) : Bool :=
  let rest := match cs with
    | '.' :: c :: rest => if c.isDigit then rest.dropWhile (·.isDigit) else cs
    | cs => cs
  if offset then isOffset rest else rest.isEmpty

/-- A time of the day. -/
def isTime (offset : Bool) : List Char → Bool
  | h₁ :: h₂ :: ':' :: m₁ :: m₂ :: ':' :: s₁ :: s₂ :: rest =>
    isBetween 0 23 h₁ h₂ && isBetween 0 59 m₁ m₂ && isBetween 0 60 s₁ s₂ && isTimeTail offset rest
  | _ => false

/-- A date and a time with what may stand between them. -/
def isDateTime (cs : List Char) : Bool :=
  isDate (cs.take 10) &&
    match cs.drop 10 with
    | [] => true
    | mark :: rest => (mark = 'T' || mark = 't' || mark = ' ') && isTime true rest

/-! ## Values -/

/-- The value of an unquoted text. A date is a table, none of whose members
is a setting. -/
def atom? (cs : List Char) : Option Setting :=
  if cs = ['t', 'r', 'u', 'e'] then some (.flag true)
  else if cs = ['f', 'a', 'l', 's', 'e'] then some (.flag false)
  else if isInteger cs || isFloat cs then some .number
  else if isDateTime cs || isTime false cs then some (.table [])
  else none

end HotspotBackup.Toml
