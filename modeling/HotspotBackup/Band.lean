import HotspotBackup.Text.Digits

/-!
# Radio bands

A `Band` is a non-empty set of the four radio bands, kept as the bit mask
that backups store. Bands are ordered by their masks.
-/

namespace HotspotBackup

/-- One or more radio bands, as a bit mask. -/
structure Band where
  bits : Nat
  bounds : 0 < bits ∧ bits < 16
  deriving DecidableEq

namespace Band

/-- The band of a bit mask, if it names some band and no unknown one. -/
def ofBits? (bits : Nat) : Option Band :=
  if h : 0 < bits ∧ bits < 16 then some ⟨bits, h⟩ else none

/-- The 2.4 GHz band. -/
def ghz2 : Band := ⟨1, by decide⟩

/-- The 5 GHz band. -/
def ghz5 : Band := ⟨2, by decide⟩

/-- The 6 GHz band. -/
def ghz6 : Band := ⟨4, by decide⟩

/-- The 60 GHz band. -/
def ghz60 : Band := ⟨8, by decide⟩

instance : Inhabited Band := ⟨ghz2⟩

theorem ext {a b : Band} (h : a.bits = b.bits) : a = b := by
  cases a; cases b; cases h; rfl

@[simp] theorem ofBits?_bits (b : Band) : ofBits? b.bits = some b := by
  simp [ofBits?, b.bounds]

theorem bits_of_ofBits? {n : Nat} {b : Band} (h : ofBits? n = some b) : b.bits = n := by
  unfold ofBits? at h
  split at h
  · cases h; rfl
  · cases h

/-- All the bands of either operand. -/
def union (a b : Band) : Band where
  bits := a.bits ||| b.bits
  bounds :=
    ⟨Nat.lt_of_lt_of_le a.bounds.1 Nat.left_le_or,
      Nat.or_lt_two_pow (n := 4) a.bounds.2 b.bounds.2⟩

/-- Whether every band of `b` is one of `a`. -/
def contains (a b : Band) : Bool :=
  a.bits &&& b.bits = b.bits

/-- Whether exactly one band is named. -/
def isSingle (b : Band) : Bool :=
  b.bits = 1 || b.bits = 2 || b.bits = 4 || b.bits = 8

/-- The single bands with their names, in ascending order. -/
def named : List (Band × String) :=
  [(ghz2, "2.4GHz"), (ghz5, "5GHz"), (ghz6, "6GHz"), (ghz60, "60GHz")]

/-- The names of the bands, separated by bars. -/
def text (b : Band) : String :=
  "|".intercalate ((named.filter fun entry => b.contains entry.1).map (·.2))

end Band

end HotspotBackup
