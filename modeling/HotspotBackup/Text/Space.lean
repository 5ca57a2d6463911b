/-!
# White space

The characters that count as white space in any script, and texts without
them at their ends.
-/

namespace HotspotBackup

/-- White space in any script. -/
def isSpace (c : Char) : Bool :=
  let n := c.toNat
  (9 ≤ n && n ≤ 13) || n = 32 || n = 0x85 || n = 0xA0 || n = 0x1680 || (0x2000 ≤ n && n ≤ 0x200A) ||
    n = 0x2028 || n = 0x2029 || n = 0x202F || n = 0x205F || n = 0x3000

/-- A text without the white space at its end. -/
def trimEnd (cs : List Char) : List Char :=
  (cs.reverse.dropWhile isSpace).reverse

/-- A text without the white space at its ends. -/
def trim (cs : List Char) : List Char :=
  trimEnd (cs.dropWhile isSpace)

end HotspotBackup
