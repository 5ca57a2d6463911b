import HotspotBackup.Json.Tree
import HotspotBackup.Proofs.Decimals
import HotspotBackup.Proofs.JsonQuoting

/-!
# The grammar of JSON texts

Which octets say a value, stated without the scanner and the reader:
`NumberText` and `StringText` say how numbers and strings are spelt, `LaidOut`
that octets are some tokens with white space anywhere between them, and
`Json.Spells v text` that they are the tokens of the value `v`.

A value says how its numbers and strings are spelt, so that a text has one value
at most, but a value has many texts.
-/

namespace HotspotBackup

namespace Json

/-! ## Numbers -/

/-- At least one digit. -/
structure DigitsText (cs : List Char) : Prop where
  nonempty : cs ≠ []
  digits : ∀ c ∈ cs, c.isDigit = true

/-- The whole part of a number: a single zero, or digits that do not begin with one. -/
inductive WholeText : List Char → Prop
  | zero : WholeText ['0']
  | other {first : Char} {rest : List Char} : first ≠ '0' → DigitsText (first :: rest) →
    WholeText (first :: rest)

/-- Nothing, or digits behind a point. -/
inductive FractionText : List Char → Prop
  | absent : FractionText []
  | present {digits : List Char} : DigitsText digits → FractionText ('.' :: digits)

/-- Nothing, or digits behind a mark and perhaps a sign. -/
inductive ExponentText : List Char → Prop
  | absent : ExponentText []
  | present {mark : Char} {sign digits : List Char} : mark ∈ ['e', 'E'] →
    sign ∈ [[], ['+'], ['-']] → DigitsText digits → ExponentText (mark :: (sign ++ digits))

/-- A number: perhaps a minus, and then its three parts. -/
inductive NumberText : List Char → Prop
  | mk {sign whole fraction exponent : List Char} : sign ∈ [[], ['-']] → WholeText whole →
    FractionText fraction → ExponentText exponent →
    NumberText (sign ++ (whole ++ (fraction ++ exponent)))

/-! ## Strings -/

/-- An octet that is a hexadecimal digit. -/
def IsHexOctet (octet : UInt8) : Prop :=
  (Digits.hexValue? (Char.ofNat octet.toNat)).isSome = true

/-- What may stand between quotation marks: any octets but quotation marks,
backslashes and control characters, and escapes of one letter or of four
hexadecimal digits. -/
inductive StringText : Bytes → Prop
  | nil : StringText []
  | plain {octet : UInt8} {rest : Bytes} : octet.toNat ≠ 34 → octet.toNat ≠ 92 →
    32 ≤ octet.toNat → StringText rest → StringText (octet :: rest)
  | letter {octet : UInt8} {rest : Bytes} : octet ∈ [34, 92, 47, 98, 102, 110, 114, 116] →
    StringText rest → StringText (92 :: octet :: rest)
  | unit {a b c d : UInt8} {rest : Bytes} : (∀ octet ∈ [a, b, c, d], IsHexOctet octet) →
    StringText rest → StringText (92 :: 117 :: a :: b :: c :: d :: rest)

/-! ## Tokens -/

/-- The octets of a token. -/
def Token.octets : Token → Bytes
  | beginObject => Utf8.octets ['\x7b']
  | endObject => Utf8.octets ['\x7d']
  | beginArray => Utf8.octets ['[']
  | endArray => Utf8.octets [']']
  | colon => Utf8.octets [':']
  | comma => Utf8.octets [',']
  | null => Utf8.octets ['n', 'u', 'l', 'l']
  | bool b => Utf8.octets (Scalar.word b)
  | number digits => Utf8.octets digits
  | string raw => 34 :: (raw ++ [34])

/-- A number or a string is spelt as one. -/
def Token.WellFormed : Token → Prop
  | number digits => NumberText digits
  | string raw => StringText raw
  | _ => True

/-- White space. -/
def IsGap (gap : Bytes) : Prop :=
  ∀ octet ∈ gap, octet ∈ [32, 9, 10, 13]

/-- Octets are some tokens, with white space in front of each and behind the last. -/
inductive LaidOut : List Token → Bytes → Prop
  | nil {gap : Bytes} : IsGap gap → LaidOut [] gap
  | cons {gap rest : Bytes} {token : Token} {tokens : List Token} : IsGap gap →
    token.WellFormed → LaidOut tokens rest →
    LaidOut (token :: tokens) (gap ++ (token.octets ++ rest))

/-! ## Values -/

/-- The tokens of a value. -/
def tokens : Json → List Token
  | null => [.null]
  | bool b => [.bool b]
  | number digits => [.number digits]
  | string raw => [.string raw]
  | array items =>
    .beginArray :: List.intercalate [.comma] (items.map fun v => v.tokens) ++ [.endArray]
  | object members =>
    .beginObject :: List.intercalate [.comma] (members.map fun m =>
      .string m.1 :: .colon :: m.2.tokens) ++ [.endObject]
termination_by v => sizeOf v
decreasing_by
  · have := List.sizeOf_lt_of_mem ‹_›
    simp only [array.sizeOf_spec]
    omega
  · have := List.sizeOf_lt_of_mem ‹_›
    rcases m with ⟨key, v⟩
    simp only [object.sizeOf_spec, Prod.mk.sizeOf_spec] at this ⊢
    omega

/-- A text says a value. -/
def Spells (v : Json) (text : Bytes) : Prop :=
  LaidOut v.tokens text

/-! ## Layouts -/

section

variable {gap b b' : Bytes} {ts ts' : List Token}

theorem LaidOut.behind (hg : IsGap gap) (h : LaidOut ts b) : LaidOut ts (gap ++ b) := by
  have happend : ∀ {gap'}, IsGap gap' → IsGap (gap ++ gap') := fun hg' octet ho =>
    (List.mem_append.1 ho).elim (hg octet) (hg' octet)
  cases h with
  | nil hg' => exact .nil (happend hg')
  | cons hg' hw hrest =>
    rw [← List.append_assoc]
    exact .cons (happend hg') hw hrest

/-- By induction on the first layout. -/
theorem LaidOut.append (h : LaidOut ts b) (h' : LaidOut ts' b') :
    LaidOut (ts ++ ts') (b ++ b') := by
  induction h with
  | nil hg => exact h'.behind hg
  | cons hg hw _ ih =>
    rw [List.append_assoc, List.append_assoc]
    exact .cons hg hw ih

theorem laidOut_gap (h : IsGap gap) : LaidOut [] gap :=
  .nil h

theorem laidOut_token {token : Token} (h : token.WellFormed) : LaidOut [token] token.octets := by
  have hnone : IsGap [] := fun _ ho => (nomatch ho)
  have hlaid := LaidOut.cons hnone h (.nil hnone)
  rwa [List.nil_append, List.append_nil] at hlaid

end

end Json

end HotspotBackup
