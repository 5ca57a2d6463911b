import HotspotBackup.Json.Quoted
import HotspotBackup.Json.Token

/-!
# JSON documents

A `Json` value is what a document says before anything is decided about it:
numbers are kept as their characters and strings as their octets, so that a
value that nobody looks at may hold a number of any size and a string that
is no text.

`Json.ofTokens?` builds the value structurally on the tokens, with a stack
of the arrays and objects that are open (`Frame`); values may nest to any
depth.
-/

namespace HotspotBackup

/-- A value of a document. -/
inductive Json where
  | null
  | bool (b : Bool)
  | number (digits : List Char)
  | string (raw : Bytes)
  | array (items : List Json)
  | object (members : List (Bytes × Json))

namespace Json

/-- An array or object that is open, with what it holds so far, last first. -/
inductive Frame where
  | array (items : List Json)
  /-- An object whose member `key` is under way. -/
  | object (members : List (Bytes × Json)) (key : Bytes)

/-- What may come next. -/
inductive Expected where
  | value
  /-- After the start of an array. -/
  | valueOrEnd
  /-- After the start of an object. -/
  | keyOrEnd (stack : List Frame)
  /-- After a comma of an object that holds `members`. -/
  | key (members : List (Bytes × Json)) (stack : List Frame)
  /-- After the name of a member. -/
  | colon
  /-- After a value. -/
  | separator (last : Json)

/-- The value of the tokens, given what may come next and the stack of what
is open. -/
def build? : Expected → List Frame → List Token → Option Json
  | .separator v, [], [] => some v
  | .separator v, .array items :: stack, .comma :: rest =>
    build? .value (.array (v :: items) :: stack) rest
  | .separator v, .array items :: stack, .endArray :: rest =>
    build? (.separator (.array (v :: items).reverse)) stack rest
  | .separator v, .object members key :: stack, .comma :: rest =>
    build? (.key ((key, v) :: members) stack) stack rest
  | .separator v, .object members key :: stack, .endObject :: rest =>
    build? (.separator (.object ((key, v) :: members).reverse)) stack rest
  | .colon, stack, .colon :: rest => build? .value stack rest
  | .key members stack, _, .string key :: rest =>
    build? .colon (.object members key :: stack) rest
  | .keyOrEnd stack, _, .string key :: rest => build? .colon (.object [] key :: stack) rest
  | .keyOrEnd stack, _, .endObject :: rest => build? (.separator (.object [])) stack rest
  | .valueOrEnd, .array [] :: stack, .endArray :: rest =>
    build? (.separator (.array [])) stack rest
  | .value, stack, token :: rest | .valueOrEnd, stack, token :: rest =>
    match token with
    | .null => build? (.separator .null) stack rest
    | .bool b => build? (.separator (.bool b)) stack rest
    | .number digits => build? (.separator (.number digits)) stack rest
    | .string raw => build? (.separator (.string raw)) stack rest
    | .beginArray => build? .valueOrEnd (.array [] :: stack) rest
    | .beginObject => build? (.keyOrEnd stack) stack rest
    | .endArray | .endObject | .colon | .comma => none
  | _, _, _ => none

/-- A value is read when nothing is open and nothing follows. -/
theorem build?_separator (v : Json) : build? (.separator v) [] [] = some v := by
  rw [build?]

/-- The value of the tokens of a whole document. -/
def ofTokens? (tokens : List Token) : Option Json :=
  build? .value [] tokens

/-- The value of a document. -/
def parse? (text : Bytes) : Option Json := do
  ofTokens? (← Token.scan text)

/-! ## Views -/

/-- The text of a string. -/
def text? : Json → Option String
  | string raw => Quoted.decode? raw
  | _ => none

/-- The value of a flag. -/
def flag? : Json → Option Bool
  | bool b => some b
  | _ => none

/-- The number of a plain decimal below `bound`: no sign, no fraction and
no exponent. -/
def below? (bound : Nat) : Json → Option Nat
  | number digits => (Digits.plainDecimal? digits).filter (· < bound)
  | _ => none

end Json

end HotspotBackup
