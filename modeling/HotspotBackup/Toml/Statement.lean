import HotspotBackup.Toml.Atom
import HotspotBackup.Toml.Node
import HotspotBackup.Toml.Token

/-!
# Statements of TOML

A document is a run of statements: headers that open a table, headers that
add a table to an array of tables, and keys with their values.
`Statement.ofTokens?` reads them, one token after another: a state says
what may come next (`Expected`) and keeps what is open (`Frame`).
-/

namespace HotspotBackup.Toml

/-- A statement of a document. -/
inductive Statement where
  | openTable (path : List String)
  | appendTable (path : List String)
  | assign (path : List String) (value : Setting)

/-- What a key that is under way is for. -/
inductive KeyUse where
  | assignment
  | table
  | tables
  /-- A member of a table in braces. -/
  | member
  deriving DecidableEq, Repr

/-- What is open around a value, the innermost first. -/
inductive Frame where
  /-- A statement. -/
  | line (path : List String)
  /-- An array, with its values so far, last first. -/
  | array (items : List Setting)
  /-- A table in braces, with its members so far and the key of the value. -/
  | braces (members : Members) (path : List String)

/-- What may come next. -/
inductive Expected where
  /-- A statement. -/
  | line
  /-- The rest of a line, without anything in it. -/
  | lineEnd
  /-- After the first bracket of a header. -/
  | header
  /-- A part of a key. -/
  | part (use : KeyUse) (path : List String)
  /-- After a part of a key. -/
  | afterPart (use : KeyUse) (path : List String)
  /-- After the first closing bracket of two. -/
  | tablesEnd (path : List String)
  | value
  /-- A value of an array, or its end. -/
  | item
  /-- A member of a table in braces, or its end. -/
  | member
  /-- More of an unquoted value. -/
  | atom (cs : List Char)
  /-- After a date and a space: a time, or anything that may follow a value. -/
  | time (cs : List Char)
  /-- After a value. -/
  | separator (value : Setting)

/-- Reading in progress, with the statements so far, last first. -/
structure Reading where
  expected : Expected := .line
  stack : List Frame := []
  statements : List Statement := []

/-- Values nest less deep than this, and keys have fewer parts. -/
def depthLimit : Nat := 80

namespace Reading

/-- The reading where `e` comes next. -/
def expect (r : Reading) (e : Expected) : Reading :=
  { r with expected := e }

/-- The reading after a statement. -/
def finish (r : Reading) (s : Statement) (e : Expected) : Reading :=
  { expected := e, stack := [], statements := s :: r.statements }

/-! ## Keys -/

/-- The part of a key that a token spells. -/
def keyPart? : Token → Option String
  | .bare cs => if cs.all isKeyChar then some (String.ofList cs) else none
  | .text q raw => if q.multiline then none else q.decode? raw
  | _ => none

/-- A token where a part of a key must stand. -/
def stepPart (r : Reading) (use : KeyUse) (path : List String) (t : Token) : Option Reading :=
  match t with
  | .blank _ => some (r.expect (.part use path))
  | t => (keyPart? t).map fun part => r.expect (.afterPart use (path ++ [part]))

/-- A token after a part of a key. -/
def stepAfterPart (r : Reading) (use : KeyUse) (path : List String) (t : Token) :
    Option Reading :=
  match use, t, r.stack with
  | _, .blank _, _ => some r
  | _, .dot, _ => if path.length + 1 < depthLimit then some (r.expect (.part use path)) else none
  | .assignment, .equals, _ => some { r with expected := .value, stack := [.line path] }
  | .member, .equals, .braces members _ :: stack =>
    some { r with expected := .value, stack := .braces members path :: stack }
  | .table, .closeBracket, _ => some (r.finish (.openTable path) .lineEnd)
  | .tables, .closeBracket, _ => some (r.expect (.tablesEnd path))
  | _, _, _ => none

/-! ## Values -/

/-- An array or a table in braces begins. -/
def push (r : Reading) (f : Frame) (e : Expected) : Option Reading :=
  if r.stack.length < depthLimit then some { r with expected := e, stack := f :: r.stack }
  else none

/-- A token where a value must stand. -/
def stepValue (r : Reading) (t : Token) : Option Reading :=
  match t with
  | .blank _ => some r
  | .bare cs => some (r.expect (.atom cs))
  | .text q raw => (q.decode? raw).map fun s => r.expect (.separator (.text s))
  | .openBracket => r.push (.array []) .item
  | .openBrace => r.push (.braces [] []) .member
  | _ => none

/-- A token after a value. -/
def stepSeparator (r : Reading) (v : Setting) (t : Token) : Option Reading :=
  match r.stack, t with
  | _, .blank _ => some r
  | [.line path], .newline => some (r.finish (.assign path v) .line)
  | .array _ :: _, .newline => some r
  | .array items :: stack, .comma =>
    some { r with expected := .item, stack := .array (v :: items) :: stack }
  | .array items :: stack, .closeBracket =>
    some { r with expected := .separator (.list (v :: items).reverse), stack }
  | .braces members path :: stack, .comma => do
    let members ← members.assign path v .header
    return { r with expected := .part .member [], stack := .braces members [] :: stack }
  | .braces members path :: stack, .closeBrace => do
    let members ← members.assign path v .header
    return { r with expected := .separator (.table members.settings), stack }
  | _, _ => none

/-- A token where a value of an array, or its end, must stand. -/
def stepItem (r : Reading) (t : Token) : Option Reading :=
  match r.stack, t with
  | _, .newline => some r
  | .array items :: stack, .closeBracket =>
    some { r with expected := .separator (.list items.reverse), stack }
  | _, t => r.stepValue t

/-- A token where a member of a table in braces, or its end, must stand. -/
def stepMember (r : Reading) (t : Token) : Option Reading :=
  match r.stack, t with
  | _, .blank _ => some r
  | .braces _ _ :: stack, .closeBrace =>
    some { r with expected := .separator (.table []), stack }
  | _, t => r.stepPart .member [] t

/-! ## Statements -/

/-- A token where a statement may begin. -/
def stepLine (r : Reading) (t : Token) : Option Reading :=
  match t with
  | .blank _ | .newline => some r
  | .openBracket => some (r.expect .header)
  | t => r.stepPart .assignment [] t

/-- A token after the first bracket of a header. -/
def stepHeader (r : Reading) (t : Token) : Option Reading :=
  match t with
  | .openBracket => some (r.expect (.part .tables []))
  | t => r.stepPart .table [] t

/-- A token after the end of a statement on its line. -/
def stepLineEnd (r : Reading) (t : Token) : Option Reading :=
  match t with
  | .blank _ => some r
  | .newline => some (r.expect .line)
  | _ => none

/-- A token that is not part of the unquoted value before it. -/
def stepAfterAtom (r : Reading) (cs : List Char) (t : Token) : Option Reading := do
  let v ← atom? cs
  (r.expect (.separator v)).stepSeparator v t

/-- A token that may be part of the unquoted value before it. -/
def stepAtom (r : Reading) (cs : List Char) (t : Token) : Option Reading :=
  match t with
  | .bare more => some (r.expect (.atom (cs ++ more)))
  | .dot => some (r.expect (.atom (cs ++ ['.'])))
  | .blank [' '] => if isDate cs then some (r.expect (.time cs)) else r.stepAfterAtom cs t
  | t => r.stepAfterAtom cs t

/-- A token after a date and a space. -/
def stepTime (r : Reading) (cs : List Char) (t : Token) : Option Reading :=
  match t with
  | .bare more => some (r.expect (.atom (cs ++ ' ' :: more)))
  | t => r.stepAfterAtom cs t

/-- The reading after a token. -/
def step (r : Reading) (t : Token) : Option Reading :=
  match r.expected with
  | .line => r.stepLine t
  | .lineEnd => r.stepLineEnd t
  | .header => r.stepHeader t
  | .part use path => r.stepPart use path t
  | .afterPart use path => r.stepAfterPart use path t
  | .tablesEnd path =>
    if t = .closeBracket then some (r.finish (.appendTable path) .lineEnd) else none
  | .value => r.stepValue t
  | .item => r.stepItem t
  | .member => r.stepMember t
  | .atom cs => r.stepAtom cs t
  | .time cs => r.stepTime cs t
  | .separator v => r.stepSeparator v t

/-- The statements of a whole document, after its last token. The end of the
document ends its last line. -/
def close? (r : Reading) : Option (List Statement) := do
  let last ← r.step .newline
  match last.expected with
  | .line => some last.statements.reverse
  | _ => none

end Reading

/-- The statements of the tokens of a document. -/
def Statement.ofTokens? (tokens : List Token) : Option (List Statement) := do
  (← tokens.foldlM Reading.step {}).close?

end HotspotBackup.Toml
