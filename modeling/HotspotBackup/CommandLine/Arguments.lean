import HotspotBackup.CommandLine.Grammar

/-!
# Arguments

Arguments are read one after another, each into the scope of the level that
is under way (`Scope`). A switch or operand is settled, and its value
checked, only when the next one at its level comes or when everything has
been read; so a request for help that comes before that is still answered,
and one that comes later is not.
-/

namespace HotspotBackup.CommandLine

/-- Why arguments make no command. -/
inductive Refusal where
  /-- The arguments are wrong. -/
  | usage
  /-- Help or the version is asked for. -/
  | display
  deriving DecidableEq, Repr

/-- What is not settled yet. -/
inductive Pending where
  /-- A switch, whose value may be still to come. -/
  | switch (s : Switch) (value : Option String)
  | operand (text : String)
  deriving DecidableEq, Repr

/-- What has been given at a level. -/
structure Scope where
  level : Level
  /-- The switches with their values; those without one have an empty text. -/
  given : List (Switch × String) := []
  operands : List String := []
  pending : Option Pending := none
  /-- Whether all that follows is an operand. -/
  operandsOnly : Bool := false
  deriving DecidableEq, Repr

namespace Scope

/-- Whether a switch has been given. -/
def has (s : Scope) (w : Switch) : Bool :=
  s.given.any (·.1 = w)

/-- A switch with a value, which it must accept. -/
def giveSwitch (s : Scope) (w : Switch) (value : String) : Except Refusal Scope :=
  if (s.has w && !w.repeats) || !w.accepts value then .error .usage
  else .ok { s with given := s.given ++ [(w, value)] }

/-- An operand, which its place must accept. -/
def giveOperand (s : Scope) (text : String) : Except Refusal Scope :=
  if (s.level.operands[s.operands.length]?).any (·.accepts text) then
    .ok { s with operands := s.operands ++ [text] }
  else .error .usage

/-- The scope with nothing pending. -/
def settle (s : Scope) : Except Refusal Scope :=
  let settled := { s with pending := none }
  match s.pending with
  | none => .ok s
  | some (.switch _ none) => .error .usage
  | some (.switch w (some value)) => settled.giveSwitch w value
  | some (.operand text) => settled.giveOperand text

/-- A switch without a value. -/
def flag (s : Scope) (w : Switch) : Except Refusal Scope := do
  let settled ← s.settle
  if w = .help ∨ w = .version then .error .display else settled.giveSwitch w ""

/-- A switch with the value that is attached to it. -/
def attach (s : Scope) (w : Switch) (value : List Char) : Except Refusal Scope := do
  (← s.settle).giveSwitch w (String.ofList value)

/-- A switch whose value is still to come. -/
def await (s : Scope) (w : Switch) : Except Refusal Scope := do
  return { ← s.settle with pending := some (.switch w none) }

/-- A switch by its name, with what follows an equals sign. -/
def long (s : Scope) (body : List Char) : Except Refusal Scope :=
  let name := String.ofList (body.takeWhile (· ≠ '='))
  match s.level.switches.find? (·.long = name), body.dropWhile (· ≠ '=') with
  | none, _ => .error .usage
  | some w, [] => if w.takesValue then s.await w else s.flag w
  | some w, _ :: value => if w.takesValue then s.attach w value else .error .usage

/-- Switches by their letters, of which the last may have a value. -/
def short (s : Scope) : List Char → Except Refusal Scope
  | [] => .ok s
  | letter :: rest =>
    match s.level.switches.find? (·.short? = some letter) with
    | none => .error .usage
    | some w =>
      if w.takesValue then
        match rest with
        | [] => s.await w
        | '=' :: value => s.attach w value
        | value => s.attach w value
      else do (← s.flag w).short rest

/-- The switch whose value is still to come. -/
def awaited? (s : Scope) : Option Switch :=
  match s.pending with
  | some (.switch w none) => some w
  | _ => none

/-- The number of operands so far. -/
def operandCount (s : Scope) : Nat :=
  s.operands.length + match s.pending with
    | some (.operand _) => 1
    | _ => 0

/-- An operand comes. -/
def operand (s : Scope) (text : String) : Except Refusal Scope :=
  if s.operandCount < s.level.operands.length then do
    return { ← s.settle with pending := some (.operand text) }
  else .error .usage

/-- An argument that is no subcommand comes. -/
def argument (s : Scope) (text : String) : Except Refusal Scope :=
  if s.operandsOnly then s.operand text
  else match text.toList with
  | ['-', '-'] => .ok { s with operandsOnly := true }
  | '-' :: '-' :: body => s.long body
  | '-' :: letter :: rest => s.short (letter :: rest)
  | _ =>
    match s.awaited? with
    | some w => .ok { s with pending := some (.switch w (some text)) }
    | none => s.operand text

/-- The level that an argument enters. -/
def enters? (s : Scope) (text : String) : Option Level :=
  if s.operandsOnly || s.awaited?.isSome then none else s.level.subcommand? text

/-- The scope at the end of the arguments. Where the file of settings is not
given here, the one that the environment names must be one. -/
def close (e : Environment) (s : Scope) : Except Refusal Scope := do
  let settled ← s.settle
  let named := if settled.has .config then none else e.get? "SOFTAP_CONFIG"
  if named.any (!Switch.config.accepts ·) then .error .usage
  else if settled.operands.length < settled.level.operands.length then .error .usage
  else .ok settled

end Scope

/-- How far reading has come. -/
inductive Progress where
  /-- At a level, inside others. -/
  | reading (scope : Scope) (outer : List Scope)
  /-- Naming the command that help is asked for. -/
  | helping (level : Level)
  deriving DecidableEq, Repr

namespace Progress

/-- The progress after an argument. -/
def step : Progress → String → Except Refusal Progress
  | helping l, text =>
    match l.subcommand? text with
    | some inner => .ok (helping inner)
    | none => .error .usage
  | reading s outer, text =>
    match s.enters? text with
    | some .help => .ok (helping s.level)
    | some inner => .ok (reading { level := inner } (s :: outer))
    | none => do return reading (← s.argument text) outer

/-- The scopes at the end of the arguments, the innermost first. That one
must be of a command, not of a group of them. -/
def close (e : Environment) : Progress → Except Refusal (List Scope)
  | helping _ => .error .display
  | reading s outer => do
    let closed ← (s :: outer).mapM (Scope.close e)
    if s.level.subcommands.isEmpty then return closed else .error .usage

end Progress

/-- The scopes of arguments, the innermost first. -/
def scopes (e : Environment) (arguments : List String) : Except Refusal (List Scope) := do
  (← arguments.foldlM Progress.step (.reading { level := .program } [])).close e

end HotspotBackup.CommandLine
