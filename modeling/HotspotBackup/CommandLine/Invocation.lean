import HotspotBackup.CommandLine.Arguments

/-!
# Invocations

What arguments ask for, once they are known to be right: a command with
what it needs, and the options of every command.
-/

namespace HotspotBackup.CommandLine

/-- A command. -/
inductive Command where
  | encode (input : String) (out : Option String) (version : Option Int32) (hex : Bool)
  | decode (input : String) (legacy hex : Bool) (autoShutdown : Option Bool)
  | inspect (input : String) (hex : Bool)
  /-- Shows the settings. -/
  | configShow
  /-- Shows the path of the file of settings. -/
  | configPath
  | configSet (name value : String)
  /-- Writes the script that completes command lines in a shell. -/
  | completions (shell : Shell)
  deriving DecidableEq, Repr

/-- The options of every command. -/
structure Options where
  /-- The path of the file of settings. -/
  config : Option String := none
  output : Option OutputFormat := none
  quiet : Bool := false
  deriving DecidableEq, Repr

/-- A command with its options. -/
structure Invocation where
  options : Options
  command : Command
  deriving DecidableEq, Repr

/-- The value of a switch, at the innermost level where it is given. -/
def value? (scopes : List Scope) (w : Switch) : Option String :=
  scopes.findSome? fun s => (s.given.find? (·.1 = w)).map (·.2)

/-- The options of every command. -/
def options (e : Environment) (scopes : List Scope) : Options where
  config := value? scopes .config <|> e.get? "SOFTAP_CONFIG"
  output := value? scopes .output >>= OutputFormat.ofName?
  quiet := (value? scopes .quiet).isSome

/-- The command of a scope. -/
def command? (s : Scope) : Option Command :=
  match s.level, s.operands with
  | .encode, [input] =>
    some (.encode input (value? [s] .out) (value? [s] .formatVersion >>= int32?) (s.has .hex))
  | .decode, [input] =>
    some (.decode input (s.has .legacy) (s.has .hex)
      (value? [s] .autoShutdown >>= Settings.flagOfText?))
  | .inspect, [input] => some (.inspect input (s.has .hex))
  | .configShow, [] => some .configShow
  | .configPath, [] => some .configPath
  | .configSet, [name, value] => some (.configSet name value)
  | .completions, [name] => (Shell.ofName? name).map .completions
  | _, _ => none

/-- The invocation of arguments in an environment. -/
def parse (e : Environment) (arguments : List String) : Except Refusal Invocation := do
  let found ← scopes e arguments
  match found.head? >>= command? with
  | some command => return { options := options e found, command }
  | none => .error .usage

end HotspotBackup.CommandLine
