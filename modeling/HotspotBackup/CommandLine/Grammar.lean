import HotspotBackup.Settings.Edit

/-!
# The grammar of the command line

Commands stand inside one another as levels: the program, its subcommands,
and theirs. Each level has switches of its own beside those of every level,
and takes a fixed number of operands.
-/

namespace HotspotBackup.CommandLine

/-- What can be given by a name. -/
inductive Switch where
  /-- The file of settings. -/
  | config
  /-- The format of reports. -/
  | output
  | verbose
  | quiet
  | help
  | version
  /-- The file that a payload is written to. -/
  | out
  /-- The tag of the format of a payload. -/
  | formatVersion
  | hex
  | legacy
  | autoShutdown
  deriving DecidableEq, Repr

namespace Switch

/-- The name of a switch, after two hyphens. -/
def long : Switch → String
  | config => "config"
  | output => "output"
  | verbose => "verbose"
  | quiet => "quiet"
  | help => "help"
  | version => "version"
  | out => "out"
  | formatVersion => "format-version"
  | hex => "hex"
  | legacy => "legacy"
  | autoShutdown => "auto-shutdown"

/-- The letter of a switch, after one hyphen. -/
def short? : Switch → Option Char
  | output => some 'o'
  | verbose => some 'v'
  | quiet => some 'q'
  | help => some 'h'
  | version => some 'V'
  | config | out | formatVersion | hex | legacy | autoShutdown => none

/-- Whether a value belongs to a switch. -/
def takesValue : Switch → Bool
  | config | output | out | formatVersion | autoShutdown => true
  | verbose | quiet | help | version | hex | legacy => false

/-- Whether a switch may be given more than once at a level. -/
def repeats : Switch → Bool
  | verbose => true
  | _ => false

end Switch

/-- The number of 32 bits that a text spells, with or without a sign. -/
def int32? (text : String) : Option Int32 := do
  let (sign, digits) := Decimal.sign text.toList
  let magnitude ← Digits.read? 10 digits
  let value : Int := if sign = some '-' then -magnitude else magnitude
  if -2147483648 ≤ value ∧ value ≤ 2147483647 then return Int32.ofInt value else none

/-- Whether a text is a value of a switch. -/
def Switch.accepts (text : String) : Switch → Bool
  | config | out => text ≠ ""
  | output => (OutputFormat.ofName? text).isSome
  | formatVersion => (int32? text).isSome
  | autoShutdown => (Settings.flagOfText? text).isSome
  | _ => true

/-- What an operand is. -/
inductive Operand where
  | path
  | text
  | shell
  deriving DecidableEq, Repr

/-- The shells that completions can be made for. -/
inductive Shell where
  | bash
  | elvish
  | fish
  | powershell
  | zsh
  deriving DecidableEq, Repr

namespace Shell

/-- Every shell. -/
def all : List Shell :=
  [bash, elvish, fish, powershell, zsh]

/-- The name of a shell. -/
def name : Shell → String
  | bash => "bash"
  | elvish => "elvish"
  | fish => "fish"
  | powershell => "powershell"
  | zsh => "zsh"

/-- The shell of a name. -/
def ofName? (name : String) : Option Shell :=
  all.find? (·.name = name)

end Shell

/-- Whether a text can be an operand. -/
def Operand.accepts (text : String) : Operand → Bool
  | path => text ≠ ""
  | .text => true
  | shell => (Shell.ofName? text).isSome

/-- The level of a command. -/
inductive Level where
  | program
  | encode
  | decode
  | inspect
  | config
  | configShow
  | configPath
  | configSet
  | completions
  | help
  deriving DecidableEq, Repr

namespace Level

/-- The switches of every level. -/
def sharedSwitches : List Switch :=
  [.config, .output, .verbose, .quiet, .help, .version]

/-- The switches of a level. -/
def switches : Level → List Switch
  | encode => sharedSwitches ++ [.out, .formatVersion, .hex]
  | decode => sharedSwitches ++ [.legacy, .hex, .autoShutdown]
  | inspect => sharedSwitches ++ [.hex]
  | program | config | configShow | configPath | configSet | completions | help => sharedSwitches

/-- The operands of a level, all of which must be given. -/
def operands : Level → List Operand
  | encode | decode | inspect => [.path]
  | configSet => [.text, .text]
  | completions => [.shell]
  | program | config | configShow | configPath | help => []

/-- The levels inside a level, by their names. -/
def subcommands : Level → List (String × Level)
  | program =>
    [("encode", encode), ("enc", encode), ("decode", decode), ("dec", decode),
      ("inspect", inspect), ("config", config), ("completions", completions), ("help", help)]
  | config => [("show", configShow), ("path", configPath), ("set", configSet), ("help", help)]
  | encode | decode | inspect | configShow | configPath | configSet | completions | help => []

/-- The level of a name inside a level. -/
def subcommand? (l : Level) (name : String) : Option Level :=
  (l.subcommands.find? (·.1 = name)).map (·.2)

end Level

end HotspotBackup.CommandLine
