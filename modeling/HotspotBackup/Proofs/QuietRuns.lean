import HotspotBackup.Proofs.Processes
import HotspotBackup.Proofs.QuietSwitch

/-!
# Quiet runs

A quiet command does what it does otherwise, and fails where it fails
otherwise. It only says less: no report and no notice, but still what is no
report (`Command.speaks`).

* `encode_quiet`, `decode_quiet` and so on, together `plan_hushed`: the plan of
  a quiet command is that of the other, hushed.
* `execute_hushed`: so is its process.
* `quietRun_execute`: what that means for two command lines in one world.
* `completions_quiet`: a script is not kept back.
* `quietRun_of_first`: any command line, and the same behind the switch.
-/

namespace HotspotBackup.CommandLine

/-- Whether a command has something for standard output that is no report: a
payload that goes to no file, the path of the file of settings, or a script. -/
def Command.speaks : Command → Bool
  | encode _ none _ _ | configPath | completions _ => true
  | encode _ (some _) _ _ | decode .. | inspect .. | configShow | configSet .. => false

/-! ## Plans -/

/-- The plan with nothing to show but what a command has to say. -/
def Plan.hushed (c : Command) (p : Plan) : Plan :=
  { p with output := if c.speaks then p.output else [], notice := "" }

section

variable {o : Options} {c : Command}

theorem shown_quiet (hc : c.speaks = false) (ho : o.quiet = false) (s : Settings) (r : Report) :
    ({ o with quiet := true } : Options).shown s r = (o.shown s r).hushed c := by
  simp only [Options.shown, ho, Plan.hushed, hc]
  rfl

/-- What a hushed computation comes to is hushed in its last step. -/
theorem hushed_bind {α : Type} (r : Except Failure α) {next next' : α → Except Failure Plan}
    (h : ∀ a, next' a = Plan.hushed c <$> next a) :
    (r >>= next') = Plan.hushed c <$> (r >>= next) := by
  rw [funext h, map_bind]

variable (w : World)

theorem encode_quiet (input : String) (out : Option String) (version : Option Int32)
    (hex : Bool) :
    encode w { o with quiet := true } input out version hex =
      Plan.hushed (.encode input out version hex) <$> encode w o input out version hex := by
  refine hushed_bind _ fun text => hushed_bind _ fun configuration => ?_
  refine hushed_bind _ fun format => hushed_bind _ fun payload => ?_
  cases out with
  | none => rfl
  | some path => rfl

theorem decode_quiet (ho : o.quiet = false) (input : String) (legacy hex : Bool)
    (autoShutdown : Option Bool) :
    decode w { o with quiet := true } input legacy hex autoShutdown =
      Plan.hushed (.decode input legacy hex autoShutdown) <$>
        decode w o input legacy hex autoShutdown := by
  refine hushed_bind _ fun payload => hushed_bind _ fun configuration => ?_
  exact congrArg Except.ok (shown_quiet rfl ho _ _)

theorem inspect_quiet (ho : o.quiet = false) (input : String) (hex : Bool) :
    inspect w { o with quiet := true } input hex =
      Plan.hushed (.inspect input hex) <$> inspect w o input hex := by
  refine hushed_bind _ fun payload => hushed_bind _ fun format => ?_
  exact congrArg Except.ok (shown_quiet rfl ho _ _)

theorem configShow_quiet (ho : o.quiet = false) :
    configShow w { o with quiet := true } = Plan.hushed .configShow <$> configShow w o :=
  hushed_bind _ fun _ => congrArg Except.ok (shown_quiet rfl ho _ _)

theorem configSet_quiet (name value : String) :
    configSet w { o with quiet := true } name value =
      Plan.hushed (.configSet name value) <$> configSet w o name value :=
  hushed_bind _ fun _ => hushed_bind _ fun _ => hushed_bind _ fun _ => rfl

end

/-- To be quiet changes what a plan shows, and nothing else about it: neither
whether there is one nor what it changes. -/
theorem plan_hushed {i : Invocation} (hi : i.options.quiet = false) (w : World) :
    i.hushed.plan w = Plan.hushed i.command <$> i.plan w := by
  obtain ⟨o, command⟩ := i
  cases command with
  | encode input out version hex => exact encode_quiet w input out version hex
  | decode input legacy hex shutdown => exact decode_quiet w hi input legacy hex shutdown
  | inspect input hex => exact inspect_quiet w hi input hex
  | configShow => exact configShow_quiet w hi
  | configPath => rfl
  | configSet name value => exact configSet_quiet w name value
  | completions shell => rfl

/-! ## Processes -/

/-- The process with nothing written but what a command has to say. -/
def Process.hushed (c : Command) (p : Process) : Process :=
  { p with output := if c.speaks then p.output else [], notice := "" }

section

variable {platform : Platform} {e : Environment} {arguments quietArguments : List String}
  {i : Invocation}

/-- A quiet process ends as the other does, and is that process hushed. -/
theorem execute_hushed (hi : parse e arguments = .ok i) (hloud : i.options.quiet = false)
    (hquiet : parse e quietArguments = .ok i.hushed) (input : Bytes) (f : Files) :
    execute platform e input quietArguments f = ((execute platform e input arguments f).1,
      (execute platform e input arguments f).2.hushed i.command) := by
  have hplan := plan_hushed hloud (.of platform e input f)
  rcases execute_cases hi platform input f with ⟨failure, h, hrun⟩ | ⟨plan, g, h, hchanges, hrun⟩ |
    ⟨plan, g, h, hchanges, hrun⟩
  · rw [h] at hplan
    rw [hrun, execute_of_failure hquiet hplan, Process.hushed, ite_self]
  · rw [h] at hplan
    -- a hushed plan has the changes of the plan, so they end alike
    have hchanges' : f.applyAll (plan.hushed i.command).changes = (true, g) := hchanges
    rw [hrun, execute_of_plan hquiet hplan, hchanges']
    rfl
  · rw [h] at hplan
    have hchanges' : f.applyAll (plan.hushed i.command).changes = (false, g) := hchanges
    rw [hrun, execute_of_plan hquiet hplan, hchanges', Process.hushed, ite_self]
    rfl

/-- What a quiet run has in common with a loud one of the same command, and what
it says. -/
structure QuietRun (c : Command) (quiet loud : Ending × Process) : Prop where
  ending : quiet.1 = loud.1
  exitStatus : quiet.1.exitStatus = loud.1.exitStatus
  files : quiet.2.files = loud.2.files
  notice : quiet.2.notice = ""
  spoken : c.speaks = true → quiet.2.output = loud.2.output
  unspoken : c.speaks = false → quiet.2.output = []

theorem quietRun_hushed (c : Command) (run : Ending × Process) :
    QuietRun c (run.1, run.2.hushed c) run where
  ending := rfl
  exitStatus := rfl
  files := rfl
  notice := rfl
  spoken h := if_pos h
  unspoken h := if_neg (h ▸ Bool.false_ne_true)

/-- Of two command lines that differ in nothing but being quiet, run in the same
world, the quiet one is only quiet. -/
theorem quietRun_execute (hi : parse e arguments = .ok i) (hloud : i.options.quiet = false)
    (hquiet : parse e quietArguments = .ok i.hushed) (input : Bytes) (f : Files) :
    QuietRun i.command (execute platform e input quietArguments f)
      (execute platform e input arguments f) := by
  rw [execute_hushed hi hloud hquiet input f]
  exact quietRun_hushed i.command _

/-- An edit that makes its file, and the path of that file, which is shown even
so. -/
theorem quietRun_execute_deep :
    (execute default [] [] deepArguments tornFiles).2.notice =
        "✓ Set hex in etc/hotspot/config.toml\n" ∧
      QuietRun (.configSet "hex" "true")
        (execute default [] [] ("--quiet" :: deepArguments) tornFiles)
        (execute default [] [] deepArguments tornFiles) ∧
      (execute default [] [] ["config", "path"] tornFiles).2.output ≠ [] ∧
      QuietRun .configPath (execute default [] [] ["config", "path", "-q"] tornFiles)
        (execute default [] [] ["config", "path"] tornFiles) := by
  refine ⟨by decide +kernel, ?_, by decide +kernel, ?_⟩
  · exact quietRun_execute (e := [])
      (i := { options := { config := some "etc/hotspot/config.toml" }
              command := .configSet "hex" "true" })
      (by decide +kernel) rfl (by decide +kernel) [] tornFiles
  · exact quietRun_execute (e := []) (i := { options := {}, command := .configPath })
      (by decide +kernel) rfl (by decide +kernel) [] tornFiles

/-- A platform that has a script for every shell. -/
def scripted : Platform :=
  { (default : Platform) with completions := fun _ => Utf8.encode "complete -F _softap softap\n" }

/-- The script that completes command lines is written by a quiet command too, though
it is neither a payload nor the path of the file of settings. -/
theorem completions_quiet :
    parse [] ["completions", "bash"] =
        .ok { options := {}, command := .completions .bash } ∧
      parse [] ["-q", "completions", "bash"] =
        .ok { options := { quiet := true }, command := .completions .bash } ∧
      (execute scripted [] [] ["-q", "completions", "bash"] tornFiles).1 = .done ∧
      (execute scripted [] [] ["-q", "completions", "bash"] tornFiles).2.output =
        scripted.completions .bash ∧
      scripted.completions .bash ≠ [] := by
  refine ⟨?_, ?_, ?_, ?_, ?_⟩ <;> decide +kernel

/-- A command line that is not quiet, and the same behind the switch. -/
theorem quietRun_of_first {flag : String} (hflag : flag = "-q" ∨ flag = "--quiet")
    (hi : parse e arguments = .ok i) (hloud : i.options.quiet = false) (input : Bytes)
    (f : Files) : QuietRun i.command (execute platform e input (flag :: arguments) f)
      (execute platform e input arguments f) := by
  rw [execute_hushed hi hloud (parse_quiet hflag hi hloud) input f]
  exact quietRun_hushed i.command _

end

end HotspotBackup.CommandLine
