import HotspotBackup.CommandLine.Process
import HotspotBackup.Proofs.Editing

/-!
# What a process leaves behind

A process looks, decides, and acts only when nothing is left to decide. So it
ends as its command was planned, and one that fails has done nothing, unless it
was a change of the files that failed.

* `Follows`: an activity comes to what a plan says. `follows_look`,
  `follows_attempt` and `follows_change` put activities together.
* `follows_perform`: every command comes to its plan, so that `run_eq_execute`.
* `plans_of_plan`: which changes each command can plan.
* `execute_cases`: the ways in which a process with a command ends.
* `orderly_execute`: what it leaves in each of them.
-/

namespace HotspotBackup.CommandLine

open Activity

/-! ## Activities -/

namespace Activity

variable {α β : Type} {a : Activity α} {next : α → Activity β} {p q : Process}

theorem outcome_bind_of_ok {x : α} (h : a.outcome p = (.ok x, q)) :
    (a >>= next).outcome p = (next x).outcome q := by
  unfold outcome at h ⊢
  simp only [ExceptT.run_bind, StateT.run_bind, h]
  rfl

theorem outcome_bind_of_error {failure : Failure} (h : a.outcome p = (.error failure, q)) :
    (a >>= next).outcome p = (.error failure, q) := by
  unfold outcome at h ⊢
  simp only [ExceptT.run_bind, StateT.run_bind, h]
  rfl

theorem outcome_change (refused : Failure) (c : Change) (p : Process) :
    (change refused c).outcome p =
      (if (p.files.apply c).1 then .ok () else .error refused,
        { p with files := (p.files.apply c).2 }) := by
  show outcome (unless (p.files.apply c).1 do throw refused)
    { p with files := (p.files.apply c).2 } = _
  cases (p.files.apply c).1 <;> rfl

end Activity

/-! ## Plans and activities -/

/-- The end of a process that carries a plan out. -/
def Plan.process (p : Plan) (f : Files) : Except Failure Unit × Process :=
  match f.applyAll p.changes with
  | (true, after) => (.ok (), { files := after, output := p.output, notice := p.notice })
  | (false, after) => (.error p.refused, { files := after })

/-- An activity does what a plan says, or nothing at all where there is none. -/
def Follows (a : Activity Unit) (plan : Except Failure Plan) (f : Files) : Prop :=
  a.outcome { files := f } = match plan with
    | .error failure => (.error failure, { files := f })
    | .ok p => p.process f

section

variable {platform : Platform} {e : Environment} {input : Bytes} {o : Options} {f : Files}

theorem follows_look {next : World → Activity Unit} {plan : Except Failure Plan}
    (h : Follows (next (.of platform e input f)) plan f) :
    Follows (look platform e input >>= next) plan f :=
  h

theorem follows_attempt {α : Type} {r : Except Failure α} {next : α → Activity Unit}
    {plan : α → Except Failure Plan} (h : ∀ a, Follows (next a) (plan a) f) :
    Follows (attempt r >>= next) (r >>= plan) f := by
  cases r with
  | error failure => rfl
  | ok a => exact h a

theorem follows_print (content : Bytes) : Follows (print content) (.ok { output := content }) f :=
  rfl

theorem follows_present (s : Settings) (r : Report) :
    Follows (present o s r) (.ok (o.shown s r)) f := by
  unfold present Options.shown
  cases o.quiet with
  | true => rfl
  | false => rfl

theorem follows_notify (refused : Failure) (line : String) :
    Follows (notify line) (.ok { refused, notice := line }) f := by
  show (Except.ok (), ({ files := f, notice := "" ++ line } : Process)) = _
  rw [String.empty_append]
  rfl

/-- A change comes before those that are made where it succeeds. -/
theorem follows_change {refused : Failure} {c : Change} {changes : List Change} {line : String}
    {next : Activity Unit}
    (h : ∀ g, f.apply c = (true, g) → Follows next (.ok { changes, refused, notice := line }) g) :
    Follows (change refused c >>= fun _ => next)
      (.ok { changes := c :: changes, refused, notice := line }) f := by
  unfold Follows
  simp only [Plan.process, Files.applyAll]
  cases hc : f.apply c with
  | mk made g =>
    have hchange := outcome_change refused c { files := f }
    cases made with
    | true =>
      rw [hc] at hchange
      rw [outcome_bind_of_ok hchange]
      exact h g hc
    | false =>
      rw [hc] at hchange
      exact outcome_bind_of_error hchange

/-! ## Commands -/

variable (platform e input o f)

theorem follows_encode (source : String) (out : Option String) (version : Option Int32)
    (hex : Bool) : Follows (performEncode platform e input o source out version hex)
      (encode (.of platform e input f) o source out version hex) f := by
  refine follows_look (follows_look ?_)
  refine follows_attempt fun text => follows_attempt fun configuration => ?_
  refine follows_attempt fun format => follows_attempt fun payload => ?_
  cases out with
  | none => exact follows_print _
  | some path => exact follows_change fun _ _ => follows_notify _ _

theorem follows_decode (source : String) (legacy hex : Bool) (autoShutdown : Option Bool) :
    Follows (performDecode platform e input o source legacy hex autoShutdown)
      (decode (.of platform e input f) o source legacy hex autoShutdown)
      f := by
  refine follows_look (follows_look ?_)
  refine follows_attempt fun payload => follows_look ?_
  exact follows_attempt fun configuration => follows_present _ _

theorem follows_inspect (source : String) (hex : Bool) :
    Follows (performInspect platform e input o source hex)
      (inspect (.of platform e input f) o source hex) f := by
  refine follows_look (follows_look ?_)
  exact follows_attempt fun payload => follows_attempt fun format => follows_present _ _

theorem follows_configShow : Follows (performShow platform e input o)
    (configShow (.of platform e input f) o) f := by
  refine follows_look ?_
  exact follows_attempt fun settings => follows_present _ _

theorem follows_configSet (name value : String) : Follows (performSet platform e input o name value)
    (configSet (.of platform e input f) o name value) f := by
  refine follows_look ?_
  refine follows_attempt fun settings => follows_attempt fun edited => ?_
  refine follows_attempt fun valid => ?_
  exact follows_change fun _ _ => follows_change fun _ _ => follows_notify _ _

end

/-- Every command comes to its plan. -/
theorem follows_perform (i : Invocation) (platform : Platform) (e : Environment) (input : Bytes)
    (f : Files) :
    Follows (i.perform platform e input) (i.plan (.of platform e input f)) f := by
  obtain ⟨o, command⟩ := i
  cases command with
  | encode source out version hex =>
    exact follows_encode platform e input o f source out version hex
  | decode source legacy hex shutdown =>
    exact follows_decode platform e input o f source legacy hex shutdown
  | inspect source hex => exact follows_inspect platform e input o f source hex
  | configShow => exact follows_configShow platform e input o f
  | configPath => exact follows_print _
  | configSet name value => exact follows_configSet platform e input o f name value
  | completions shell => exact follows_print _

/-! ## Endings -/

section

variable {platform : Platform} {e : Environment} {input : Bytes} {arguments : List String}
  {f : Files} {i : Invocation}

/-- A process without a plan does nothing. -/
theorem execute_of_failure (hi : parse e arguments = .ok i) {failure : Failure}
    (hplan : i.plan (.of platform e input f) = .error failure) :
    execute platform e input arguments f = (.failed failure, { files := f }) := by
  have hfollows : (i.perform platform e input).outcome { files := f } = _ :=
    follows_perform i platform e input f
  rw [hplan] at hfollows
  rw [execute, hi]
  simp only [hfollows]

/-- A process with a plan carries it out. -/
theorem execute_of_plan (hi : parse e arguments = .ok i) {plan : Plan}
    (hplan : i.plan (.of platform e input f) = .ok plan) :
    execute platform e input arguments f = match f.applyAll plan.changes with
      | (true, g) => (.done, { files := g, output := plan.output, notice := plan.notice })
      | (false, g) => (.failed plan.refused, { files := g }) := by
  have hfollows : (i.perform platform e input).outcome { files := f } = _ :=
    follows_perform i platform e input f
  rw [hplan] at hfollows
  rw [execute, hi]
  simp only [hfollows, Plan.process]
  cases f.applyAll plan.changes with
  | mk made g => cases made <;> rfl

/-- A process with a command fails with nothing done, or does what was planned,
or fails with a change that was planned. -/
theorem execute_cases (hi : parse e arguments = .ok i) (platform : Platform) (input : Bytes)
    (f : Files) :
    (∃ failure, i.plan (.of platform e input f) = .error failure ∧
      execute platform e input arguments f = (.failed failure, { files := f })) ∨
    (∃ plan g, i.plan (.of platform e input f) = .ok plan ∧
      f.applyAll plan.changes = (true, g) ∧ execute platform e input arguments f =
        (.done, { files := g, output := plan.output, notice := plan.notice })) ∨
    ∃ plan g, i.plan (.of platform e input f) = .ok plan ∧
      f.applyAll plan.changes = (false, g) ∧
      execute platform e input arguments f = (.failed plan.refused, { files := g }) := by
  cases hplan : i.plan (.of platform e input f) with
  | error failure => exact .inl ⟨failure, rfl, execute_of_failure hi hplan⟩
  | ok plan =>
    have hexecute := execute_of_plan hi hplan
    cases hchanges : f.applyAll plan.changes with
    | mk made g =>
      rw [hchanges] at hexecute
      cases made with
      | true => exact .inr (.inl ⟨plan, g, rfl, hchanges, hexecute⟩)
      | false => exact .inr (.inr ⟨plan, g, rfl, hchanges, hexecute⟩)

/-- A process ends with the outcome of its command line, and leaves its files. -/
theorem run_eq_execute (platform : Platform) (e : Environment) (input : Bytes)
    (arguments : List String) (f : Files) :
    run platform e input arguments f = ((execute platform e input arguments f).1.outcome
      (execute platform e input arguments f).2,
      (execute platform e input arguments f).2.files) := by
  cases hi : parse e arguments with
  | error r => simp only [run, execute, hi, Ending.outcome]
  | ok i =>
    rcases execute_cases hi platform input f with
      ⟨failure, hplan, h⟩ | ⟨plan, g, hplan, hchanges, h⟩ | ⟨plan, g, hplan, hchanges, h⟩
    · simp only [run, hi, hplan, h, Ending.outcome]
    · simp only [run, hi, hplan, h, Plan.carryOut, hchanges, Ending.outcome]
    · simp only [run, hi, hplan, h, Plan.carryOut, hchanges, Ending.outcome]

end

/-! ## Changes -/

/-- What a plan of a command can change, given the path of the file of settings. -/
def Command.Plans (settingsPath : String) (p : Plan) : Command → Prop
  | .encode _ out _ _ =>
    p.refused = .file ∧ ∃ content, p.changes = out.toList.map (Change.write · content)
  | .configSet _ _ =>
    p.refused = .settingsFile ∧
      ∃ content, p.changes = [.parents settingsPath, .write settingsPath content]
  | .decode .. | .inspect .. | .configShow | .configPath | .completions _ => p.changes = []

theorem changes_shown (o : Options) (s : Settings) (r : Report) : (o.shown s r).changes = [] := by
  unfold Options.shown
  cases o.quiet <;> rfl

theorem notice_shown (o : Options) (s : Settings) (r : Report) : (o.shown s r).notice = "" := by
  unfold Options.shown
  cases o.quiet <;> rfl

/-- Every plan of a command is one of these. -/
theorem plans_of_plan {i : Invocation} {w : World} {p : Plan} (h : i.plan w = .ok p) :
    i.command.Plans (w.settingsPath i.options) p := by
  obtain ⟨o, command⟩ := i
  cases command with
  | encode source out version hex =>
    simp only [Invocation.plan, encode, bind_eq_ok_iff] at h
    obtain ⟨text, -, configuration, -, format, -, payload, -, hplan⟩ := h
    cases out with
    | none =>
      cases hplan
      exact ⟨rfl, [], rfl⟩
    | some path =>
      cases hplan
      exact ⟨rfl, _, rfl⟩
  | decode source legacy hex shutdown =>
    simp only [Invocation.plan, decode, bind_eq_ok_iff] at h
    obtain ⟨payload, -, configuration, -, hplan⟩ := h
    cases hplan
    exact changes_shown _ _ _
  | inspect source hex =>
    simp only [Invocation.plan, inspect, bind_eq_ok_iff] at h
    obtain ⟨payload, -, format, -, hplan⟩ := h
    cases hplan
    exact changes_shown _ _ _
  | configShow =>
    simp only [Invocation.plan, configShow, bind_eq_ok_iff] at h
    obtain ⟨settings, -, hplan⟩ := h
    cases hplan
    exact changes_shown _ _ _
  | configPath =>
    cases h
    rfl
  | configSet name value =>
    simp only [Invocation.plan, configSet, bind_eq_ok_iff] at h
    obtain ⟨settings, -, edited, -, valid, -, hplan⟩ := h
    cases hplan
    exact ⟨rfl, _, rfl⟩
  | completions shell =>
    cases h
    rfl

/-- A command that only looks at files. -/
def Command.looks : Command → Bool
  | decode .. | inspect .. | configShow | configPath | completions _ => true
  | encode .. | configSet .. => false

theorem changes_of_looks {i : Invocation} {w : World} {p : Plan} (hl : i.command.looks = true)
    (h : i.plan w = .ok p) : p.changes = [] := by
  have hplans := plans_of_plan h
  cases hc : i.command <;> rw [hc] at hl hplans <;> first | exact hplans | cases hl

/-! ## What is left -/

/-- What the process of a command line leaves of the files that it started
with. -/
structure Orderly (platform : Platform) (e : Environment) (arguments : List String) (f : Files)
    (ending : Ending) (p : Process) : Prop where
  refused : ending = .refused .usage → p.files = f ∧ p.output = []
  failed : ∀ failure, ending = .failed failure → failure ≠ .file → failure ≠ .settingsFile →
    p.files = f ∧ p.output = []
  looked : ∀ i, parse e arguments = .ok i → i.command.looks = true → p.files = f
  encoded : ∀ o source version hex,
    parse e arguments = .ok { options := o, command := .encode source none version hex } →
      p.files = f
  /-- Nothing but the file of the backup is written. -/
  encodedTo : ∀ o source path version hex,
    parse e arguments = .ok { options := o, command := .encode source (some path) version hex } →
      ending = .done → ∃ content, f.Rewritten p.files path content []
  /-- Nothing but the file of settings is written, behind directories that were
  missing. -/
  edited : ∀ o name value,
    parse e arguments = .ok { options := o, command := .configSet name value } →
      ending = .done → ∃ content, f.Rewritten p.files (o.settingsPath platform e) content
        (f.parents (o.settingsPath platform e))

/-- A process of wrong arguments does nothing. -/
theorem orderly_of_refusal {platform : Platform} {e : Environment} {arguments : List String}
    {r : Refusal} (hr : parse e arguments = .error r) (f : Files) :
    Orderly platform e arguments f (.refused r) { files := f } := by
  have hnone : ∀ i, parse e arguments ≠ .ok i := fun i hi => by
    rw [hr] at hi
    cases hi
  exact {
    refused := fun _ => ⟨rfl, rfl⟩
    failed := fun _ h => nomatch h
    looked := fun i hi => absurd hi (hnone i)
    encoded := fun _ _ _ _ hi => absurd hi (hnone _)
    encodedTo := fun _ _ _ _ _ hi => absurd hi (hnone _)
    edited := fun _ _ _ hi => absurd hi (hnone _) }

/-- A process that fails before its plan is made does nothing. -/
theorem orderly_of_failure (platform : Platform) (e : Environment) (arguments : List String)
    (failure : Failure) (f : Files) :
    Orderly platform e arguments f (.failed failure) { files := f } where
  refused h := nomatch h
  failed _ _ _ _ := ⟨rfl, rfl⟩
  looked _ _ _ := rfl
  encoded _ _ _ _ _ := rfl
  encodedTo _ _ _ _ _ _ h := nomatch h
  edited _ _ _ _ h := nomatch h

section

variable {platform : Platform} {e : Environment} {input : Bytes} {arguments : List String}
  {f g : Files} {i : Invocation} {plan : Plan}

/-- A change that fails is one of a file, and a command that only looks plans
none. -/
theorem orderly_of_refused_change (hi : parse e arguments = .ok i)
    (hplan : i.plan (.of platform e input f) = .ok plan)
    (hchanges : f.applyAll plan.changes = (false, g)) :
    Orderly platform e arguments f (.failed plan.refused) { files := g } := by
  have hplans := plans_of_plan hplan
  have hsome : plan.changes ≠ [] := fun hnil => by
    rw [hnil] at hchanges
    cases hchanges
  refine ⟨nofun, fun failure hf hfile hsettings => ?_, fun i' hi' hl => ?_,
    fun o source version hex hi' => ?_, nofun, nofun⟩
  · cases hf
    cases hc : i.command <;> rw [hc] at hplans <;> first
      | exact absurd hplans.1 hfile
      | exact absurd hplans.1 hsettings
      | exact absurd hplans hsome
  · cases hi.symm.trans hi'
    exact absurd (changes_of_looks hl hplan) hsome
  · cases hi.symm.trans hi'
    obtain ⟨-, content, hnil⟩ := hplans
    exact absurd hnil hsome

/-- What was planned is what is changed. -/
theorem orderly_of_done (hi : parse e arguments = .ok i)
    (hplan : i.plan (.of platform e input f) = .ok plan)
    (hchanges : f.applyAll plan.changes = (true, g)) (output : Bytes) (notice : String) :
    Orderly platform e arguments f .done { files := g, output, notice } := by
  have hplans := plans_of_plan hplan
  have hnone : plan.changes = [] → g = f := fun hnil => by
    rw [hnil] at hchanges
    cases hchanges
    rfl
  refine ⟨nofun, nofun, fun i' hi' hl => ?_, fun o source version hex hi' => ?_,
    fun o source path version hex hi' _ => ?_, fun o name value hi' _ => ?_⟩
  · cases hi.symm.trans hi'
    exact hnone (changes_of_looks hl hplan)
  · cases hi.symm.trans hi'
    exact hnone hplans.2.choose_spec
  · cases hi.symm.trans hi'
    obtain ⟨-, content, hwrites⟩ := hplans
    rw [hwrites] at hchanges
    exact ⟨content, Files.rewritten_of_applyAll_write hchanges⟩
  · cases hi.symm.trans hi'
    obtain ⟨-, content, hwrites⟩ := hplans
    rw [hwrites] at hchanges
    exact ⟨content, Files.rewritten_of_applyAll_parents hchanges⟩

end

/-- Every process leaves its files in order, and ends with the outcome of its
command line. -/
theorem orderly_execute (platform : Platform) (e : Environment) (input : Bytes)
    (arguments : List String) (f : Files) :
    Orderly platform e arguments f (execute platform e input arguments f).1
        (execute platform e input arguments f).2 ∧
      run platform e input arguments f = ((execute platform e input arguments f).1.outcome
        (execute platform e input arguments f).2,
        (execute platform e input arguments f).2.files) := by
  refine ⟨?_, run_eq_execute platform e input arguments f⟩
  cases hi : parse e arguments with
  | error r =>
    have hexecute : execute platform e input arguments f = (.refused r, { files := f }) := by
      rw [execute, hi]
    rw [hexecute]
    exact orderly_of_refusal hi f
  | ok i =>
    rcases execute_cases hi platform input f with
      ⟨failure, -, h⟩ | ⟨plan, g, hplan, hchanges, h⟩ | ⟨plan, g, hplan, hchanges, h⟩
    · rw [h]
      exact orderly_of_failure platform e arguments failure f
    · rw [h]
      exact orderly_of_done hi hplan hchanges _ _
    · rw [h]
      exact orderly_of_refused_change hi hplan hchanges

/-- A directory with nothing but the start of a document. -/
def tornFiles : Files where
  start := []
  entry l :=
    if l = [] then some (.directory true)
    else if l = ["torn.json"] then some (.file (Utf8.encode "\x7b"))
    else none

/-- Arguments that make a backup of a document. -/
def tornArguments : List String :=
  ["encode", "torn.json", "--out", "porch.bak"]

/-- Arguments that edit a setting in a directory that is to be made. -/
def deepArguments : List String :=
  ["--config", "etc/hotspot/config.toml", "config", "set", "hex", "true"]

theorem orderly_execute_torn_deep :
    (execute default [] [] tornArguments tornFiles).1 = .failed .document ∧
      (execute default [] [] tornArguments tornFiles).2.files = tornFiles ∧
      (execute default [] [] tornArguments tornFiles).2.output = [] ∧
      (execute default [] [] deepArguments tornFiles).1 = .done ∧
      ∃ content, tornFiles.Rewritten (execute default [] [] deepArguments tornFiles).2.files
        "etc/hotspot/config.toml" content [["etc"], ["etc", "hotspot"]] := by
  have htorn : (execute default [] [] tornArguments tornFiles).1 = .failed .document := by
    decide +kernel
  have hdeep : (execute default [] [] deepArguments tornFiles).1 = .done := by decide +kernel
  have hparse : parse [] deepArguments = .ok
      { options := { config := some "etc/hotspot/config.toml" }
        command := .configSet "hex" "true" } := by decide +kernel
  have hparents : tornFiles.parents "etc/hotspot/config.toml" = [["etc"], ["etc", "hotspot"]] := by
    decide +kernel
  obtain ⟨hfiles, houtput⟩ :=
    (orderly_execute default [] [] tornArguments tornFiles).1.failed .document htorn (by decide)
      (by decide)
  have hedited :=
    (orderly_execute default [] [] deepArguments tornFiles).1.edited _ _ _ hparse hdeep
  exact ⟨htorn, hfiles, houtput, hdeep, hparents ▸ hedited⟩

end HotspotBackup.CommandLine
