import HotspotBackup.Proofs.CommandLines
import HotspotBackup.Proofs.Processes

/-!
# Settings after many edits

Edits of one file of settings, made or refused, in an environment that stays
the same. Whatever they are, the settings can be loaded after each of them, and
are those that the environment decides, then those that were set last, then
those that were there at first.

* `exists_plan_iff`: which names and values an edit accepts.
* `Edit.of`: arguments that edit any name to any value.
* `Edit.run_cases`: an edit is made, or it is refused and changes nothing, where
  the file can be written.
* `exists_load_of_tried`: what is loaded after one edit.
* `folds_history`: what is loaded after each edit of a history.
-/

namespace HotspotBackup

open Settings (Key)

namespace Settings

/-! ## Names and values -/

/-- The names of a setting. -/
def Key.names : Key → List String
  | autoShutdownEnabled =>
    ["device.auto_shutdown_enabled", "auto_shutdown_enabled", "auto-shutdown"]
  | output => ["defaults.output", "output"]
  | hex => ["defaults.hex", "hex"]

theorem Key.ofName?_eq_some_iff {name : String} {key : Key} :
    Key.ofName? name = some key ↔ name ∈ key.names := by
  constructor
  · intro h
    unfold Key.ofName? at h
    split at h
    · cases h
      simpa [names] using ‹_›
    split at h
    · cases h
      simpa [names] using ‹_›
    split at h
    · cases h
      simpa [names] using ‹_›
    · cases h
  · revert name
    cases key <;> decide

theorem exists_flagText_iff {value : String} :
    (∃ b, flagText b = value) ↔ value ∈ ["true", "false"] := by
  constructor
  · rintro ⟨b, rfl⟩
    cases b <;> decide
  · revert value
    decide

theorem validate_eq_self_iff {s : Settings} :
    s.validate = .ok s ↔ (OutputFormat.ofName? s.output).isSome = true := by
  rw [validate_eq_ok_iff]
  exact and_iff_right rfl

theorem validate_of_load {content : Option Bytes} {e : Environment} {s : Settings}
    (h : load content e = .ok s) : s.validate = .ok s := by
  obtain ⟨-, -, -, hname⟩ := load_eq_ok_iff.1 h
  exact validate_eq_self_iff.2 hname

/-- To these values, and no others, a setting can be edited so that the settings
stay valid. -/
theorem exists_replaced_iff {s : Settings} (hs : s.validate = .ok s) {key : Key}
    {value : String} :
    (∃ s', s.Replaced key value s' ∧ s'.validate = .ok s') ↔ value ∈ key.values := by
  constructor
  · rintro ⟨s', ⟨hvalue, -⟩, hvalid⟩
    subst hvalue
    cases key with
    | autoShutdownEnabled | hex => exact exists_flagText_iff.1 ⟨_, rfl⟩
    | output => exact isSome_ofName?_iff.1 (validate_eq_self_iff.1 hvalid)
  · intro h
    have hname := validate_eq_self_iff.1 hs
    cases key with
    | autoShutdownEnabled =>
      obtain ⟨b, hb⟩ := exists_flagText_iff.2 h
      have hset : s.set value .autoShutdownEnabled = .ok { s with autoShutdownEnabled := b } := by
        rw [set, flagOfText?_eq_some_iff.2 hb]
      exact ⟨_, set_eq_ok_iff.1 hset, validate_eq_self_iff.2 hname⟩
    | hex =>
      obtain ⟨b, hb⟩ := exists_flagText_iff.2 h
      have hset : s.set value .hex = .ok { s with hex := b } := by
        rw [set, flagOfText?_eq_some_iff.2 hb]
      exact ⟨_, set_eq_ok_iff.1 hset, validate_eq_self_iff.2 hname⟩
    | output =>
      have hset : s.set value .output = .ok { s with output := value } := rfl
      exact ⟨_, set_eq_ok_iff.1 hset, validate_eq_self_iff.2 (isSome_ofName?_iff.2 h)⟩

end Settings

namespace CommandLine

/-! ## One edit -/

/-- Edits that are accepted. -/
def Accepted (name value : String) : Prop :=
  ∃ key : Key, name ∈ key.names ∧ value ∈ key.values

theorem exists_plan_iff {w : World} {o : Options} {name value : String} {s : Settings}
    (hload : Settings.load (w.settingsContent o) w.environment = .ok s) :
    (∃ p, configSet w o name value = .ok p) ↔ Accepted name value := by
  have hvalid := Settings.validate_of_load hload
  constructor
  · rintro ⟨p, hp⟩
    obtain ⟨key, found, s', hkey, hfound, hreplaced, hvalid', -⟩ := of_configSet_eq_ok hp
    cases hload.symm.trans hfound
    exact ⟨key, Key.ofName?_eq_some_iff.1 hkey,
      (Settings.exists_replaced_iff hvalid).1 ⟨s', hreplaced, hvalid'⟩⟩
  · rintro ⟨key, hname, hvalue⟩
    obtain ⟨s', hreplaced, hvalid'⟩ := (Settings.exists_replaced_iff hvalid).2 hvalue
    have hedit : s.edit name value = .ok s' := by
      rw [Settings.edit, Key.ofName?_eq_some_iff.2 hname]
      exact Settings.set_eq_ok_iff.2 hreplaced
    simp only [configSet, bind_eq_ok_iff]
    exact ⟨_, s, mapError_eq_ok_iff.2 hload, s', mapError_eq_ok_iff.2 hedit, s',
      mapError_eq_ok_iff.2 hvalid', rfl⟩

/-- An edit of the file of settings at a path. -/
structure Edit (e : Environment) (path : String) where
  name : String
  value : String
  platform : Platform
  arguments : List String
  options : Options
  parsed : parse e arguments = .ok { options, command := .configSet name value }
  located : options.settingsPath platform e = path
  /-- The standard input. -/
  input : Bytes := []

/-- Whether an outcome is a success. -/
def Outcome.isDone : Outcome → Bool
  | done .. => true
  | refused _ | failed _ => false

namespace Edit

variable {e : Environment} {path : String}

/-- The edit of any name to any value, at a path that can be given. -/
def of (platform : Platform) (he : e.get? "SOFTAP_CONFIG" ≠ some "") (hpath : NamesFile path)
    (name value : String) : Edit e path where
  name := name
  value := value
  platform := platform
  arguments := ["--config", path, "config", "set", "--", name, value]
  options := { config := some path }
  parsed := parse_edit he hpath name value
  located := rfl

/-- The outcome of an edit, and the files after it. -/
def run (a : Edit e path) (f : Files) : Outcome × Files :=
  CommandLine.run a.platform e a.input a.arguments f

/-- An edit is made if it is accepted, and then the file that is found holds what
was loaded with one setting replaced; otherwise nothing changes. -/
theorem run_cases (a : Edit e path) {f : Files} {s : Settings}
    (hload : Settings.load (f.find? path) e = .ok s)
    (hfile : (a.run f).1 ≠ .failed .settingsFile) :
    (∃ key s', a.name ∈ key.names ∧ s.Replaced key a.value s' ∧ s'.validate = .ok s' ∧
      Accepted a.name a.value ∧ (a.run f).1.isDone = true ∧
        (a.run f).2.find? path = some s'.document) ∨
      ¬ Accepted a.name a.value ∧ (a.run f).1.isDone = false ∧ (a.run f).2 = f := by
  have hcontent : Settings.load (f.find? (a.options.settingsPath a.platform e)) e = .ok s := by
    rw [a.located, hload]
  have haccepted : (∃ p, configSet (.of a.platform e a.input f) a.options a.name a.value = .ok p) ↔
      Accepted a.name a.value := exists_plan_iff hcontent
  cases hplan : configSet (.of a.platform e a.input f) a.options a.name a.value with
  | error failure =>
    have hrun : a.run f = (.failed failure, f) := by
      simp only [run, CommandLine.run, a.parsed, Invocation.plan, hplan]
    refine .inr ⟨fun h => ?_, by rw [hrun]; rfl, by rw [hrun]⟩
    obtain ⟨p, hp⟩ := haccepted.2 h
    cases hplan.symm.trans hp
  | ok p =>
    have hrun : a.run f = p.carryOut f := by
      simp only [run, CommandLine.run, a.parsed, Invocation.plan, hplan]
    have hplans : Command.Plans (a.options.settingsPath a.platform e) p
        (.configSet a.name a.value) :=
      plans_of_plan (show Invocation.plan ⟨a.options, .configSet a.name a.value⟩
        (.of a.platform e a.input f) = .ok p from hplan)
    cases hchanges : f.applyAll p.changes with
    | mk made g =>
      cases made with
      | false =>
        have hfailed : a.run f = (.failed p.refused, g) := by
          rw [hrun, Plan.carryOut, hchanges]
        rw [hfailed, hplans.1] at hfile
        exact absurd rfl hfile
      | true =>
        have hdone : a.run f = (.done p.output p.notice, g) := by
          rw [hrun, Plan.carryOut, hchanges]
        obtain ⟨key, found, s', hkey, hfound, hreplaced, hvalid, hread⟩ :=
          read?_of_configSet a.parsed rfl hdone
        cases hcontent.symm.trans hfound
        rw [a.located] at hread
        have hfind := Files.find?_of_read? hread
        exact .inl ⟨key, s', Key.ofName?_eq_some_iff.1 hkey, hreplaced, hvalid,
          haccepted.1 ⟨p, hplan⟩, by rw [hdone]; rfl, by rw [hdone]; exact hfind⟩

end Edit

/-! ## Many edits -/

/-- An edit that was tried, its outcome, and the files after it. -/
structure Tried (e : Environment) (path : String) where
  edit : Edit e path
  outcome : Outcome
  after : Files

section

variable {e : Environment} {path : String}

/-- Whether an edit was made that sets a setting, under whichever of its
names. -/
def Tried.sets (key : Key) (t : Tried e path) : Bool :=
  t.outcome.isDone && decide (t.edit.name ∈ key.names)

/-- An edit as it is tried on files. -/
def Edit.tried (a : Edit e path) (f : Files) : Tried e path where
  edit := a
  outcome := (a.run f).1
  after := (a.run f).2

/-- Edits as they are tried one after another. -/
def history (f : Files) : List (Edit e path) → List (Tried e path)
  | [] => []
  | a :: rest => a.tried f :: history (a.tried f).after rest

/-- The value that a setting was last set to. -/
def lastSet? (key : Key) (tried : List (Tried e path)) : Option String :=
  ((tried.filter (·.sets key)).getLast?).map (·.edit.value)

theorem lastSet?_cons (key : Key) (t : Tried e path) (tried : List (Tried e path))
    (initial : String) : (lastSet? key (t :: tried)).getD initial =
      (lastSet? key tried).getD (if t.sets key then t.edit.value else initial) := by
  unfold lastSet?
  cases hsets : t.sets key with
  | false => rw [List.filter_cons_of_neg (by simp [hsets])]; rfl
  | true =>
    rw [List.filter_cons_of_pos (by simp [hsets]), List.getLast?_cons]
    cases (tried.filter (·.sets key)).getLast? <;> rfl

/-- Settings can be loaded from files, and are those that the environment
decides, then those that were last set, then those that were there at first. -/
def Folds (first : Settings) (tried : List (Tried e path)) (f : Files) : Prop :=
  ∃ s, Settings.load (f.find? path) e = .ok s ∧ ∀ key,
    (∀ decided, e.layer.decides? key = some decided → decided = some (s.text key)) ∧
      (e.layer.decides? key = none → s.text key = (lastSet? key tried).getD (first.text key))

/-- Settings can be loaded from files without any from variables. -/
def LoadsAlone (path : String) (f : Files) : Prop :=
  ∀ e₀ : Environment, e₀.Clear → ∃ s, Settings.load (f.find? path) e₀ = .ok s

variable {f : Files} {s : Settings}

theorem sets_tried (a : Edit e path) (f : Files) (key : Key) :
    (a.tried f).sets key = ((a.run f).1.isDone && decide (a.name ∈ key.names)) :=
  rfl

/-- After an edit the settings can be loaded again: with the one that was set, if
the environment does not decide it, and with the others as they were. -/
theorem exists_load_of_tried (a : Edit e path) (hload : Settings.load (f.find? path) e = .ok s)
    (hfile : (a.tried f).outcome ≠ .failed .settingsFile) :
    ∃ s₁, Settings.load ((a.tried f).after.find? path) e = .ok s₁ ∧
      ∀ key, e.layer.decides? key = none →
        s₁.text key = if (a.tried f).sets key then a.value else s.text key := by
  rcases a.run_cases hload hfile with
    ⟨set, s', hset, hreplaced, hvalid, -, hdone, hfind⟩ | ⟨-, hdone, hsame⟩
  · refine ⟨Settings.under e s s', ?_, fun key hkey => ?_⟩
    · exact (congrArg (Settings.load · e) hfind).trans
        (Settings.load_document_of_load hload hvalid)
    · rw [Settings.text_under, hkey, sets_tried, hdone, Bool.true_and]
      by_cases hname : a.name ∈ key.names
      · cases (Key.ofName?_eq_some_iff.2 hset).symm.trans (Key.ofName?_eq_some_iff.2 hname)
        simpa [hname] using hreplaced.1
      · have hother : key ≠ set := fun h => hname (h ▸ hset)
        simpa [hname] using hreplaced.2 key hother
  · refine ⟨s, ?_, fun key _ => ?_⟩
    · exact (congrArg (fun g : Files => Settings.load (g.find? path) e) hsame).trans hload
    · rw [sets_tried, hdone]
      rfl

/-- An edit that is made leaves settings that can be loaded alone, and one that
is not leaves the files as they are. -/
theorem loadsAlone_of_tried (a : Edit e path) (hload : Settings.load (f.find? path) e = .ok s)
    (hfile : (a.tried f).outcome ≠ .failed .settingsFile)
    (h : (a.tried f).outcome.isDone = true ∨ LoadsAlone path f) :
    LoadsAlone path (a.tried f).after := by
  rcases a.run_cases hload hfile with ⟨-, s', -, -, hvalid, -, -, hfind⟩ | ⟨-, hdone, hsame⟩
  · intro e₀ he₀
    refine ⟨s', (congrArg (Settings.load · e₀) hfind).trans ?_⟩
    rw [Settings.load_document he₀, hvalid]
  · have hdone : (a.tried f).outcome.isDone = false := hdone
    rcases h with h | h
    · rw [hdone] at h
      cases h
    · have hafter : (a.tried f).after = f := hsame
      rwa [hafter]

theorem Folds.cons {first s₁ : Settings} {t : Tried e path} {tried : List (Tried e path)}
    {g : Files} (h : Folds s₁ tried g) (hs₁ : ∀ key, e.layer.decides? key = none →
      s₁.text key = if t.sets key then t.edit.value else first.text key) :
    Folds first (t :: tried) g := by
  obtain ⟨s, hload, hs⟩ := h
  refine ⟨s, hload, fun key => ⟨(hs key).1, fun hkey => ?_⟩⟩
  rw [lastSet?_cons, (hs key).2 hkey, hs₁ key hkey]

theorem folds_nil (hload : Settings.load (f.find? path) e = .ok s) :
    Folds s ([] : List (Tried e path)) f :=
  ⟨s, hload, fun _ => ⟨fun _ h => Settings.decides?_of_load hload h, fun _ => rfl⟩⟩

/-- By induction on the edits: what was loaded after the first of them is what is
there at first for the others. -/
theorem folds_of_history (hload : Settings.load (f.find? path) e = .ok s)
    (edits : List (Edit e path))
    (hfile : ∀ t ∈ history f edits, t.outcome ≠ .failed .settingsFile)
    {past future : List (Tried e path)} {t : Tried e path}
    (h : history f edits = past ++ t :: future) :
    (t.outcome.isDone = true ↔ Accepted t.edit.name t.edit.value) ∧
      Folds s (past ++ [t]) t.after ∧
        ((∃ u ∈ past ++ [t], u.outcome.isDone = true) ∨ LoadsAlone path f →
          LoadsAlone path t.after) := by
  induction edits generalizing f s past with
  | nil => cases past <;> cases h
  | cons a edits ih =>
    have hhead : (a.tried f).outcome ≠ .failed .settingsFile := hfile _ List.mem_cons_self
    obtain ⟨s₁, hload₁, hs₁⟩ := exists_load_of_tried a hload hhead
    cases past with
    | nil =>
      cases h
      refine ⟨?_, (folds_nil hload₁).cons hs₁, fun hsome => ?_⟩
      · rcases a.run_cases hload hhead with ⟨-, -, -, -, -, haccepted, hdone, -⟩ |
          ⟨haccepted, hdone, -⟩
        · exact iff_of_true hdone haccepted
        · exact iff_of_false (by rw [Edit.tried, hdone]; decide) haccepted
      · refine loadsAlone_of_tried a hload hhead (hsome.imp_left ?_)
        rintro ⟨u, hu, hdone⟩
        cases List.mem_singleton.1 hu
        exact hdone
    | cons t₁ past =>
      obtain ⟨rfl, hrest⟩ := List.cons.inj h
      obtain ⟨hmade, hfolds, halone⟩ :=
        ih hload₁ (fun u hu => hfile u (List.mem_cons_of_mem _ hu)) hrest
      refine ⟨hmade, hfolds.cons hs₁, fun hsome => halone ?_⟩
      rcases hsome with ⟨u, hu, hdone⟩ | hf
      · rcases List.mem_cons.1 hu with rfl | hu
        · exact .inr (loadsAlone_of_tried a hload hhead (.inl hdone))
        · exact .inl ⟨u, hu, hdone⟩
      · exact .inr (loadsAlone_of_tried a hload hhead (.inr hf))

/-- Where settings can be loaded, and no file fails to be written, edits are made
exactly if they are accepted, and after each of them what is loaded is the fold of
all that were made, but for what the environment decides. -/
theorem folds_history (hload : Settings.load (f.find? path) e = .ok s)
    (edits : List (Edit e path))
    (hfile : ∀ t ∈ history f edits, t.outcome ≠ .failed .settingsFile) :
    ∀ past t future, history f edits = past ++ t :: future →
      (t.outcome.isDone = true ↔ Accepted t.edit.name t.edit.value) ∧
        Folds s (past ++ [t]) t.after ∧
          ((∃ u ∈ past ++ [t], u.outcome.isDone = true) → LoadsAlone path t.after) := by
  intro past t future h
  obtain ⟨hmade, hfolds, halone⟩ := folds_of_history hload edits hfile h
  exact ⟨hmade, hfolds, fun hsome => halone (.inl hsome)⟩

end

/-- An environment that decides one setting. -/
def yamlShown : Environment :=
  [("SOFTAP_DEFAULTS__OUTPUT", "yaml")]

/-- Edits of the file of settings in it. -/
def editOf : (name value : String) → Edit yamlShown "config.toml" :=
  Edit.of default (by decide) ⟨by decide, by decide⟩

/-- An edit that is made, one that is not, and one of the setting that the
environment decides. -/
def mixedEdits : List (Edit yamlShown "config.toml") :=
  [editOf "hex" "true", editOf "-colour" "blue", editOf "output" "json-compact"]

theorem folds_history_mixed :
    Settings.load (tornFiles.find? "config.toml") yamlShown = .ok { output := "yaml" } ∧
      (∀ t ∈ history tornFiles mixedEdits, t.outcome ≠ .failed .settingsFile) ∧
      (history tornFiles mixedEdits).map (·.outcome.isDone) = [true, false, true] ∧
      ∃ past t s, history tornFiles mixedEdits = past ++ [t] ∧ LoadsAlone "config.toml" t.after ∧
        Settings.load (t.after.find? "config.toml") yamlShown = .ok s ∧
          s.text .hex = "true" ∧ s.text .output = "yaml" := by
  have hload : Settings.load (tornFiles.find? "config.toml") yamlShown =
      .ok { output := "yaml" } := by decide +kernel
  have houtcomes : (history tornFiles mixedEdits).map (·.outcome) =
      [.done [] "✓ Set hex in config.toml\n", .failed (.setting "-colour" (.unknownKey "-colour")),
        .done [] "✓ Set output in config.toml\n"] := by
    decide +kernel
  have hfile : ∀ t ∈ history tornFiles mixedEdits, t.outcome ≠ .failed .settingsFile := by
    have hnot : ∀ o ∈ (history tornFiles mixedEdits).map (·.outcome),
        o ≠ .failed .settingsFile := by
      rw [houtcomes]
      decide
    exact fun t ht => hnot _ (List.mem_map_of_mem ht)
  have hdone : (history tornFiles mixedEdits).map (·.outcome.isDone) = [true, false, true] :=
    List.map_map.symm.trans (congrArg (List.map Outcome.isDone) houtcomes)
  have hset : lastSet? .hex (history tornFiles mixedEdits) = some "true" := by decide +kernel
  have hdecides : yamlShown.layer.decides? .hex = none ∧
      yamlShown.layer.decides? .output = some (some "yaml") := by
    decide +kernel
  have hsome : history tornFiles mixedEdits ≠ [] := nofun
  have hlast := List.dropLast_concat_getLast hsome
  obtain ⟨-, ⟨s, hafter, hs⟩, halone⟩ := folds_history hload mixedEdits hfile _ _ [] hlast.symm
  rw [hlast] at hs halone
  have hmade : true ∈ (history tornFiles mixedEdits).map (·.outcome.isDone) := by
    rw [hdone]
    exact List.mem_cons_self
  refine ⟨hload, hfile, hdone, _, _, s, hlast.symm, halone (List.mem_map.1 hmade), hafter, ?_, ?_⟩
  · rw [(hs .hex).2 hdecides.1, hset]
    rfl
  · exact (Option.some.inj ((hs .output).1 _ hdecides.2)).symm

/-! ## A list in the environment -/

/-- An environment that has a list for a part of the settings, with a value for
the first of them. -/
def listShown : Environment :=
  [("SOFTAP_DEFAULTS", "[json]")]

/-- Arguments that edit the second of them. -/
def hexArguments : List String :=
  ["--config", "config.toml", "config", "set", "hex", "true"]

/-- Under a list that is too short for a setting, the edit of the setting is made
and is not seen. -/
theorem configSet_under_list :
    listShown.layer = [("defaults", .list [.text "json"])] ∧
      listShown.layer.at? .hex = none ∧
      Settings.load (tornFiles.find? "config.toml") listShown = .ok {} ∧
      (run default listShown [] hexArguments tornFiles).1 =
        .done [] "✓ Set hex in config.toml\n" ∧
      Settings.load ((run default listShown [] hexArguments tornFiles).2.find? "config.toml")
        listShown = .ok {} ∧
      ({} : Settings).text .hex ≠ "true" := by
  have hpath : Environment.path? "SOFTAP_DEFAULTS" = some ["defaults"] := by decide +kernel
  have hlayer : listShown.layer = [("defaults", .list [.text "json"])] := by
    simp only [listShown, Environment.layer, List.foldl_cons, List.foldl_nil,
      Environment.variableLayer, hpath]
    rfl
  refine ⟨hlayer, by rw [hlayer]; rfl, ?_, ?_, ?_, by decide⟩
  · decide +kernel
  · decide +kernel
  · decide +kernel

end CommandLine

end HotspotBackup
