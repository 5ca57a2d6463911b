import HotspotBackup.CommandLine.Run
import HotspotBackup.Proofs.FileSearch
import HotspotBackup.Proofs.Overrides
import Mathlib.Control.Monad.Basic

/-!
# Editing a setting

An edit replaces one setting, but of what the file and the variables say
together: this is what is written to the file.

* `Settings.set_eq_ok_iff`: an edit replaces one setting and no other.
* `CommandLine.read?_of_configSet`: what the file holds after an edit.
* `CommandLine.load_of_configSet`: so it has the edit and every override, and
  keeps what no variable supplies.
-/

namespace HotspotBackup

namespace Settings

/-- One setting is replaced by the value of a text, and no other. -/
def Replaced (s : Settings) (key : Key) (value : String) (s' : Settings) : Prop :=
  s'.text key = value ∧ ∀ other, other ≠ key → s'.text other = s.text other

theorem flagOfText?_eq_some_iff {value : String} {b : Bool} :
    flagOfText? value = some b ↔ flagText b = value := by
  unfold flagOfText? flagText
  split
  · rename_i h
    subst h
    cases b <;> decide
  split
  · rename_i h
    subst h
    cases b <;> decide
  · rename_i htrue hfalse
    cases b <;> simp [Ne.symm htrue, Ne.symm hfalse]

/-- Settings are what they say of each key. -/
theorem ext_text {s s' : Settings} (h : ∀ key, s.text key = s'.text key) : s = s' := by
  obtain ⟨a, o, x⟩ := s
  obtain ⟨a', o', x'⟩ := s'
  have ha : a = a' := flagText_inj.1 (h .autoShutdownEnabled)
  have ho : o = o' := h .output
  have hx : x = x' := flagText_inj.1 (h .hex)
  rw [ha, ho, hx]

theorem Replaced.unique {s s' s'' : Settings} {key : Key} {value : String}
    (h : s.Replaced key value s') (h' : s.Replaced key value s'') : s' = s'' := by
  apply ext_text
  intro other
  by_cases hother : other = key
  · rw [hother, h.1, h'.1]
  · rw [h.2 other hother, h'.2 other hother]

theorem replaced_of_set_eq_ok {s s' : Settings} {key : Key} {value : String}
    (h : s.set value key = .ok s') : s.Replaced key value s' := by
  cases key with
  | output =>
    cases h
    refine ⟨rfl, fun other hother => ?_⟩
    cases other with
    | output => exact absurd rfl hother
    | autoShutdownEnabled | hex => rfl
  | autoShutdownEnabled =>
    simp only [set] at h
    split at h
    · rename_i b hb
      cases h
      refine ⟨flagOfText?_eq_some_iff.1 hb, fun other hother => ?_⟩
      cases other with
      | autoShutdownEnabled => exact absurd rfl hother
      | output | hex => rfl
    · cases h
  | hex =>
    simp only [set] at h
    split at h
    · rename_i b hb
      cases h
      refine ⟨flagOfText?_eq_some_iff.1 hb, fun other hother => ?_⟩
      cases other with
      | hex => exact absurd rfl hother
      | output | autoShutdownEnabled => rfl
    · cases h

/-- An edit replaces one setting and no other. -/
theorem set_eq_ok_iff {s s' : Settings} {key : Key} {value : String} :
    s.set value key = .ok s' ↔ s.Replaced key value s' := by
  refine ⟨replaced_of_set_eq_ok, fun h => ?_⟩
  have hset : ∃ s'', s.set value key = .ok s'' := by
    cases key with
    | output => exact ⟨_, rfl⟩
    | autoShutdownEnabled =>
      have hflag : flagOfText? value = some s'.autoShutdownEnabled := flagOfText?_eq_some_iff.2 h.1
      exact ⟨_, by rw [set, hflag]⟩
    | hex =>
      have hflag : flagOfText? value = some s'.hex := flagOfText?_eq_some_iff.2 h.1
      exact ⟨_, by rw [set, hflag]⟩
  obtain ⟨s'', hset⟩ := hset
  rw [hset, h.unique (replaced_of_set_eq_ok hset)]

/-- What no variable supplies, `key` apart, is as the file alone gives it, where
the parts of the settings are tables in the file and in the variables. -/
def KeepsUnsupplied (content : Option Bytes) (e : Environment) (key : Key) (s' : Settings) :
    Prop :=
  ∀ t, fileLayer? content = some t → t.Tabular → e.layer.Tabular →
    ∀ (e₀ : Environment) (s₀ : Settings), e₀.Clear → load content e₀ = .ok s₀ →
      ∀ other, other ≠ key → e.layer.at? other = none → s'.text other = s₀.text other

theorem Replaced.keepsUnsupplied {content : Option Bytes} {e : Environment} {s s' : Settings}
    {key : Key} {value : String} (h : s.Replaced key value s') (hs : load content e = .ok s) :
    KeepsUnsupplied content e key s' := by
  intro t hc ht he e₀ s₀ he₀ hs₀ other hother hunsupplied
  rw [h.2 other hother]
  exact text_eq_of_unsupplied hc ht he hunsupplied hs he₀ hs₀

theorem of_edit_eq_ok {s s' : Settings} {name value : String}
    (h : s.edit name value = .ok s') :
    ∃ key, Key.ofName? name = some key ∧ s.Replaced key value s' := by
  unfold edit at h
  split at h
  · rename_i key hkey
    exact ⟨key, hkey, set_eq_ok_iff.1 h⟩
  · cases h

end Settings

namespace CommandLine

open Settings (Key)

/-! ## Plans -/

theorem mapError_eq_ok_iff {α ε ε' : Type} {f : ε → ε'} {r : Except ε α} {a : α} :
    r.mapError f = .ok a ↔ r = .ok a := by
  cases r <;> simp [Except.mapError]

theorem bind_eq_ok_iff {α β ε : Type} {r : Except ε α} {next : α → Except ε β} {b : β} :
    r >>= next = .ok b ↔ ∃ a, r = .ok a ∧ next a = .ok b := by
  cases r with
  | error fault => exact ⟨nofun, fun h => nomatch h.choose_spec.1⟩
  | ok a => simp [bind, Except.bind]

/-- What is planned for an edit: the settings that the command sees, with one
replaced, are written as their file. -/
theorem of_configSet_eq_ok {w : World} {o : Options} {name value : String} {p : Plan}
    (h : configSet w o name value = .ok p) :
    ∃ key s s', Key.ofName? name = some key ∧
      Settings.load (w.settingsContent o) w.environment = .ok s ∧ s.Replaced key value s' ∧
        s'.validate = .ok s' ∧
          p.changes = [.parents (w.settingsPath o), .write (w.settingsPath o) s'.document] := by
  simp only [configSet, bind_eq_ok_iff] at h
  obtain ⟨s, hload, edited, hedit, valid, hvalid, hplan⟩ := h
  obtain ⟨key, hkey, hreplaced⟩ := Settings.of_edit_eq_ok (mapError_eq_ok_iff.1 hedit)
  have hvalid := mapError_eq_ok_iff.1 hvalid
  obtain ⟨rfl, -⟩ := Settings.validate_eq_ok_iff.1 hvalid
  cases hplan
  exact ⟨key, s, _, hkey, mapError_eq_ok_iff.1 hload, hreplaced, hvalid, rfl⟩

theorem of_carryOut_eq_done {p : Plan} {f f' : Files} {output : Bytes} {notice : String}
    (h : p.carryOut f = (.done output notice, f')) : f.applyAll p.changes = (true, f') := by
  unfold Plan.carryOut at h
  split at h
  · rename_i hchanges
    cases h
    exact hchanges
  · cases h

/-! ## Runs -/

section

variable {platform : Platform} {e : Environment} {input : Bytes} {arguments : List String}
  {f f' : Files} {i : Invocation} {name value : String} {output : Bytes} {notice : String}

/-- An edit that was made: the file of settings holds what the file that was found
and the variables said together, with one setting replaced. -/
theorem read?_of_configSet (hi : parse e arguments = .ok i)
    (hc : i.command = .configSet name value)
    (hr : run platform e input arguments f = (.done output notice, f')) :
    ∃ key s s', Key.ofName? name = some key ∧
      Settings.load (f.find? (i.options.settingsPath platform e)) e = .ok s ∧
        s.Replaced key value s' ∧ s'.validate = .ok s' ∧
          f'.read? (i.options.settingsPath platform e) = some s'.document := by
  simp only [run, hi, Invocation.plan, hc] at hr
  split at hr
  · cases hr
  rename_i plan hplan
  obtain ⟨key, s, s', hkey, hload, hreplaced, hvalid, hchanges⟩ := of_configSet_eq_ok hplan
  have happlied : f.applyAll ([.parents (i.options.settingsPath platform e)] ++
      [.write (i.options.settingsPath platform e) s'.document]) = (true, f') := by
    have hdone := of_carryOut_eq_done hr
    rwa [hchanges] at hdone
  exact ⟨key, s, s', hkey, hload, hreplaced, hvalid, Files.read?_of_applyAll_write happlied⟩

/-- What loading the file of settings gives after an edit that was made,
whatever other variables there are. The file that was found before may have
been another one, above the one that was written. -/
theorem load_of_configSet (hi : parse e arguments = .ok i)
    (hc : i.command = .configSet name value)
    (hr : run platform e input arguments f = (.done output notice, f')) :
    ∃ key s s', Key.ofName? name = some key ∧
      Settings.load (f.find? (i.options.settingsPath platform e)) e = .ok s ∧
        s.Replaced key value s' ∧
        f'.read? (i.options.settingsPath platform e) = some s'.document ∧
        (∀ e₀ : Environment, e₀.Clear →
          Settings.load (f'.find? (i.options.settingsPath platform e)) e₀ = .ok s') ∧
        Settings.KeepsUnsupplied (f.find? (i.options.settingsPath platform e)) e key s' := by
  obtain ⟨key, s, s', hkey, hload, hreplaced, hvalid, hread⟩ := read?_of_configSet hi hc hr
  refine ⟨key, s, s', hkey, hload, hreplaced, hread, fun e₀ he₀ => ?_,
    hreplaced.keepsUnsupplied hload⟩
  rw [Files.find?_of_read? hread, Settings.load_document he₀, hvalid]

end

/-! ## An overridden setting -/

/-- A layer with the setting of the device alone. -/
def shutdownLayer (v : Setting) : SettingTable :=
  [("device", .table [("auto_shutdown_enabled", v)])]

theorem tabular_shutdownLayer (v : Setting) : (shutdownLayer v).Tabular := by
  intro key w hw
  obtain ⟨-, rfl⟩ := Prod.mk.inj (List.mem_singleton.1 hw)
  exact ⟨_, rfl⟩

/-- An environment with that layer. -/
def shutdownDisabled : Environment :=
  [("SOFTAP_DEVICE__AUTO_SHUTDOWN_ENABLED", "false")]

theorem layer_shutdownDisabled :
    shutdownDisabled.layer = shutdownLayer (Environment.value "false") := by
  have hpath : Environment.path? "SOFTAP_DEVICE__AUTO_SHUTDOWN_ENABLED" =
      some ["device", "auto_shutdown_enabled"] := by decide +kernel
  simp only [shutdownDisabled, Environment.layer, List.foldl_cons, List.foldl_nil,
    Environment.variableLayer, hpath]
  rfl

/-- A file with that layer. -/
def shutdownEnabled : Bytes :=
  Utf8.encode "[device]\nauto_shutdown_enabled = true\n"

theorem read?_shutdownEnabled :
    Toml.read? shutdownEnabled = some (shutdownLayer (.flag true)) := by
  have hlines : Toml.ReadsAs "[device]\nauto_shutdown_enabled = true\n".toList
      [.openTable ["device"], .assign ["auto_shutdown_enabled"] (.flag true)] :=
    ⟨_, rfl, fun _ => rfl⟩
  have hparse := Toml.parse?_of_readsAs (by decide) rfl hlines
  rw [Toml.read?, shutdownEnabled, Utf8.decode?_encode]
  exact hparse

/-- Files with it, so that the environment overrides it. -/
def shutdownFiles : Files where
  start := []
  entry l :=
    if l = [] then some (.directory true)
    else if l = ["config.toml"] then some (.file shutdownEnabled)
    else none

/-- Arguments that edit another setting. -/
def yamlArguments : List String :=
  ["--config", "config.toml", "config", "set", "output", "yaml"]

/-- What these arguments ask for. -/
def yamlInvocation : Invocation where
  options := { config := some "config.toml" }
  command := .configSet "output" "yaml"

theorem parse_yamlArguments : parse shutdownDisabled yamlArguments = .ok yamlInvocation := by
  decide +kernel

theorem exists_run_yamlArguments : ∃ f',
    run default shutdownDisabled [] yamlArguments shutdownFiles =
      (.done [] "✓ Set output in config.toml\n", f') := by
  have hdone : (run default shutdownDisabled [] yamlArguments shutdownFiles).1 =
      .done [] "✓ Set output in config.toml\n" := by decide +kernel
  generalize run default shutdownDisabled [] yamlArguments shutdownFiles = result at hdone ⊢
  exact ⟨result.2, Prod.ext hdone rfl⟩

theorem load_shutdownDisabled : Settings.load (shutdownFiles.find? "config.toml")
    shutdownDisabled = .ok { autoShutdownEnabled := false } := by
  decide +kernel

theorem settingsPath_yamlInvocation :
    yamlInvocation.options.settingsPath default shutdownDisabled = "config.toml" :=
  rfl

theorem load_of_configSet_yaml :
    parse shutdownDisabled yamlArguments = .ok yamlInvocation ∧
      Settings.fileLayer? (shutdownFiles.find? "config.toml") =
        some (shutdownLayer (.flag true)) ∧
      (shutdownLayer (.flag true)).Tabular ∧ shutdownDisabled.layer.Tabular ∧
      shutdownDisabled.layer.at? .hex = none ∧
      ∃ f' key s s', run default shutdownDisabled [] yamlArguments shutdownFiles =
          (.done [] "✓ Set output in config.toml\n", f') ∧
        Key.ofName? "output" = some key ∧
        Settings.load (shutdownFiles.find? "config.toml") shutdownDisabled = .ok s ∧
        s.Replaced key "yaml" s' ∧ f'.read? "config.toml" = some s'.document ∧
        (∀ e₀ : Environment, e₀.Clear → Settings.load (f'.find? "config.toml") e₀ = .ok s') ∧
        Settings.KeepsUnsupplied (shutdownFiles.find? "config.toml") shutdownDisabled key s' := by
  have hread : shutdownFiles.find? "config.toml" = some shutdownEnabled := by decide +kernel
  have hfile : Settings.fileLayer? (shutdownFiles.find? "config.toml") =
      some (shutdownLayer (.flag true)) := by
    rw [hread, Settings.fileLayer?, read?_shutdownEnabled]
  obtain ⟨f', hrun⟩ := exists_run_yamlArguments
  obtain ⟨key, s, s', h⟩ := load_of_configSet parse_yamlArguments rfl hrun
  rw [settingsPath_yamlInvocation] at h
  refine ⟨parse_yamlArguments, hfile, tabular_shutdownLayer _, ?_, ?_, f', key, s, s', hrun, h⟩
  · rw [layer_shutdownDisabled]
    exact tabular_shutdownLayer _
  · rw [layer_shutdownDisabled]
    rfl

/-- An edit writes an overridden setting with its override, so more is replaced
in the file than the setting that is edited. -/
theorem configSet_writes_override :
    Settings.load (shutdownFiles.find? "config.toml") [] = .ok {} ∧
      Settings.load (shutdownFiles.find? "config.toml") shutdownDisabled =
        .ok { autoShutdownEnabled := false } ∧
      Key.ofName? "output" = some .output ∧
      parse shutdownDisabled yamlArguments = .ok yamlInvocation ∧
      ∃ f', run default shutdownDisabled [] yamlArguments shutdownFiles =
          (.done [] "✓ Set output in config.toml\n", f') ∧
        Settings.load (f'.find? "config.toml") [] =
          .ok { autoShutdownEnabled := false, output := "yaml" } ∧
        ¬ ({} : Settings).Replaced .output "yaml"
          { autoShutdownEnabled := false, output := "yaml" } := by
  have hbefore : Settings.load (shutdownFiles.find? "config.toml") [] = .ok {} := by
    decide +kernel
  have hother : ¬ ({} : Settings).Replaced .output "yaml"
      { autoShutdownEnabled := false, output := "yaml" } := by
    intro h
    exact absurd (h.2 .autoShutdownEnabled (by decide)) (by decide)
  obtain ⟨f', hrun⟩ := exists_run_yamlArguments
  obtain ⟨key, s, s', hkey, hload, hreplaced, hvalid, hread⟩ :=
    read?_of_configSet parse_yamlArguments rfl hrun
  rw [settingsPath_yamlInvocation] at hload hread
  cases hkey
  cases load_shutdownDisabled.symm.trans hload
  cases hreplaced.unique (Settings.set_eq_ok_iff.1 rfl)
  have hclear : Environment.Clear [] := fun _ h => nomatch h
  refine ⟨hbefore, hload, rfl, parse_yamlArguments, f', hrun, ?_, hother⟩
  rw [Files.find?_of_read? hread, Settings.load_document hclear, hvalid]

end CommandLine

end HotspotBackup
