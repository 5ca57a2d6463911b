import HotspotBackup.Proofs.FileSearch
import HotspotBackup.Proofs.TidyDocuments

/-!
# Settings in effect

Each setting is decided on its own: the value in effect is the one of the
environment, else the one of the file, else the default. What loading comes to
depends on these three values and on nothing else in any layer.

* `Files.Describes`: the layer of the file that is found, if any.
* `SettingTable.at?_merge`: what merged layers say of a setting.
* `Environment.at?_layer_iff`: what an environment says of a setting is what its
  one variable for the setting says.
* `Settings.Loads`: what loading comes to, given the values in effect.
* `Settings.load_by_layers`: this is what it comes to.
-/

namespace HotspotBackup

open Settings (Key)

/-! ## Files -/

namespace Files

/-- The layer of the file of settings that a path is searched for. Where the search
comes to no file, but to directories or to nothing, it is an empty one. -/
inductive Describes (f : Files) (path : String) : SettingTable → Prop
  | missing (h : ∀ l ∈ f.searched path, f.NoFile l path) : Describes f path []
  | document {l : Location} {content : Bytes} {t : SettingTable} (h : f.Finds path l content)
      (ht : Toml.read? content = some t) : Describes f path t

theorem fileLayer?_of_describes {f : Files} {path : String} {t : SettingTable}
    (h : f.Describes path t) : Settings.fileLayer? (f.find? path) = some t := by
  cases h with
  | missing h => rw [find?_eq_none_iff.2 h, Settings.fileLayer?]
  | document h ht => rw [find?_eq_some_iff.2 ⟨_, h⟩, Settings.fileLayer?, ht]

theorem Describes.tidy {f : Files} {path : String} {t : SettingTable} (h : f.Describes path t) :
    t.Tidy := by
  cases h with
  | missing => exact SettingTable.tidy_nil
  | document h ht => exact Toml.tidy_read? ht

end Files

/-! ## Merged layers -/

namespace SettingTable

variable {base later t : SettingTable}

theorem mergeAt_none (v : Setting) : Setting.mergeAt none v = v := by
  cases v <;> rfl

theorem at?_of_none {key : Key} (h : t.get? key.part = none) : t.at? key = none := by
  rw [at?, h]

theorem Tabular.of_get? (ht : t.Tabular) {key : Key} {v : Setting}
    (h : t.get? key.part = some v) : ∃ members, v = .table members :=
  ht key v (mem_of_get? h)

/-- A layer of tables alone. -/
theorem tabular_of_tables (h : ∀ entry ∈ t, ∃ members, entry.2 = .table members) : t.Tabular :=
  fun key v hv => h (key.part, v) hv

/-- A later layer says of a setting what it says, and else nothing new. -/
theorem at?_merge (base : SettingTable) (htidy : later.Tidy) (htab : later.Tabular) (key : Key) :
    (base.merge later).at? key =
      ((later.at? key).map (Setting.mergeAt (base.at? key))).or (base.at? key) := by
  cases hpart : later.get? key.part with
  | none =>
    have hmerged : (base.merge later).get? key.part = base.get? key.part :=
      get?_merge_of_none hpart
    rw [at?_of_none hpart, at?, hmerged]
    rfl
  | some v =>
    obtain ⟨members, rfl⟩ := htab.of_get? hpart
    have hmerged : (base.merge later).get? key.part =
        some (Setting.mergeAt (base.get? key.part) (.table members)) :=
      get?_merge_of_some htidy.names hpart
    rw [mergeAt_table] at hmerged
    rw [at?_of_table hpart]
    split at hmerged
    · rename_i below hbelow
      rw [at?_of_table hmerged, at?_of_table hbelow]
      have hnames := htidy.of_get? hpart members rfl
      cases hv : SettingTable.get? key.name members with
      | none => exact get?_merge_of_none hv
      | some v => exact get?_merge_of_some hnames hv
    · rename_i hbelow
      have hnone : base.at? key = none := by
        unfold at?
        split
        · rename_i below hsome
          exact absurd hsome (hbelow below)
        · rfl
      rw [at?_of_table hmerged, hnone]
      cases SettingTable.get? key.name members with
      | none => rfl
      | some v => exact congrArg some (mergeAt_none v).symm

/-- By induction on the later layer. -/
theorem Tabular.merge (hb : base.Tabular) (hl : later.Tabular) : (base.merge later).Tabular := by
  induction later generalizing base with
  | nil => rwa [SettingTable.merge]
  | cons entry later ih =>
    obtain ⟨name, v⟩ := entry
    rw [merge_cons]
    refine ih (fun key w hw => ?_) fun key w hw => hl key w (List.mem_cons_of_mem _ hw)
    rcases List.mem_append.1 hw with hw | hw
    · exact hb key w (List.mem_filter.1 hw).1
    · obtain ⟨rfl, rfl⟩ := Prod.mk.inj (List.mem_singleton.1 hw)
      obtain ⟨members, rfl⟩ := hl key v List.mem_cons_self
      rw [mergeAt_table]
      split
      · exact ⟨_, rfl⟩
      · exact ⟨_, rfl⟩

end SettingTable

/-! ## Variables -/

namespace Environment

open SettingTable (at?_merge)

/-- What the variables say of a setting, one after another. -/
def supplied (e : Environment) (key : Key) : List Setting :=
  e.filterMap fun entry => (variableLayer entry).at? key

theorem mem_supplied_iff {e : Environment} {key : Key} {v : Setting} :
    v ∈ e.supplied key ↔ ∃ entry ∈ e, (variableLayer entry).at? key = some v :=
  List.mem_filterMap

section

variable {e : Environment} (he : ∀ entry ∈ e, (variableLayer entry).Tabular)
include he

theorem tabular_foldl_variableLayer {t : SettingTable} (ht : t.Tabular) :
    (e.foldl (fun t entry => t.merge (variableLayer entry)) t).Tabular := by
  induction e generalizing t with
  | nil => exact ht
  | cons entry e ih =>
    exact ih (fun entry hentry => he entry (List.mem_cons_of_mem _ hentry))
      (ht.merge (he entry List.mem_cons_self))

/-- Where the variables hold tables for the parts of the settings, so does the
environment. -/
theorem tabular_layer : e.layer.Tabular :=
  tabular_foldl_variableLayer he nofun

/-- By induction on the variables: each of them is merged over those before. -/
theorem at?_foldl_variableLayer (t : SettingTable) (key : Key) :
    (e.foldl (fun t entry => t.merge (variableLayer entry)) t).at? key =
      (e.supplied key).foldl (fun found v => some (Setting.mergeAt found v)) (t.at? key) := by
  induction e generalizing t with
  | nil => rfl
  | cons entry e ih =>
    have hmerged := at?_merge t (tidy_variableLayer entry) (he entry List.mem_cons_self) key
    rw [List.foldl_cons, ih fun entry hentry => he entry (List.mem_cons_of_mem _ hentry), hmerged,
      supplied, supplied, List.filterMap_cons]
    cases (variableLayer entry).at? key <;> rfl

/-- Where no setting is supplied twice, what the environment says of it is what a
variable says. -/
theorem at?_layer_iff {key : Key} (honce : (e.supplied key).length ≤ 1) {v : Setting} :
    e.layer.at? key = some v ↔ ∃ entry ∈ e, (variableLayer entry).at? key = some v := by
  rw [← mem_supplied_iff, layer, at?_foldl_variableLayer he]
  match hsupplied : e.supplied key, honce with
  | [], _ => simp [SettingTable.at?, SettingTable.get?]
  | [w], _ =>
    have hnone : SettingTable.at? key [] = none := rfl
    rw [List.foldl_cons, hnone, SettingTable.mergeAt_none, List.foldl_nil, List.mem_singleton,
      Option.some.injEq, eq_comm]

end

end Environment

/-! ## Values in effect -/

namespace Settings

/-- The value of a setting. -/
def value (s : Settings) : Key → Setting
  | .autoShutdownEnabled => .flag s.autoShutdownEnabled
  | .output => .text s.output
  | .hex => .flag s.hex

/-- A value of the kind that a setting has. -/
def Key.Fits (v : Setting) : Key → Prop
  | autoShutdownEnabled | hex => ∃ b, v = .flag b
  | output => ∃ s, v = .text s

/-- The value of a setting that is in effect: the one of the environment, else the
one of the file, else the default. -/
def effective (file environment : SettingTable) (key : Key) : Setting :=
  ((environment.at? key).or (file.at? key)).getD (value {} key)

theorem fits_value (s : Settings) (key : Key) : key.Fits (s.value key) := by
  cases key with
  | output => exact ⟨_, rfl⟩
  | autoShutdownEnabled | hex => exact ⟨_, rfl⟩

/-- Values of the right kinds are those of settings. -/
theorem exists_value_iff {value : Key → Setting} :
    (∃ s : Settings, ∀ key, value key = s.value key) ↔ ∀ key : Key, key.Fits (value key) := by
  constructor
  · rintro ⟨s, hs⟩ key
    rw [hs key]
    exact fits_value s key
  · intro h
    obtain ⟨a, ha⟩ := h .autoShutdownEnabled
    obtain ⟨o, ho⟩ := h .output
    obtain ⟨x, hx⟩ := h .hex
    refine ⟨⟨a, o, x⟩, fun key => ?_⟩
    cases key with
    | autoShutdownEnabled => exact ha
    | output => exact ho
    | hex => exact hx

theorem read?_eq_some_text_iff {key : Key} {v : Setting} {s : Settings} :
    key.read? (some v) = some (s.text key) ↔ v = s.value key := by
  cases key with
  | output => cases v <;> simp [Key.read?, orDefault, text?, text, value]
  | autoShutdownEnabled | hex =>
    cases v <;> simp [Key.read?, orDefault, flag?, text, value, flagText_inj]

section

variable {t : SettingTable} {e : Environment}

theorem decides?_of_tabular (ht : t.Tabular) (key : Key) :
    t.decides? key = (t.at? key).map fun v => key.read? (some v) := by
  unfold SettingTable.decides?
  cases hpart : t.get? key.part with
  | none => rw [SettingTable.at?_of_none hpart]; rfl
  | some v =>
    obtain ⟨members, rfl⟩ := ht.of_get? hpart
    rw [SettingTable.at?_of_table hpart]

/-- What is read off the layers is the value in effect. -/
theorem reads?_layers (htidy : t.Tidy) (ht : t.Tabular) (he : e.layer.Tabular) (key : Key) :
    (layers t e).reads? key = key.read? (some (effective t e.layer key)) := by
  have henvironment := decides?_of_tabular he key
  have hfile := decides?_of_tabular ht key
  rw [layers, effective]
  cases hv : e.layer.at? key with
  | some v =>
    rw [hv] at henvironment
    exact SettingTable.reads?_of_decides? e.tidy_layer henvironment
  | none =>
    rw [hv] at henvironment
    obtain ⟨below, hbelow⟩ := exists_table_defaults ht key
    rw [SettingTable.reads?_of_undecided hbelow e.tidy_layer henvironment]
    cases hw : t.at? key with
    | some w =>
      rw [hw] at hfile
      exact SettingTable.reads?_of_decides? htidy hfile
    | none =>
      rw [hw] at hfile
      have hdefault : ∃ below, (layer {}).get? key.part = some (.table below) := by
        cases key <;> exact ⟨_, rfl⟩
      obtain ⟨below, hbelow⟩ := hdefault
      rw [SettingTable.reads?_of_undecided hbelow htidy hfile]
      cases key <;> rfl

theorem ofLayer?_layers_iff (htidy : t.Tidy) (ht : t.Tabular) (he : e.layer.Tabular)
    {s : Settings} :
    ofLayer? (layers t e) = some s ↔ ∀ key, effective t e.layer key = s.value key := by
  simp only [SettingTable.ofLayer?_eq_some_iff_reads?, reads?_layers htidy ht he,
    read?_eq_some_text_iff]

end

/-! ## Loading -/

/-- What loading comes to where values are in effect. -/
structure Loads (value : Key → Setting) (r : Except SettingsFault Settings) : Prop where
  unreadable : r = .error .unreadable ↔ ∃ key : Key, ¬ key.Fits (value key)
  unknownOutput : ∀ name, r = .error (.unknownOutput name) ↔
    (∀ key : Key, key.Fits (value key)) ∧ value .output = .text name ∧ name ∉ Key.output.values
  loaded : ∀ s : Settings, r = .ok s ↔
    (∀ key, value key = s.value key) ∧ s.output ∈ Key.output.values

/-- It is one thing. -/
theorem Loads.unique {value : Key → Setting} {r r' : Except SettingsFault Settings}
    (h : Loads value r) (h' : Loads value r') : r = r' := by
  cases r with
  | ok s => exact ((h'.loaded s).2 ((h.loaded s).1 rfl)).symm
  | error fault =>
    cases fault with
    | unreadable => exact (h'.unreadable.2 (h.unreadable.1 rfl)).symm
    | unknownOutput name =>
      exact ((h'.unknownOutput name).2 ((h.unknownOutput name).1 rfl)).symm

theorem validate_eq_error_iff {s : Settings} {fault : SettingsFault} :
    s.validate = .error fault ↔
      fault = .unknownOutput s.output ∧ s.output ∉ Key.output.values := by
  unfold validate
  split
  · rename_i h
    simp [isSome_ofName?_iff.1 h]
  · rename_i h
    simp [mt isSome_ofName?_iff.2 h, eq_comm]

/-- Without settings in the layers there are none to load, and otherwise they are
the values in effect. -/
theorem loads_of_layer {content : Option Bytes} {t : SettingTable} {e : Environment}
    (hfile : fileLayer? content = some t) {value : Key → Setting}
    (h : ∀ s, ofLayer? (layers t e) = some s ↔ ∀ key, value key = s.value key) :
    Loads value (load content e) := by
  cases hs : ofLayer? (layers t e) with
  | none =>
    have hload : load content e = .error .unreadable := by
      simp [load, hfile, hs]
    have hunfit : ¬ ∀ key : Key, key.Fits (value key) := fun hfits => by
      obtain ⟨s, hvalue⟩ := exists_value_iff.2 hfits
      cases hs.symm.trans ((h s).2 hvalue)
    rw [hload]
    refine ⟨iff_of_true rfl (Classical.not_forall.1 hunfit), fun name => ?_, fun s => ?_⟩
    · refine iff_of_false (fun hfault => ?_) fun hname => hunfit hname.1
      cases hfault
    · refine iff_of_false (fun hloaded => ?_) fun hvalue => ?_
      · cases hloaded
      · exact hunfit (exists_value_iff.1 ⟨s, hvalue.1⟩)
  | some s =>
    have hload : load content e = s.validate := by
      simp [load, hfile, hs]
    have hvalue := (h s).1 hs
    have hfits := exists_value_iff.1 ⟨s, hvalue⟩
    rw [hload]
    refine ⟨?_, fun name => ?_, fun s' => ?_⟩
    · refine iff_of_false (fun hfault => ?_) fun hunfit => ?_
      · cases (validate_eq_error_iff.1 hfault).1
      · obtain ⟨key, hkey⟩ := hunfit
        exact hkey (hfits key)
    · rw [validate_eq_error_iff, hvalue .output]
      constructor
      · rintro ⟨hname, hunknown⟩
        cases hname
        exact ⟨hfits, rfl, hunknown⟩
      · rintro ⟨-, hname, hunknown⟩
        cases hname
        exact ⟨rfl, hunknown⟩
    · rw [validate_eq_ok_iff, isSome_ofName?_iff]
      constructor
      · rintro ⟨rfl, hknown⟩
        exact ⟨hvalue, hknown⟩
      · rintro ⟨hvalue', hknown⟩
        cases hs.symm.trans ((h s').2 hvalue')
        exact ⟨rfl, hknown⟩

theorem loads_of_describes {f : Files} {path : String} {t : SettingTable} {e : Environment}
    (hfile : f.Describes path t) (ht : t.Tabular) (he : e.layer.Tabular) :
    Loads (effective t e.layer) (load (f.find? path) e) :=
  loads_of_layer (Files.fileLayer?_of_describes hfile) fun _ =>
    ofLayer?_layers_iff hfile.tidy ht he

/-- Where the parts of the settings are tables, in the file as in the environment,
loading comes to what the three values in effect say: a value of another kind
makes the settings unreadable, and an output that is no format is named. Layers
with the same values in effect are loaded alike, whatever else they hold. What
cannot be loaded is replaced by the defaults where there is need of settings. -/
theorem load_by_layers {f : Files} {path : String} {t : SettingTable} {e : Environment}
    (hfile : f.Describes path t) (ht : t.Tabular) (he : e.layer.Tabular) :
    Loads (effective t e.layer) (load (f.find? path) e) ∧
      (∀ s, load (f.find? path) e = .ok s → loadOrDefault (f.find? path) e = s) ∧
      (∀ fault, load (f.find? path) e = .error fault → loadOrDefault (f.find? path) e = {}) ∧
      (∀ (f' : Files) path' t' (e' : Environment), f'.Describes path' t' → t'.Tabular →
        e'.layer.Tabular → (∀ key, effective t' e'.layer key = effective t e.layer key) →
          load (f'.find? path') e' = load (f.find? path) e) ∧
      ((∀ entry ∈ e, (Environment.variableLayer entry).Tabular) → ∀ key,
        (e.supplied key).length ≤ 1 → ∀ v, e.layer.at? key = some v ↔
          ∃ entry ∈ e, (Environment.variableLayer entry).at? key = some v) := by
  have hloads := loads_of_describes hfile ht he
  refine ⟨hloads, fun s hs => ?_, fun fault hfault => ?_,
    fun f' path' t' e' hfile' ht' he' hsame => ?_,
    fun hvariables key honce v => Environment.at?_layer_iff hvariables honce⟩
  · rw [loadOrDefault, hs]
  · rw [loadOrDefault, hfault]
  · have hloads' := loads_of_describes hfile' ht' he'
    rw [funext hsame] at hloads'
    exact hloads'.unique hloads

/-! ## A value that is masked -/

/-- The text of a file with a value of the wrong kind, and with a name that is
unknown. -/
def maskedText : List Char :=
  "[device]\n".toList ++ line "auto_shutdown_enabled" (Toml.Quotation.write "off") ++
    "[defaults]\n".toList ++ line "output" (Toml.Quotation.write "yaml") ++
      line "ink" (Toml.Quotation.write "blue")

/-- The layer of the file. -/
def maskedLayer : SettingTable :=
  [("device", .table [("auto_shutdown_enabled", .text "off")]),
    ("defaults", .table [("output", .text "yaml"), ("ink", .text "blue")])]

theorem read?_maskedText :
    Toml.read? (Utf8.encode (String.ofList maskedText)) = some maskedLayer := by
  have hdevice : Toml.ReadsAs "[device]\n".toList [.openTable ["device"]] :=
    ⟨_, rfl, fun _ => rfl⟩
  have hdefaults : Toml.ReadsAs "[defaults]\n".toList [.openTable ["defaults"]] :=
    ⟨_, rfl, fun _ => rfl⟩
  have hline : ∀ key s, key ≠ "" → key.toList.all Toml.isKeyChar = true →
      Toml.ReadsAs (line key (Toml.Quotation.write s)) [.assign [key] (.text s)] :=
    fun key s hne hkey => Toml.readsAs_line hne hkey (Toml.spells_write s)
  have hshutdown := hline "auto_shutdown_enabled" "off" (by decide) rfl
  have houtput := hline "output" "yaml" (by decide) rfl
  have hink := hline "ink" "blue" (by decide) rfl
  have hlines := (((hdevice.append hshutdown).append hdefaults).append houtput).append hink
  have hallowed : maskedText.all Toml.isAllowed = true := by decide +kernel
  have hparse := Toml.parse?_of_readsAs (by decide) hallowed hlines
  rw [Toml.read?, Utf8.decode?_encode, Option.bind_eq_bind, Option.bind_some,
    String.toList_ofList]
  exact hparse

/-- Files with it above the start, in which a directory has the name of the file. -/
def maskedFiles : Files where
  start := ["work"]
  entry l :=
    if l = ["config.toml"] then some (.file (Utf8.encode (String.ofList maskedText)))
    else if l = [] ∨ l = ["work"] ∨ l = ["work", "config.toml"] then some (.directory true)
    else none

/-- An environment with a value of the right kind, and with one more setting. -/
def masking : Environment :=
  [("SOFTAP_DEVICE__AUTO_SHUTDOWN_ENABLED", "false"), ("softap_defaults.hex", "true"),
    ("SOFTAP_DEFAULTS__INK", "red")]

theorem map_variableLayer_masking : masking.map Environment.variableLayer =
    [[("device", .table [("auto_shutdown_enabled", .flag false)])],
      [("defaults", .table [("hex", .flag true)])],
      [("defaults", .table [("ink", .text "red")])]] := by
  have hshutdown : Environment.path? "SOFTAP_DEVICE__AUTO_SHUTDOWN_ENABLED" =
      some ["device", "auto_shutdown_enabled"] := by decide +kernel
  have hhex : Environment.path? "softap_defaults.hex" = some ["defaults", "hex"] := by
    decide +kernel
  have hink : Environment.path? "SOFTAP_DEFAULTS__INK" = some ["defaults", "ink"] := by
    decide +kernel
  simp only [masking, List.map_cons, List.map_nil, Environment.variableLayer, hshutdown, hhex, hink]
  rfl

theorem layer_masking : masking.layer =
    [("device", .table [("auto_shutdown_enabled", .flag false)]),
      ("defaults", .table [("hex", .flag true), ("ink", .text "red")])] := by
  have hlayers : masking.layer =
      (masking.map Environment.variableLayer).foldl SettingTable.merge [] :=
    List.foldl_map.symm
  rw [hlayers, map_variableLayer_masking]
  rfl

/-- The file is found above the directory that has its name. Its value of the wrong
kind is masked by the environment, its output is in effect under the environment's
table, and the unknown names do nothing. -/
theorem load_by_layers_masked :
    maskedFiles.Describes "config.toml" maskedLayer ∧ maskedLayer.Tabular ∧
      masking.layer.Tabular ∧ (∀ entry ∈ masking, (Environment.variableLayer entry).Tabular) ∧
      (∀ key, (masking.supplied key).length ≤ 1) ∧
      load (maskedFiles.find? "config.toml") masking =
        .ok { autoShutdownEnabled := false, output := "yaml", hex := true } ∧
      loadOrDefault (maskedFiles.find? "config.toml") masking =
        { autoShutdownEnabled := false, output := "yaml", hex := true } ∧
      ∃ entry ∈ masking, (Environment.variableLayer entry).at? .hex = some (.flag true) := by
  have hfile : maskedFiles.Describes "config.toml" maskedLayer := by
    have hsearched : maskedFiles.searched "config.toml" = [["work"], []] := by decide +kernel
    have hwork : maskedFiles.NoFile ["work"] "config.toml" :=
      Files.readFrom?_eq_none_iff.1 (by decide +kernel)
    have hlocate : maskedFiles.locateFrom? [] "config.toml" = some ["config.toml"] := by
      decide +kernel
    have htries : maskedFiles.Tries "config.toml" [] :=
      ⟨[["work"]], [], hsearched, List.forall_mem_singleton.2 hwork⟩
    have hentry : maskedFiles.entry ["config.toml"] =
        some (.file (Utf8.encode (String.ofList maskedText))) := rfl
    exact .document ⟨[], htries, hlocate, hentry⟩ read?_maskedText
  have hlayer : maskedLayer.Tabular := SettingTable.tabular_of_tables (by simp [maskedLayer])
  have hvariables : ∀ entry ∈ masking, (Environment.variableLayer entry).Tabular := by
    intro entry hentry
    have hmem : Environment.variableLayer entry ∈ masking.map Environment.variableLayer :=
      List.mem_map_of_mem hentry
    rw [map_variableLayer_masking] at hmem
    simp only [List.mem_cons, List.not_mem_nil, or_false] at hmem
    rcases hmem with hmem | hmem | hmem <;> rw [hmem] <;>
      exact SettingTable.tabular_of_tables (by simp)
  have hsupplied : ∀ key, masking.supplied key =
      (masking.map Environment.variableLayer).filterMap (SettingTable.at? key) := by
    intro key
    rw [List.filterMap_map]
    rfl
  have honce : ∀ key, (masking.supplied key).length ≤ 1 := by
    intro key
    rw [hsupplied, map_variableLayer_masking]
    cases key <;> decide
  have htables := Environment.tabular_layer hvariables
  obtain ⟨hloads, hdefault, -, -, hvariable⟩ := load_by_layers hfile hlayer htables
  have hhex : masking.layer.at? .hex = some (.flag true) := by
    rw [layer_masking]
    rfl
  have hload : load (maskedFiles.find? "config.toml") masking =
      .ok { autoShutdownEnabled := false, output := "yaml", hex := true } := by
    refine (hloads.loaded _).2 ⟨fun key => ?_, by decide⟩
    rw [layer_masking]
    cases key <;> rfl
  exact ⟨hfile, hlayer, htables, hvariables, honce, hload, hdefault _ hload,
    (hvariable hvariables .hex (honce .hex) _).1 hhex⟩

end Settings

end HotspotBackup
