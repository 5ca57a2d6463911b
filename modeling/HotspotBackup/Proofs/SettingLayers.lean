import HotspotBackup.Settings.Edit

/-!
# Layers of settings

What merging makes of the names of two tables, and of the tables that the
settings stand in.

* `get?_merge_of_none`, `get?_merge_of_some`: a name has the later value, or
  the earlier one where the later table has none.
* `load_eq_ok_iff`: what loading comes to.
* `layers_of_clear`: nothing is above the file where no variable holds a setting.
* `exists_table_defaults`: the parts of the settings are tables over the defaults.
-/

namespace HotspotBackup

namespace SettingTable

theorem get?_cons (entry : String × Setting) (t : SettingTable) (name : String) :
    get? name (entry :: t) = if entry.1 = name then some entry.2 else get? name t := by
  by_cases h : entry.1 = name <;> simp [get?, h]

theorem mem_of_get? {t : SettingTable} {name : String} {v : Setting} (h : t.get? name = some v) :
    (name, v) ∈ t := by
  obtain ⟨entry, hf, rfl⟩ := Option.map_eq_some_iff.1 h
  have hn : entry.1 = name := by simpa using List.find?_some hf
  exact hn ▸ List.mem_of_find?_eq_some hf

theorem get?_put_self (name : String) (v : Setting) (t : SettingTable) :
    (t.put name v).get? name = some v := by
  have hnone : (t.erase name).find? (·.1 = name) = none := by
    simp [erase]
  rw [get?, put, List.find?_append, hnone]
  simp

theorem get?_put_of_ne {name other : String} (h : other ≠ name) (v : Setting)
    (t : SettingTable) : (t.put name v).get? other = t.get? other := by
  have hkept : (t.erase name).find? (·.1 = other) = t.find? (·.1 = other) := by
    rw [erase, List.find?_filter]
    congr 1
    funext entry
    by_cases he : entry.1 = other <;> simp [he, h]
  have hne : ¬ name = other := fun he => h he.symm
  rw [get?, put, List.find?_append, hkept]
  simp [get?, hne]

theorem nodup_names_put {t : SettingTable} (h : (t.map (·.1)).Nodup) (name : String)
    (v : Setting) : ((t.put name v).map (·.1)).Nodup := by
  rw [put, List.map_append, List.nodup_append]
  refine ⟨h.sublist (List.filter_sublist.map _), by simp, ?_⟩
  simp [erase]

/-! ## Merging -/

theorem merge_cons (base : SettingTable) (name : String) (v : Setting) (later : SettingTable) :
    base.merge ((name, v) :: later) =
      (base.put name (Setting.mergeAt (base.get? name) v)).merge later := by
  rw [merge]

/-- A name that the later table does not have keeps its value. -/
theorem get?_merge_of_none {base later : SettingTable} {name : String}
    (h : later.get? name = none) : (base.merge later).get? name = base.get? name := by
  induction later generalizing base with
  | nil => rw [merge]
  | cons entry later ih =>
    obtain ⟨other, v⟩ := entry
    rw [get?_cons] at h
    split at h
    · cases h
    · rename_i hne
      rw [merge_cons, ih h, get?_put_of_ne (Ne.symm hne)]

/-- A name of the later table has its value there, under which only a table
is merged. -/
theorem get?_merge_of_some {base later : SettingTable} (hn : (later.map (·.1)).Nodup)
    {name : String} {v : Setting} (h : later.get? name = some v) :
    (base.merge later).get? name = some (Setting.mergeAt (base.get? name) v) := by
  induction later generalizing base with
  | nil => cases h
  | cons entry later ih =>
    obtain ⟨other, w⟩ := entry
    obtain ⟨hother, hn⟩ := List.nodup_cons.1 hn
    rw [get?_cons] at h
    rw [merge_cons]
    split at h
    · rename_i heq
      cases heq
      cases h
      have hnone : get? other later = none := by
        cases hl : get? other later with
        | none => rfl
        | some w => exact absurd (List.mem_map_of_mem (mem_of_get? hl)) hother
      rw [get?_merge_of_none hnone, get?_put_self]
    · rename_i hne
      rw [ih hn h, get?_put_of_ne (Ne.symm hne)]

theorem nodup_names_merge {base : SettingTable} (h : (base.map (·.1)).Nodup)
    (later : SettingTable) : ((base.merge later).map (·.1)).Nodup := by
  induction later generalizing base with
  | nil => rwa [merge]
  | cons entry later ih =>
    obtain ⟨name, v⟩ := entry
    rw [merge_cons]
    exact ih (nodup_names_put h name _)

/-- Tables that are merged over a table are one. -/
theorem exists_table_merge {base later : SettingTable} {name : String}
    (hb : ∃ members, base.get? name = some (.table members))
    (hl : ∀ v, (name, v) ∈ later → ∃ members, v = .table members) :
    ∃ members, (base.merge later).get? name = some (.table members) := by
  induction later generalizing base with
  | nil => rwa [merge]
  | cons entry later ih =>
    obtain ⟨other, v⟩ := entry
    have hrest : ∀ v, (name, v) ∈ later → ∃ members, v = .table members :=
      fun w hw => hl w (List.mem_cons_of_mem _ hw)
    rw [merge_cons]
    by_cases hne : name = other
    · subst hne
      obtain ⟨members, rfl⟩ := hl v List.mem_cons_self
      obtain ⟨below, hbelow⟩ := hb
      refine ih ⟨merge below members, ?_⟩ hrest
      rw [get?_put_self, hbelow, Setting.mergeAt]
    · refine ih ?_ hrest
      rwa [get?_put_of_ne hne]

end SettingTable

/-! ## Settings in their parts -/

namespace Settings.Key

/-- The part that a setting stands in. -/
def part : Key → String
  | autoShutdownEnabled => "device"
  | output | hex => "defaults"

/-- The name of a setting in its part. -/
def name : Key → String
  | autoShutdownEnabled => "auto_shutdown_enabled"
  | output => "output"
  | hex => "hex"

/-- The values of a setting. -/
def values : Key → List String
  | autoShutdownEnabled | hex => ["true", "false"]
  | output => ["json", "json-compact", "yaml"]

end Settings.Key

namespace SettingTable

open Settings (Key)

/-- What a layer says of a setting, if it has the part of it as a table. -/
def at? (key : Key) (t : SettingTable) : Option Setting :=
  match t.get? key.part with
  | some (.table members) => SettingTable.get? key.name members
  | _ => none

/-- A layer in which the parts of the settings are tables, as far as it has
them. -/
def Tabular (t : SettingTable) : Prop :=
  ∀ (key : Key) v, (key.part, v) ∈ t → ∃ members, v = .table members

theorem at?_of_table {t : SettingTable} {key : Key} {members : SettingTable}
    (h : t.get? key.part = some (.table members)) : t.at? key = members.get? key.name := by
  rw [at?, h]

end SettingTable

namespace Settings

/-- The text of a flag. -/
def flagText (b : Bool) : String :=
  if b then "true" else "false"

/-- The value of a setting, as the text that sets it. -/
def text (s : Settings) : Key → String
  | .autoShutdownEnabled => flagText s.autoShutdownEnabled
  | .output => s.output
  | .hex => flagText s.hex

theorem flagText_inj {b c : Bool} : flagText b = flagText c ↔ b = c := by
  cases b <;> cases c <;> decide

/-! ## Loading -/

theorem isSome_ofName?_iff {name : String} :
    (OutputFormat.ofName? name).isSome = true ↔ name ∈ Key.output.values := by
  rw [OutputFormat.ofName?, List.find?_isSome]
  constructor
  · rintro ⟨format, -, h⟩
    cases of_decide_eq_true h
    cases format <;> decide
  · revert name
    decide

theorem validate_eq_ok_iff {s s' : Settings} :
    s.validate = .ok s' ↔ s' = s ∧ (OutputFormat.ofName? s.output).isSome = true := by
  unfold validate
  split
  · rename_i h
    simp [h, eq_comm]
  · rename_i h
    simp [h]

theorem load_eq_ok_iff {content : Option Bytes} {e : Environment} {s : Settings} :
    load content e = .ok s ↔ ∃ t, fileLayer? content = some t ∧
      ofLayer? (layers t e) = some s ∧ (OutputFormat.ofName? s.output).isSome = true := by
  unfold load
  cases hf : fileLayer? content with
  | none => simp
  | some t =>
    simp only [Option.bind_eq_bind, Option.bind_some, Option.some.injEq, exists_eq_left']
    cases hl : ofLayer? (layers t e) with
    | none => simp
    | some s' =>
      simp only [validate_eq_ok_iff, Option.some.injEq]
      refine ⟨fun h => ?_, fun h => ?_⟩
      · obtain ⟨rfl, h⟩ := h
        exact ⟨rfl, h⟩
      · obtain ⟨rfl, h⟩ := h
        exact ⟨rfl, h⟩

end Settings

namespace Environment

/-- An environment none of whose variables holds a setting. -/
def Clear (e : Environment) : Prop :=
  ∀ entry ∈ e, path? entry.1 = none

theorem foldl_variableLayer_of_clear {e : Environment} (h : e.Clear) (t : SettingTable) :
    e.foldl (fun t entry => t.merge (variableLayer entry)) t = t := by
  induction e with
  | nil => rfl
  | cons entry e ih =>
    have hentry : variableLayer entry = [] := by
      rw [variableLayer, h entry List.mem_cons_self]
    rw [List.foldl_cons, hentry, SettingTable.merge]
    exact ih fun entry he => h entry (List.mem_cons_of_mem _ he)

theorem layer_of_clear {e : Environment} (h : e.Clear) : e.layer = [] :=
  foldl_variableLayer_of_clear h []

end Environment

namespace Settings

theorem layers_of_clear {e : Environment} (h : e.Clear) (t : SettingTable) :
    layers t e = (layer {}).merge t := by
  rw [layers, Environment.layer_of_clear h, SettingTable.merge]

/-- Over the defaults, a file with tables for the parts of the settings leaves
these tables. -/
theorem exists_table_defaults {t : SettingTable} (ht : t.Tabular) (key : Key) :
    ∃ members, ((layer {}).merge t).get? key.part = some (.table members) := by
  refine SettingTable.exists_table_merge ?_ (ht key)
  cases key <;> exact ⟨_, rfl⟩

end Settings

end HotspotBackup
