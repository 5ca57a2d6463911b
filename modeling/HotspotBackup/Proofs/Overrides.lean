import HotspotBackup.Proofs.SettingsDocument

/-!
# What an environment decides

Where the part of a setting is a table, a later layer decides the setting if it
has it. Where the part is a list, the layer decides every setting of the part,
those that the list is too short for among them: nothing of an earlier layer is
left under a list (`decides?`).

* `Tidy`: names are distinct, and so are those in the parts. `tidy_layer`: so
  they are in the layer of an environment.
* `ofLayer?_eq_some_iff_reads?`: settings are read off merged layers one by one.
* `reads?_of_decides?`, `reads?_of_undecided`: a setting of merged layers is what
  the later one decides, or else what the tables before it say.
* `text_eq_of_unsupplied`: a setting that no variable supplies is the one that
  the file gives.
* `load_document_of_load`: settings that are saved are loaded again, but for
  what the environment decides.
-/

namespace HotspotBackup

/-! ## Distinct names -/

/-- A value that has distinct names if it is a table. -/
def Setting.Tidy (v : Setting) : Prop :=
  ∀ members, v = .table members → (members.map (·.1)).Nodup

namespace SettingTable

/-- A table of distinct names, whose values have distinct names. -/
structure Tidy (t : SettingTable) : Prop where
  names : (t.map (·.1)).Nodup
  members : ∀ entry ∈ t, entry.2.Tidy

variable {t base later : SettingTable}

theorem tidy_nil : Tidy [] :=
  ⟨.nil, nofun⟩

theorem Tidy.put (h : t.Tidy) (name : String) {v : Setting} (hv : v.Tidy) :
    (t.put name v).Tidy := by
  refine ⟨nodup_names_put h.names name v, fun entry he => ?_⟩
  rcases List.mem_append.1 he with he | he
  · exact h.members entry (List.mem_filter.1 he).1
  · cases List.mem_singleton.1 he
    exact hv

theorem Tidy.of_get? (h : t.Tidy) {name : String} {v : Setting} (hv : t.get? name = some v) :
    v.Tidy :=
  h.members (name, v) (mem_of_get? hv)

theorem mergeAt_table (earlier : Option Setting) (members : SettingTable) :
    Setting.mergeAt earlier (.table members) = match earlier with
      | some (.table below) => .table (SettingTable.merge below members)
      | _ => .table members := by
  cases earlier with
  | none => rfl
  | some below => cases below <;> rfl

theorem tidy_mergeAt {earlier : Option Setting} {v : Setting}
    (he : ∀ below, earlier = some below → below.Tidy) (hv : v.Tidy) :
    (Setting.mergeAt earlier v).Tidy := by
  cases v with
  | table members =>
    rw [mergeAt_table]
    split
    · rename_i below
      intro merged hmerged
      cases hmerged
      exact nodup_names_merge (he _ rfl below rfl) members
    · exact hv
  | text | flag | number | list => exact hv

/-- By induction on the later table. -/
theorem Tidy.merge (hb : base.Tidy) (hl : ∀ entry ∈ later, entry.2.Tidy) :
    (base.merge later).Tidy := by
  induction later generalizing base with
  | nil => rwa [SettingTable.merge]
  | cons entry later ih =>
    obtain ⟨name, v⟩ := entry
    rw [merge_cons]
    refine ih (hb.put name ?_) fun entry he => hl entry (List.mem_cons_of_mem _ he)
    exact tidy_mergeAt (fun below => hb.of_get?) (hl (name, v) List.mem_cons_self)

end SettingTable

namespace Environment

open SettingTable (Tidy tidy_nil)

/-- The members of a table that is read are put there one by one. By induction on
the fuel. -/
theorem nodup_members? {fuel : Nat} {before found : SettingTable} {cs rest : List Char}
    (h : members? fuel before cs = some (found, rest)) (hb : (before.map (·.1)).Nodup) :
    (found.map (·.1)).Nodup := by
  induction fuel generalizing before cs with
  | zero =>
    rw [members?.eq_def] at h
    cases h
  | succ fuel ih =>
    rw [members?.eq_def] at h
    dsimp only at h
    split at h
    · cases h
      exact hb
    · simp only [Option.bind_eq_bind, Option.bind_eq_some_iff] at h
      obtain ⟨⟨key, afterKey⟩, -, ⟨v, afterValue⟩, -, h⟩ := h
      have hput := SettingTable.nodup_names_put hb key v
      dsimp only at h
      split at h
      · exact ih h hput
      · cases h
        exact hput
      · cases h

theorem plain_ne_table (cs : List Char) (members : SettingTable) : plain cs ≠ .table members := by
  unfold plain
  split
  · exact nofun
  · split <;> exact nofun

theorem tidy_value? {fuel : Nat} {cs rest : List Char} {v : Setting}
    (h : value? fuel cs = some (v, rest)) : v.Tidy := by
  cases fuel with
  | zero =>
    rw [value?.eq_def] at h
    cases h
  | succ fuel =>
    rw [value?.eq_def] at h
    simp only [Option.bind_eq_bind, Option.bind_eq_some_iff, Option.pure_def, Option.some.injEq,
      Prod.mk.injEq] at h
    obtain ⟨⟨found, after⟩, h, rfl, -⟩ := h
    intro members htable
    subst htable
    split at h
    · cases h
    · cases h
    · -- a table in braces
      obtain ⟨⟨found, rest⟩, hfound, h⟩ := Option.map_eq_some_iff.1 h
      cases h
      exact nodup_members? hfound .nil
    · obtain ⟨found, -, h⟩ := Option.map_eq_some_iff.1 h
      cases h
    · obtain ⟨found, -, h⟩ := Option.map_eq_some_iff.1 h
      cases h
    · cases h
    · cases h
    · exact absurd (Prod.mk.inj (Option.some.inj h)).1 (plain_ne_table _ _)

theorem tidy_value (raw : String) : (value raw).Tidy := by
  unfold value
  split
  · rename_i h
    exact tidy_value? h
  · exact nofun

theorem tidy_singleton (name : String) {v : Setting} (hv : v.Tidy) :
    SettingTable.Tidy [(name, v)] := by
  refine ⟨by simp, fun entry he => ?_⟩
  cases List.mem_singleton.1 he
  exact hv

/-- By induction on the path. -/
theorem tidy_tableAt {v : Setting} (hv : v.Tidy) : ∀ path, (tableAt v path).Tidy
  | [] => tidy_nil
  | [name] => tidy_singleton name hv
  | name :: next :: rest => by
    refine tidy_singleton name fun members htable => ?_
    cases htable
    exact (tidy_tableAt hv (next :: rest)).names

theorem tidy_variableLayer (entry : String × String) : (variableLayer entry).Tidy := by
  unfold variableLayer
  split
  · exact tidy_tableAt (tidy_value entry.2) _
  · exact tidy_nil

theorem tidy_foldl_variableLayer (e : Environment) {t : SettingTable} (h : t.Tidy) :
    (e.foldl (fun t entry => t.merge (variableLayer entry)) t).Tidy := by
  induction e generalizing t with
  | nil => exact h
  | cons entry e ih => exact ih (h.merge (tidy_variableLayer entry).members)

/-- The layer of an environment is tidy. -/
theorem tidy_layer (e : Environment) : e.layer.Tidy :=
  tidy_foldl_variableLayer e tidy_nil

end Environment

namespace Settings

/-! ## Settings one by one -/

/-- The place of a setting in its part, if that is a list. -/
def Key.place : Key → Nat
  | autoShutdownEnabled | output => 0
  | hex => 1

/-- The text of what is found for a setting, or of its default where nothing is
found. -/
def Key.read? (found : Option Setting) : Key → Option String
  | autoShutdownEnabled => (orDefault true flag? found).map flagText
  | output => orDefault "json" text? found
  | hex => (orDefault false flag? found).map flagText

end Settings

namespace SettingTable

open Settings (Key flagText flagText_inj orDefault member? text? flag?)

/-- The text of a setting in merged layers. -/
def reads? (key : Key) (t : SettingTable) : Option String :=
  member? key.place key.name (t.get? key.part) >>= fun found => key.read? found

/-- What a layer decides of a setting, whatever is in the layers before it; of
which it may be that it cannot be read. -/
def decides? (key : Key) (t : SettingTable) : Option (Option String) :=
  match t.get? key.part with
  | none => none
  | some (.table members) =>
    (SettingTable.get? key.name members).map fun found => key.read? (some found)
  | some (.list items) => some (key.read? items[key.place]?)
  | some _ => some none

theorem map_flagText_eq_some_iff {read : Option Bool} {b : Bool} :
    read.map flagText = some (flagText b) ↔ read = some b := by
  cases read with
  | none => simp
  | some c => simp [flagText_inj]

/-- Merged layers give settings if each of them can be read. -/
theorem ofLayer?_eq_some_iff_reads? {t : SettingTable} {s : Settings} :
    Settings.ofLayer? t = some s ↔ ∀ key, t.reads? key = some (s.text key) := by
  have hflag : ∀ (key : Key) (default b : Bool), (∀ found, key.read? found =
      (orDefault default flag? found).map flagText) → (t.reads? key = some (flagText b) ↔
        ∃ found, member? key.place key.name (t.get? key.part) = some found ∧
          orDefault default flag? found = some b) := by
    intro key default b hread
    simp only [reads?, Option.bind_eq_bind, Option.bind_eq_some_iff, hread,
      map_flagText_eq_some_iff]
  have hauto := hflag .autoShutdownEnabled true s.autoShutdownEnabled fun _ => rfl
  have hhex := hflag .hex false s.hex fun _ => rfl
  have houtput : t.reads? .output = some s.output ↔
      ∃ found, member? 0 "output" (t.get? "defaults") = some found ∧
        orDefault "json" text? found = some s.output := by
    simp only [reads?, Option.bind_eq_bind, Option.bind_eq_some_iff]
    rfl
  have hall : (∀ key, t.reads? key = some (s.text key)) ↔
      t.reads? .autoShutdownEnabled = some (flagText s.autoShutdownEnabled) ∧
        t.reads? .output = some s.output ∧ t.reads? .hex = some (flagText s.hex) :=
    ⟨fun h => ⟨h .autoShutdownEnabled, h .output, h .hex⟩, fun h key => by
      cases key with
      | autoShutdownEnabled => exact h.1
      | output => exact h.2.1
      | hex => exact h.2.2⟩
  rw [hall, hauto, houtput, hhex]
  simp only [Settings.ofLayer?, Option.bind_eq_bind, Option.bind_eq_some_iff, Option.pure_def,
    Option.some.injEq]
  constructor
  · rintro ⟨found, hfound, a, ha, found', hfound', o, ho, found'', hfound'', x, hx, rfl⟩
    exact ⟨⟨found, hfound, ha⟩, ⟨found', hfound', ho⟩, ⟨found'', hfound'', hx⟩⟩
  · rintro ⟨⟨found, hfound, ha⟩, ⟨found', hfound', ho⟩, ⟨found'', hfound'', hx⟩⟩
    exact ⟨found, hfound, _, ha, found', hfound', _, ho, found'', hfound'', _, hx, rfl⟩

/-- What is found under a later value is read as that value. -/
theorem read?_mergeAt (key : Key) (earlier : Option Setting) (v : Setting) :
    key.read? (some (Setting.mergeAt earlier v)) = key.read? (some v) := by
  cases v with
  | table members =>
    rw [mergeAt_table]
    split
    · cases key <;> rfl
    · rfl
  | text | flag | number | list => rfl

theorem reads?_of_table {t : SettingTable} {key : Key} {members : SettingTable}
    (h : t.get? key.part = some (.table members)) :
    t.reads? key = key.read? (SettingTable.get? key.name members) := by
  rw [reads?, h]
  rfl

/-- What a later layer decides is what is read. -/
theorem reads?_of_decides? {base later : SettingTable} {key : Key} {decided : Option String}
    (hl : later.Tidy) (h : later.decides? key = some decided) :
    (base.merge later).reads? key = decided := by
  unfold decides? at h
  cases hpart : later.get? key.part with
  | none =>
    rw [hpart] at h
    cases h
  | some v =>
    have hmerged : (base.merge later).get? key.part =
        some (Setting.mergeAt (base.get? key.part) v) := get?_merge_of_some hl.names hpart
    rw [hpart] at h
    cases v with
    | table members =>
      obtain ⟨found, hfound, hdecided⟩ := Option.map_eq_some_iff.1 h
      rw [mergeAt_table] at hmerged
      split at hmerged
      · rename_i below hbelow
        have hnames := hl.of_get? hpart members rfl
        rw [reads?_of_table hmerged, get?_merge_of_some hnames hfound, read?_mergeAt]
        exact hdecided
      · rw [reads?_of_table hmerged, hfound]
        exact hdecided
    | list items =>
      cases h
      have hlist : Setting.mergeAt (base.get? key.part) (.list items) = .list items := rfl
      rw [reads?, hmerged, hlist]
      rfl
    | text | flag | number =>
      cases h
      rw [reads?, hmerged]
      rfl

theorem decides?_eq_none_of_at? {t : SettingTable} {key : Key} (ht : t.Tabular)
    (h : t.at? key = none) : t.decides? key = none := by
  unfold decides?
  cases hpart : t.get? key.part with
  | none => rfl
  | some v =>
    obtain ⟨members, rfl⟩ := ht key v (mem_of_get? hpart)
    rw [at?_of_table hpart] at h
    exact Option.map_eq_none_iff.2 h

/-- What it does not decide is left as the tables before it say. -/
theorem reads?_of_undecided {base later below : SettingTable} {key : Key}
    (hb : base.get? key.part = some (.table below)) (hl : later.Tidy)
    (h : later.decides? key = none) : (base.merge later).reads? key = base.reads? key := by
  unfold decides? at h
  cases hpart : later.get? key.part with
  | none =>
    have hmerged : (base.merge later).get? key.part = some (.table below) :=
      (get?_merge_of_none hpart).trans hb
    rw [reads?_of_table hmerged, reads?_of_table hb]
  | some v =>
    rw [hpart] at h
    cases v with
    | table members =>
      have hnone := Option.map_eq_none_iff.1 h
      have hmerged : (base.merge later).get? key.part =
          some (Setting.mergeAt (base.get? key.part) (.table members)) :=
        get?_merge_of_some hl.names hpart
      rw [hb, mergeAt_table] at hmerged
      rw [reads?_of_table hmerged, reads?_of_table hb, get?_merge_of_none hnone]
    | list | text | flag | number => cases h

end SettingTable

namespace Settings

/-! ## Saved settings -/

theorem load_eq_ok_iff_reads? {content : Option Bytes} {e : Environment} {s : Settings} :
    load content e = .ok s ↔ ∃ t, fileLayer? content = some t ∧
      (∀ key, (layers t e).reads? key = some (s.text key)) ∧
        (OutputFormat.ofName? s.output).isSome = true := by
  simp only [load_eq_ok_iff, SettingTable.ofLayer?_eq_some_iff_reads?]

/-- A setting that no variable supplies is the one that the file gives. -/
theorem text_eq_of_unsupplied {content : Option Bytes} {t : SettingTable} {e e₀ : Environment}
    {s s₀ : Settings} {key : Key} (hc : fileLayer? content = some t) (ht : t.Tabular)
    (he : e.layer.Tabular) (hk : e.layer.at? key = none) (hs : load content e = .ok s)
    (he₀ : e₀.Clear) (hs₀ : load content e₀ = .ok s₀) : s.text key = s₀.text key := by
  obtain ⟨_, hc', hs, -⟩ := load_eq_ok_iff_reads?.1 hs
  obtain ⟨_, hc₀, hs₀, -⟩ := load_eq_ok_iff_reads?.1 hs₀
  cases hc.symm.trans hc'
  cases hc.symm.trans hc₀
  obtain ⟨below, hbelow⟩ := exists_table_defaults ht key
  have hreads : (layers t e).reads? key = ((layer {}).merge t).reads? key :=
    SettingTable.reads?_of_undecided hbelow e.tidy_layer
      (SettingTable.decides?_eq_none_of_at? he hk)
  have hs₀ := hs₀ key
  rw [layers_of_clear he₀, ← hreads, hs key] at hs₀
  exact Option.some.inj hs₀

/-- What the environment decides can be read, and is what is loaded. -/
theorem decides?_of_load {content : Option Bytes} {e : Environment} {s : Settings} {key : Key}
    {decided : Option String} (hs : load content e = .ok s)
    (h : e.layer.decides? key = some decided) : decided = some (s.text key) := by
  obtain ⟨t, -, hreads, -⟩ := load_eq_ok_iff_reads?.1 hs
  rw [← hreads key]
  exact (SettingTable.reads?_of_decides? e.tidy_layer h).symm

/-- Settings, but for what an environment decides, which is as in others. -/
def under (e : Environment) (found s : Settings) : Settings where
  autoShutdownEnabled :=
    if (e.layer.decides? .autoShutdownEnabled).isSome then found.autoShutdownEnabled
    else s.autoShutdownEnabled
  output := if (e.layer.decides? .output).isSome then found.output else s.output
  hex := if (e.layer.decides? .hex).isSome then found.hex else s.hex

theorem text_under (e : Environment) (found s : Settings) (key : Key) :
    (under e found s).text key =
      if (e.layer.decides? key).isSome then found.text key else s.text key := by
  cases key with
  | output => rfl
  | autoShutdownEnabled | hex => exact apply_ite flagText _ _ _

/-- Where settings can be loaded, valid settings that are saved are loaded again
but for what the environment decides. -/
theorem load_document_of_load {content : Option Bytes} {e : Environment} {found s : Settings}
    (hfound : load content e = .ok found) (hvalid : s.validate = .ok s) :
    load (some s.document) e = .ok (under e found s) := by
  obtain ⟨-, -, -, hname⟩ := load_eq_ok_iff_reads?.1 hfound
  refine load_eq_ok_iff_reads?.2 ⟨s.layer, read?_document s, fun key => ?_, ?_⟩
  · rw [text_under]
    cases hdecides : e.layer.decides? key with
    | none =>
      have htable : ∃ below, ((layer {}).merge s.layer).get? key.part = some (.table below) := by
        cases key <;> exact ⟨_, rfl⟩
      obtain ⟨below, hbelow⟩ := htable
      rw [layers, SettingTable.reads?_of_undecided hbelow e.tidy_layer hdecides]
      cases key <;> rfl
    | some decided =>
      have hdecided := decides?_of_load hfound hdecides
      exact (SettingTable.reads?_of_decides? e.tidy_layer hdecides).trans hdecided
  · show (OutputFormat.ofName? (if _ then found.output else s.output)).isSome = true
    split
    · exact hname
    · exact (validate_eq_ok_iff.1 hvalid).2

end Settings

end HotspotBackup
