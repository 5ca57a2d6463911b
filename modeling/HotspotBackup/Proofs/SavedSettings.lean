import HotspotBackup.Proofs.EffectiveSettings
import HotspotBackup.Proofs.FileSearch

/-!
# Settings are saved whatever they are

Settings are written without a look at what they say. Whatever text stands for
their output, the file describes exactly them: loaded without any variables they
are the same settings, or they are refused for that text, but never for the file.

* `Files.describes_of_find?`: what is found for a path is described there.
* `Settings.savedAt_of_save`: what is loaded once settings were saved.
* `Settings.load_of_saved`: a file that can be written can be saved, and then
  this is what is loaded.
-/

namespace HotspotBackup

theorem Files.describes_of_find? {f : Files} {path : String} {content : Bytes} {t : SettingTable}
    (hfind : f.find? path = some content) (ht : Toml.read? content = some t) :
    f.Describes path t := by
  obtain ⟨l, hl⟩ := find?_eq_some_iff.1 hfind
  exact .document hl ht

namespace Settings

theorem message_unknownOutput (name words : String) :
    (SettingsFault.unknownOutput name).message words =
      "invalid defaults.output: expected 'json', 'json-compact' or 'yaml', got '" ++ name ++ "'" :=
  rfl

/-- What stands at the path of settings that were saved, and what is loaded from it
where no variable holds a setting. -/
structure SavedAt (s : Settings) (g : Files) (path : String) : Prop where
  written : g.read? path = some s.document
  described : g.Describes path s.layer
  valid : s.output ∈ Key.output.values → ∀ e : Environment, e.Clear →
    load (g.find? path) e = .ok s
  unknown : s.output ∉ Key.output.values → ∀ e : Environment, e.Clear → ∃ fault,
    load (g.find? path) e = .error fault ∧ fault = .unknownOutput s.output ∧
      ∀ words, fault.message words =
        "invalid defaults.output: expected 'json', 'json-compact' or 'yaml', got '" ++ s.output ++
          "'"

/-- Only the document of the settings is left of what was at the path, and a search
for the path ends there. -/
theorem savedAt_of_save {s : Settings} {f g : Files} {path : String}
    (h : f.applyAll [.parents path, .write path s.document] = (true, g)) : s.SavedAt g path := by
  have hsaved : f.applyAll ([.parents path] ++ [.write path s.document]) = (true, g) := h
  have hread : g.read? path = some s.document := Files.read?_of_applyAll_write hsaved
  have hfind : g.find? path = some s.document := Files.find?_of_applyAll_write hsaved
  have hload : ∀ e : Environment, e.Clear → load (g.find? path) e = s.validate := by
    intro e he
    rw [hfind, load_document he]
  refine ⟨hread, Files.describes_of_find? hfind (read?_document s), fun hknown e he => ?_,
    fun hunknown e he => ⟨_, ?_, rfl, message_unknownOutput _⟩⟩
  · rw [hload e he, validate_eq_ok_iff, isSome_ofName?_iff]
    exact ⟨rfl, hknown⟩
  · rw [hload e he, validate_eq_error_iff]
    exact ⟨rfl, hunknown⟩

/-- Any settings can be saved where a file can be written. Where they were saved,
with directories made on the way or without, they are loaded again if they are
valid, and otherwise are refused with the text that is no format. -/
theorem load_of_saved (s : Settings) (f : Files) (path : String) :
    (f.Writable path → ∃ g, f.applyAll [.parents path, .write path s.document] = (true, g)) ∧
      ∀ g, f.applyAll [.parents path, .write path s.document] = (true, g) → s.SavedAt g path :=
  ⟨fun h => h.exists_applyAll s.document, fun _ => savedAt_of_save⟩

/-- Settings whose output needs every kind of quotation mark and more. -/
def motley : Settings where
  output := "a'''b\"\"\"c\\\r\n\x07\tü"
  hex := true

/-- Files with a file that is torn. -/
def tornSettings : Files where
  start := []
  entry l :=
    if l = [] then some (.directory true)
    else if l = ["config.toml"] then some (.file (Utf8.encode "[defaults"))
    else none

theorem load_of_saved_motley :
    tornSettings.Writable "config.toml" ∧
      (∃ g, tornSettings.applyAll [.parents "config.toml", .write "config.toml" motley.document] =
          (true, g) ∧ load (g.find? "config.toml") [] = .error (.unknownOutput motley.output)) ∧
      ∃ g, tornSettings.applyAll [.parents "etc/softap/config.toml",
          .write "etc/softap/config.toml" ({ hex := true } : Settings).document] = (true, g) ∧
        load (g.find? "etc/softap/config.toml") [] = .ok { hex := true } := by
  have hclear : Environment.Clear [] := nofun
  have hwritable : tornSettings.Writable "config.toml" := by
    have hlocate : tornSettings.locate? "config.toml" = some ["config.toml"] := by decide +kernel
    exact Files.writable_of_entry hlocate (.inl ⟨_, rfl⟩)
  obtain ⟨hmotley, hmotleySaved⟩ := load_of_saved motley tornSettings "config.toml"
  obtain ⟨g, hg⟩ := hmotley hwritable
  obtain ⟨fault, hfault, rfl, -⟩ := (hmotleySaved g hg).unknown (by decide) [] hclear
  have hmade : (tornSettings.applyAll [.parents "etc/softap/config.toml",
      .write "etc/softap/config.toml" ({ hex := true } : Settings).document]).1 = true := by
    decide +kernel
  obtain ⟨-, hdeep⟩ := load_of_saved { hex := true } tornSettings "etc/softap/config.toml"
  exact ⟨hwritable, ⟨g, hg, hfault⟩, _, Prod.ext hmade rfl,
    (hdeep _ (Prod.ext hmade rfl)).valid (by decide) [] hclear⟩

end Settings

end HotspotBackup
