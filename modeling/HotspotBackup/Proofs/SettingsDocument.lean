import HotspotBackup.Proofs.QuotedTokens
import HotspotBackup.Proofs.SettingLayers
import HotspotBackup.Proofs.Utf8

/-!
# Saved settings are read back

The document of settings describes the layer of these settings, whatever text
one of them is.

* `Toml.ReadsAs`: lines that are read as statements, from the beginning of one
  line to the beginning of another. `ReadsAs.append` puts lines together.
* `Toml.readsAs_line`: the line of a key, for characters that spell a value.
* `Settings.read?_document`: the layer that the document of settings describes.
* `Settings.load_document`: loading it gives the settings back, if they are valid.
-/

namespace HotspotBackup.Toml

/-! ## Lines -/

/-- Reading at the beginning of a line, after some statements, last first. -/
def atLine (earlier : List Statement) : Reading :=
  { statements := earlier }

/-- Lines that are read as some statements. -/
def ReadsAs (cs : List Char) (statements : List Statement) : Prop :=
  ∃ ts, Mode.between.run cs = some (ts, .between) ∧
    ∀ earlier, ts.foldlM Reading.step (atLine earlier) =
      some (atLine (statements.reverse ++ earlier))

theorem ReadsAs.append {cs ds : List Char} {statements further : List Statement}
    (h : ReadsAs cs statements) (h' : ReadsAs ds further) :
    ReadsAs (cs ++ ds) (statements ++ further) := by
  obtain ⟨ts, hcs, hts⟩ := h
  obtain ⟨us, hds, hus⟩ := h'
  refine ⟨ts ++ us, Mode.run_append hcs hds, fun earlier => ?_⟩
  rw [List.foldlM_append, hts, List.reverse_append, List.append_assoc]
  exact hus _

/-- A document is its statements, carried out one after another. -/
theorem parse?_of_readsAs {c : Char} {cs : List Char} {statements : List Statement}
    (hc : c ≠ '\uFEFF') (ha : (c :: cs).all isAllowed = true)
    (h : ReadsAs (c :: cs) statements) :
    parse? (c :: cs) = (build? [] [] statements).map Members.settings := by
  obtain ⟨ts, hrun, hts⟩ := h
  have hread : Statement.ofTokens? ts = some statements := by
    have hclose : (atLine (statements.reverse ++ [])).close? = some statements := by
      rw [List.append_nil]
      exact congrArg some (List.reverse_reverse statements)
    rw [Statement.ofTokens?]
    exact (congrArg (· >>= Reading.close?) (hts [])).trans hclose
  rw [parse?, scan_of_run hc ha hrun]
  simp only [Option.bind_eq_bind, Option.bind_some, hread]
  cases build? [] [] statements <;> rfl

/-! ## Keys with their values -/

theorem isBareChar_of_isKeyChar {c : Char} (h : isKeyChar c = true) : isBareChar c = true := by
  simp [isBareChar, h]

theorem Mode.run_bare {cs : List Char} (h : cs.all isKeyChar = true) (read : List Char) :
    (Mode.bare read).run cs = some ([], .bare (cs.reverse ++ read)) := by
  induction cs generalizing read with
  | nil => rfl
  | cons c cs ih =>
    rw [List.all_cons, Bool.and_eq_true] at h
    have hstep : (Mode.bare read).step c = some ([], .bare (c :: read)) := by
      simp [Mode.step, isBareChar_of_isKeyChar h.1]
    have hrest := ih h.2 (c :: read)
    rw [List.reverse_cons, List.append_assoc]
    exact Mode.run_cons hstep hrest

/-- A key with the sign after it. -/
theorem run_key {key : String} (hne : key ≠ "") (h : key.toList.all isKeyChar = true) :
    Mode.between.run (key.toList ++ [' ', '=', ' ']) =
      some ([.bare key.toList, .blank [' '], .equals], .blank [' ']) := by
  cases hk : key.toList with
  | nil => exact absurd (String.toList_eq_nil_iff.1 hk) hne
  | cons c cs =>
    rw [hk, List.all_cons, Bool.and_eq_true] at h
    obtain ⟨hc, hcs⟩ := h
    have hspace : c ≠ ' ' := ne_of_isKeyChar hc rfl
    have htab : c ≠ '\t' := ne_of_isKeyChar hc rfl
    have hhash : c ≠ '#' := ne_of_isKeyChar hc rfl
    have hdouble : c ≠ '"' := ne_of_isKeyChar hc rfl
    have hsingle : c ≠ '\'' := ne_of_isKeyChar hc rfl
    have hopen : Mode.between.step c = some ([], .bare [c]) := by
      simp [Mode.step, openToken?, isBlank, hspace, htab, hhash, hdouble, hsingle,
        isBareChar_of_isKeyChar hc]
    have hrest : (Mode.bare [c]).run cs = some ([], .bare (cs.reverse ++ [c])) :=
      Mode.run_bare hcs [c]
    have hend : (Mode.bare (cs.reverse ++ [c])).run [' ', '=', ' '] =
        some ([.bare (c :: cs), .blank [' '], .equals], .blank [' ']) := by
      have hword : (cs.reverse ++ [c]).reverse = c :: cs := by simp
      rw [← hword]
      rfl
    exact Mode.run_cons hopen (Mode.run_append hrest hend)

theorem foldlM_step_key {key : String} (h : key.toList.all isKeyChar = true)
    (earlier : List Statement) :
    [Token.bare key.toList, .blank [' '], .equals].foldlM Reading.step (atLine earlier) =
      some ⟨.value, [.line [key]], earlier⟩ := by
  have hpart : Reading.keyPart? (.bare key.toList) = some key := by
    rw [Reading.keyPart?, if_pos h, String.ofList_toList]
  have hkey : (atLine earlier).step (.bare key.toList) =
      some ⟨.afterPart .assignment [key], [], earlier⟩ := by
    simp [Reading.step, atLine, Reading.stepLine, Reading.stepPart, hpart, Reading.expect]
  rw [List.foldlM_cons, hkey]
  rfl

/-- Characters that are read as a value, after a blank and up to the end of
their line. -/
def Spells (value : List Char) (v : Setting) : Prop :=
  ∃ ts, (Mode.blank [' ']).run (value ++ ['\n']) = some (ts, .between) ∧
    ∀ path earlier, ts.foldlM Reading.step ⟨.value, [.line path], earlier⟩ =
      some (atLine (.assign path v :: earlier))

theorem spells_word (b : Bool) : Spells (Scalar.word b) (.flag b) := by
  cases b <;> exact ⟨_, rfl, fun _ _ => rfl⟩

theorem spells_write (s : String) : Spells (Quotation.write s) (.text s) := by
  obtain ⟨q, raw, hspelt, hrun⟩ := Quotation.run_write s [' ']
  refine ⟨_, hrun, fun path earlier => ?_⟩
  have hblank : Reading.step ⟨.value, [.line path], earlier⟩ (.blank [' '].reverse) =
      some ⟨.value, [.line path], earlier⟩ := rfl
  have htext : Reading.step ⟨.value, [.line path], earlier⟩ (.text q raw) =
      some ⟨.separator (.text s), [.line path], earlier⟩ := by
    simp [Reading.step, Reading.stepValue, hspelt, Reading.expect]
  rw [List.foldlM_cons, hblank, Option.bind_eq_bind, Option.bind_some, List.foldlM_cons, htext]
  rfl

/-- The line of a key, for a value that is spelt out. -/
theorem readsAs_line {key : String} (hne : key ≠ "") (hkey : key.toList.all isKeyChar = true)
    {value : List Char} {v : Setting} (h : Spells value v) :
    ReadsAs (Settings.line key value) [.assign [key] v] := by
  obtain ⟨ts, hrun, hts⟩ := h
  have hline : Settings.line key value = key.toList ++ [' ', '=', ' '] ++ (value ++ ['\n']) := by
    rw [Settings.line, List.append_assoc]
    rfl
  refine ⟨_, hline ▸ Mode.run_append (run_key hne hkey) hrun, fun earlier => ?_⟩
  rw [List.foldlM_append, foldlM_step_key hkey]
  exact hts _ _

end HotspotBackup.Toml

namespace HotspotBackup.Settings

open Toml (ReadsAs parse?_of_readsAs readsAs_line spells_word spells_write isAllowed
  all_isAllowed_append)

/-- The text of the document of settings. -/
def documentText (s : Settings) : List Char :=
  "[device]\n".toList ++ line "auto_shutdown_enabled" (Scalar.word s.autoShutdownEnabled) ++
    "\n[defaults]\n".toList ++ line "output" (Toml.Quotation.write s.output) ++
      line "hex" (Scalar.word s.hex)

theorem document_eq (s : Settings) : s.document = Utf8.encode (String.ofList s.documentText) :=
  rfl

/-- The statements of the document of settings. -/
def statements (s : Settings) : List Toml.Statement :=
  [.openTable ["device"], .assign ["auto_shutdown_enabled"] (.flag s.autoShutdownEnabled),
    .openTable ["defaults"], .assign ["output"] (.text s.output), .assign ["hex"] (.flag s.hex)]

theorem readsAs_documentText (s : Settings) : ReadsAs s.documentText s.statements := by
  have hdevice : ReadsAs "[device]\n".toList [.openTable ["device"]] := ⟨_, rfl, fun _ => rfl⟩
  have hdefaults : ReadsAs "\n[defaults]\n".toList [.openTable ["defaults"]] :=
    ⟨_, rfl, fun _ => rfl⟩
  have hauto : ReadsAs (line "auto_shutdown_enabled" (Scalar.word s.autoShutdownEnabled))
      [.assign ["auto_shutdown_enabled"] (.flag s.autoShutdownEnabled)] :=
    readsAs_line (by decide) rfl (spells_word _)
  have houtput : ReadsAs (line "output" (Toml.Quotation.write s.output))
      [.assign ["output"] (.text s.output)] :=
    readsAs_line (by decide) rfl (spells_write _)
  have hhex : ReadsAs (line "hex" (Scalar.word s.hex)) [.assign ["hex"] (.flag s.hex)] :=
    readsAs_line (by decide) rfl (spells_word _)
  exact (((hdevice.append hauto).append hdefaults).append houtput).append hhex

theorem build?_statements (s : Settings) :
    (Toml.build? [] [] s.statements).map Toml.Members.settings = some s.layer :=
  rfl

theorem all_isAllowed_line {key : String} {value : List Char}
    (hkey : key.toList.all isAllowed = true) (hvalue : value.all isAllowed = true) :
    (line key value).all isAllowed = true := by
  have hsign : " = ".toList.all isAllowed = true := rfl
  have hbreak : ['\n'].all isAllowed = true := rfl
  exact all_isAllowed_append (all_isAllowed_append (all_isAllowed_append hkey hsign) hvalue) hbreak

theorem all_isAllowed_documentText (s : Settings) : s.documentText.all isAllowed = true := by
  have hword : ∀ b, (Scalar.word b).all isAllowed = true := by decide
  have hauto : (line "auto_shutdown_enabled" (Scalar.word s.autoShutdownEnabled)).all isAllowed =
      true := all_isAllowed_line rfl (hword _)
  have houtput : (line "output" (Toml.Quotation.write s.output)).all isAllowed = true :=
    all_isAllowed_line rfl (Toml.all_isAllowed_write _)
  have hhex : (line "hex" (Scalar.word s.hex)).all isAllowed = true :=
    all_isAllowed_line rfl (hword _)
  have hdevice : "[device]\n".toList.all isAllowed = true := rfl
  have hdefaults : "\n[defaults]\n".toList.all isAllowed = true := rfl
  exact all_isAllowed_append (all_isAllowed_append
    (all_isAllowed_append (all_isAllowed_append hdevice hauto) hdefaults) houtput) hhex

/-- The document of settings describes their layer. -/
theorem read?_document (s : Settings) : Toml.read? s.document = some s.layer := by
  have hparse : Toml.parse? s.documentText = some s.layer :=
    (parse?_of_readsAs (by decide) (all_isAllowed_documentText s) (readsAs_documentText s)).trans
      (build?_statements s)
  rw [Toml.read?, document_eq, Utf8.decode?_encode, Option.bind_eq_bind, Option.bind_some,
    String.toList_ofList, hparse]

/-- Saved settings are loaded again, if they are valid, whatever other
variables there are. -/
theorem load_document {e : Environment} (he : e.Clear) (s : Settings) :
    load (some s.document) e = s.validate := by
  have hlayer : ofLayer? (layers s.layer e) = some s := by
    rw [layers_of_clear he]
    rfl
  rw [load, fileLayer?, read?_document, Option.bind_eq_bind, Option.bind_some, hlayer]

end HotspotBackup.Settings
