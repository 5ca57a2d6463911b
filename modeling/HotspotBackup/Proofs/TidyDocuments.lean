import HotspotBackup.Proofs.Overrides

/-!
# A document has distinct names

Whatever a document says, the table that it describes has distinct names, and so
has each part of it: tables are built by putting one member after another, and
values are read with what is open around them kept distinct.

* `Members.KeepsDistinct`: a change of a table under construction after which
  names are distinct again. `keepsDistinct_within`: so is the change of a table
  inside.
* `Reading.Tidy`: what reading keeps. `tidy_step`: one token keeps it.
* `tidy_build?`: the members of a document after its statements.
* `tidy_read?`: the table that a document describes.
-/

namespace HotspotBackup.Toml

/-! ## Values -/

theorem tidy_text (s : String) : (Setting.text s).Tidy :=
  nofun

theorem tidy_list (items : List Setting) : (Setting.list items).Tidy :=
  nofun

theorem tidy_emptyTable : (Setting.table []).Tidy := by
  rintro _ ⟨⟩
  exact List.nodup_nil

theorem tidy_atom? {cs : List Char} {v : Setting} (h : atom? cs = some v) : v.Tidy := by
  unfold atom? at h
  split at h
  · cases h
    exact nofun
  split at h
  · cases h
    exact nofun
  split at h
  · cases h
    exact nofun
  split at h
  · cases h
    exact tidy_emptyTable
  · cases h

/-! ## Tables under construction -/

namespace Members

/-- Members of distinct names, whose values have distinct names. -/
structure Tidy (m : Members) : Prop where
  names : (m.map (·.1)).Nodup
  nodes : ∀ entry ∈ m, entry.2.setting.Tidy

variable {m m' inner : Members} {key : String} {node : Node}

theorem settings_eq_map (m : Members) :
    m.settings = m.map fun entry => (entry.1, entry.2.setting) := by
  induction m with
  | nil => rfl
  | cons entry m ih => rw [settings, ih, List.map_cons]

theorem names_settings (m : Members) : m.settings.map (·.1) = m.map (·.1) := by
  rw [settings_eq_map, List.map_map]
  rfl

theorem Tidy.settings (h : m.Tidy) : m.settings.Tidy := by
  refine ⟨by rw [names_settings]; exact h.names, fun entry he => ?_⟩
  rw [settings_eq_map] at he
  obtain ⟨member, hm, rfl⟩ := List.mem_map.1 he
  exact h.nodes member hm

theorem tidy_table_settings_iff : (Setting.table m.settings).Tidy ↔ (m.map (·.1)).Nodup := by
  rw [Setting.Tidy, ← names_settings]
  refine ⟨fun h => h _ rfl, fun h members hm => ?_⟩
  cases hm
  exact h

/-- A table inside has distinct names if its value has. -/
theorem tidy_setting_table_iff {origin : Origin} :
    (Node.table origin inner).setting.Tidy ↔ (inner.map (·.1)).Nodup := by
  rw [Node.setting, tidy_table_settings_iff]

theorem tidy_setting_tables (earlier : List Setting) (last : Members) :
    (Node.tables earlier last).setting.Tidy := by
  rw [Node.setting]
  exact tidy_list _

theorem nodup_names_put (h : (m.map (·.1)).Nodup) (key : String) (node : Node) :
    ((m.put key node).map (·.1)).Nodup := by
  rw [put, List.map_append, List.nodup_append]
  refine ⟨h.sublist (List.filter_sublist.map _), by simp, by simp⟩

theorem Tidy.put (h : m.Tidy) (key : String) (hnode : node.setting.Tidy) :
    (m.put key node).Tidy := by
  refine ⟨nodup_names_put h.names key node, fun entry he => ?_⟩
  rcases List.mem_append.1 he with he | he
  · exact h.nodes entry (List.mem_filter.1 he).1
  · cases List.mem_singleton.1 he
    exact hnode

theorem tidy_of_get? (h : m.Tidy) (hnode : m.get? key = some node) : node.setting.Tidy := by
  obtain ⟨entry, hfound, rfl⟩ := Option.map_eq_some_iff.1 hnode
  exact h.nodes entry (List.mem_of_find?_eq_some hfound)

/-! ## Changes -/

/-- A change after which names are distinct again, at the first level and below it. -/
structure KeepsDistinct (change : Change) : Prop where
  names : ∀ {origin m m'}, change origin m = some m' → (m.map (·.1)).Nodup → (m'.map (·.1)).Nodup
  tidy : ∀ {origin m m'}, change origin m = some m' → Tidy m → Tidy m'

/-- A change that puts one member. -/
theorem keepsDistinct_of_put {change : Change} (h : ∀ origin m m', change origin m = some m' →
    ∃ key node, m' = put key node m ∧ (Tidy m → node.setting.Tidy)) : KeepsDistinct change where
  names {origin m m'} hm hnames := by
    obtain ⟨key, node, rfl, -⟩ := h origin m m' hm
    exact nodup_names_put hnames key node
  tidy {origin m m'} hm hTidy := by
    obtain ⟨key, node, rfl, hnode⟩ := h origin m m' hm
    exact hTidy.put key (hnode hTidy)

theorem keepsDistinct_assignKey (viaDots : Bool) (key : String) {v : Setting} (hv : v.Tidy) :
    KeepsDistinct (assignKey viaDots key v) := by
  refine keepsDistinct_of_put fun origin m m' h => ?_
  unfold assignKey at h
  split at h
  · cases h
  · cases h
    exact ⟨key, _, rfl, fun _ => by rwa [Node.setting]⟩

theorem keepsDistinct_openKey (key : String) : KeepsDistinct (openKey key) := by
  refine keepsDistinct_of_put fun origin m m' h => ?_
  unfold openKey at h
  split at h
  · cases h
    exact ⟨key, _, rfl, fun _ => tidy_setting_table_iff.2 .nil⟩
  · rename_i inner hinner
    cases h
    exact ⟨key, _, rfl, fun hm =>
      tidy_setting_table_iff.2 (tidy_setting_table_iff.1 (tidy_of_get? hm hinner))⟩
  · cases h

theorem keepsDistinct_appendKey (key : String) : KeepsDistinct (appendKey key) := by
  refine keepsDistinct_of_put fun origin m m' h => ?_
  unfold appendKey at h
  split at h
  · cases h
    exact ⟨key, _, rfl, fun _ => tidy_setting_tables _ _⟩
  · cases h
    exact ⟨key, _, rfl, fun _ => tidy_setting_tables _ _⟩
  · cases h

/-- By induction on the path: a table inside is put back where it was, and only
its names matter to the table around it. -/
theorem keepsDistinct_within (dotted : Bool) {change : Change} (h : KeepsDistinct change)
    (path : List String) : KeepsDistinct (within dotted change path) := by
  induction path with
  | nil => exact h
  | cons key path ih =>
    refine keepsDistinct_of_put fun origin m m' hm => ?_
    rw [within] at hm
    split at hm
    · obtain ⟨inner, hinner, hm⟩ := Option.bind_eq_some_iff.1 hm
      cases hm
      exact ⟨key, _, rfl, fun _ => tidy_setting_table_iff.2 (ih.names hinner .nil)⟩
    · rename_i hget
      split at hm
      · cases hm
      obtain ⟨inner, hinner, hm⟩ := Option.bind_eq_some_iff.1 hm
      cases hm
      exact ⟨key, _, rfl, fun htidy => tidy_setting_table_iff.2
        (ih.names hinner (tidy_setting_table_iff.1 (tidy_of_get? htidy hget)))⟩
    · obtain ⟨last, -, hm⟩ := Option.bind_eq_some_iff.1 hm
      cases hm
      exact ⟨key, _, rfl, fun _ => tidy_setting_tables _ _⟩
    · cases hm

theorem keepsDistinct_assign (path : List String) {v : Setting} (hv : v.Tidy) :
    KeepsDistinct (assign path v) := by
  unfold assign
  cases path.reverse with
  | nil => exact ⟨nofun, nofun⟩
  | cons key before => exact keepsDistinct_within true (keepsDistinct_assignKey _ key hv) _

theorem keepsDistinct_atHeader {change : String → Change} (h : ∀ key, KeepsDistinct (change key))
    (path : List String) : KeepsDistinct (atHeader change path) := by
  unfold atHeader
  cases path.reverse with
  | nil => exact ⟨nofun, nofun⟩
  | cons key before => exact keepsDistinct_within false (h key) _

end Members

/-! ## Statements -/

/-- A statement whose value has distinct names. -/
def Statement.Tidy : Statement → Prop
  | assign _ v => v.Tidy
  | openTable _ | appendTable _ => True

/-- By induction on the statements, each of which is a change. -/
theorem tidy_build? {statements : List Statement} (hs : ∀ s ∈ statements, s.Tidy)
    {current : List String} {m m' : Members} (h : build? current m statements = some m')
    (hm : m.Tidy) : m'.Tidy := by
  induction statements generalizing current m with
  | nil =>
    cases h
    exact hm
  | cons statement statements ih =>
    have hrest : ∀ s ∈ statements, s.Tidy := fun s hs' => hs s (List.mem_cons_of_mem _ hs')
    cases statement with
    | assign path v =>
      obtain ⟨next, hnext, h⟩ := Option.bind_eq_some_iff.1 h
      have hkeeps := Members.keepsDistinct_within false
        (Members.keepsDistinct_assign path (hs _ List.mem_cons_self)) current
      exact ih hrest h (hkeeps.tidy hnext hm)
    | openTable path =>
      obtain ⟨next, hnext, h⟩ := Option.bind_eq_some_iff.1 h
      have hkeeps := Members.keepsDistinct_atHeader Members.keepsDistinct_openKey path
      exact ih hrest h (hkeeps.tidy hnext hm)
    | appendTable path =>
      obtain ⟨next, hnext, h⟩ := Option.bind_eq_some_iff.1 h
      have hkeeps := Members.keepsDistinct_atHeader Members.keepsDistinct_appendKey path
      exact ih hrest h (hkeeps.tidy hnext hm)

/-! ## Reading -/

/-- An open frame whose members have distinct names. -/
def Frame.Tidy : Frame → Prop
  | braces members _ => (members.map (·.1)).Nodup
  | line _ | array _ => True

/-- What may come next, after a value that has distinct names. -/
def Expected.Tidy : Expected → Prop
  | separator v => v.Tidy
  | line | lineEnd | header | part _ _ | afterPart _ _ | tablesEnd _ | value | item | member
  | atom _ | time _ => True

namespace Reading

/-- Reading in progress in which all names are distinct so far. -/
structure Tidy (r : Reading) : Prop where
  expected : r.expected.Tidy
  stack : ∀ frame ∈ r.stack, frame.Tidy
  statements : ∀ s ∈ r.statements, s.Tidy

variable {r r' : Reading} {t : Token}

theorem Tidy.expect (h : r.Tidy) {e : Expected} (he : e.Tidy) : (r.expect e).Tidy :=
  ⟨he, h.stack, h.statements⟩

theorem Tidy.finish (h : r.Tidy) (s : Statement) (hs : s.Tidy) {e : Expected} (he : e.Tidy) :
    (r.finish s e).Tidy := by
  refine ⟨he, nofun, fun s' hs' => ?_⟩
  rcases List.mem_cons.1 hs' with rfl | hs'
  · exact hs
  · exact h.statements s' hs'

theorem Tidy.innermost (h : r.Tidy) {frame : Frame} {stack : List Frame}
    (hstack : r.stack = frame :: stack) : frame.Tidy :=
  h.stack frame (hstack ▸ List.mem_cons_self)

/-- The innermost frame is closed. -/
theorem Tidy.close (h : r.Tidy) {frame : Frame} {stack : List Frame}
    (hstack : r.stack = frame :: stack) (e : Expected) (he : e.Tidy) :
    Tidy { r with expected := e, stack } :=
  ⟨he, fun f hf => h.stack f (hstack ▸ List.mem_cons_of_mem _ hf), h.statements⟩

/-- A frame is opened. -/
theorem Tidy.open (h : r.Tidy) (frame : Frame) (hframe : frame.Tidy) {e : Expected}
    (he : e.Tidy) : Tidy { r with expected := e, stack := frame :: r.stack } := by
  refine ⟨he, fun f hf => ?_, h.statements⟩
  rcases List.mem_cons.1 hf with rfl | hf
  · exact hframe
  · exact h.stack f hf

theorem tidy_stepPart (h : r.Tidy) {use : KeyUse} {path : List String}
    (hstep : r.stepPart use path t = some r') : r'.Tidy := by
  unfold stepPart at hstep
  split at hstep
  · cases hstep
    exact h.expect trivial
  · obtain ⟨part, -, rfl⟩ := Option.map_eq_some_iff.1 hstep
    exact h.expect trivial

theorem tidy_stepAfterPart (h : r.Tidy) {use : KeyUse} {path : List String}
    (hstep : r.stepAfterPart use path t = some r') : r'.Tidy := by
  unfold stepAfterPart at hstep
  split at hstep
  · cases hstep
    exact h
  · split at hstep
    · cases hstep
      exact h.expect trivial
    · cases hstep
  · cases hstep
    refine ⟨trivial, fun frame hframe => ?_, h.statements⟩
    cases List.mem_singleton.1 hframe
    trivial
  · rename_i members _ stack hstack
    cases hstep
    have hnames : (members.map (·.1)).Nodup := h.innermost hstack
    exact (h.close hstack .value trivial).open (.braces members path) hnames trivial
  · cases hstep
    exact h.finish (.openTable path) trivial trivial
  · cases hstep
    exact h.expect trivial
  · cases hstep

theorem tidy_push (h : r.Tidy) (frame : Frame) (hframe : frame.Tidy) (e : Expected) (he : e.Tidy)
    (hpush : r.push frame e = some r') : r'.Tidy := by
  unfold push at hpush
  split at hpush
  · cases hpush
    exact h.open frame hframe he
  · cases hpush

theorem tidy_stepValue (h : r.Tidy) (hstep : r.stepValue t = some r') : r'.Tidy := by
  unfold stepValue at hstep
  split at hstep
  · cases hstep
    exact h
  · cases hstep
    exact h.expect trivial
  · obtain ⟨s, -, rfl⟩ := Option.map_eq_some_iff.1 hstep
    exact h.expect (tidy_text s)
  · exact tidy_push h (.array []) trivial .item trivial hstep
  · exact tidy_push h (.braces [] []) List.nodup_nil .member trivial hstep
  · cases hstep

theorem tidy_stepItem (h : r.Tidy) (hstep : r.stepItem t = some r') : r'.Tidy := by
  unfold stepItem at hstep
  split at hstep
  · cases hstep
    exact h
  · rename_i hstack
    cases hstep
    exact h.close hstack _ (tidy_list _)
  · exact tidy_stepValue h hstep

theorem tidy_stepMember (h : r.Tidy) (hstep : r.stepMember t = some r') : r'.Tidy := by
  unfold stepMember at hstep
  split at hstep
  · cases hstep
    exact h
  · rename_i hstack
    cases hstep
    exact h.close hstack _ tidy_emptyTable
  · exact tidy_stepPart h hstep

/-- A table in braces has the names of its members, and one more after a comma. -/
theorem tidy_stepSeparator (h : r.Tidy) {v : Setting} (hv : v.Tidy)
    (hstep : r.stepSeparator v t = some r') : r'.Tidy := by
  unfold stepSeparator at hstep
  split at hstep
  · cases hstep
    exact h
  · rename_i path _
    cases hstep
    exact h.finish (.assign path v) hv trivial
  · cases hstep
    exact h
  · rename_i items stack hstack
    cases hstep
    exact (h.close hstack .item trivial).open (.array (v :: items)) trivial trivial
  · rename_i hstack
    cases hstep
    exact h.close hstack _ (tidy_list _)
  · rename_i members path stack hstack
    obtain ⟨next, hnext, hstep⟩ := Option.bind_eq_some_iff.1 hstep
    cases hstep
    have hnames : Frame.Tidy (.braces next []) :=
      (Members.keepsDistinct_assign path hv).names hnext (h.innermost hstack)
    exact (h.close hstack (.part .member []) trivial).open _ hnames trivial
  · rename_i members path stack hstack
    obtain ⟨next, hnext, hstep⟩ := Option.bind_eq_some_iff.1 hstep
    cases hstep
    have hnames : (next.map (·.1)).Nodup :=
      (Members.keepsDistinct_assign path hv).names hnext (h.innermost hstack)
    exact h.close hstack _ (Members.tidy_table_settings_iff.2 hnames)
  · cases hstep

theorem tidy_stepLine (h : r.Tidy) (hstep : r.stepLine t = some r') : r'.Tidy := by
  unfold stepLine at hstep
  split at hstep
  · cases hstep
    exact h
  · cases hstep
    exact h
  · cases hstep
    exact h.expect trivial
  · exact tidy_stepPart h hstep

theorem tidy_stepHeader (h : r.Tidy) (hstep : r.stepHeader t = some r') : r'.Tidy := by
  unfold stepHeader at hstep
  split at hstep
  · cases hstep
    exact h.expect trivial
  · exact tidy_stepPart h hstep

theorem tidy_stepLineEnd (h : r.Tidy) (hstep : r.stepLineEnd t = some r') : r'.Tidy := by
  unfold stepLineEnd at hstep
  split at hstep
  · cases hstep
    exact h
  · cases hstep
    exact h.expect trivial
  · cases hstep

theorem tidy_stepAfterAtom (h : r.Tidy) {cs : List Char} (hstep : r.stepAfterAtom cs t = some r') :
    r'.Tidy := by
  obtain ⟨v, hv, hstep⟩ := Option.bind_eq_some_iff.1 hstep
  have hseparator : Expected.Tidy (.separator v) := tidy_atom? hv
  exact tidy_stepSeparator (h.expect hseparator) hseparator hstep

theorem tidy_stepAtom (h : r.Tidy) {cs : List Char} (hstep : r.stepAtom cs t = some r') :
    r'.Tidy := by
  unfold stepAtom at hstep
  split at hstep
  · cases hstep
    exact h.expect trivial
  · cases hstep
    exact h.expect trivial
  · split at hstep
    · cases hstep
      exact h.expect trivial
    · exact tidy_stepAfterAtom h hstep
  · exact tidy_stepAfterAtom h hstep

theorem tidy_stepTime (h : r.Tidy) {cs : List Char} (hstep : r.stepTime cs t = some r') :
    r'.Tidy := by
  unfold stepTime at hstep
  split at hstep
  · cases hstep
    exact h.expect trivial
  · exact tidy_stepAfterAtom h hstep

/-- One token keeps all names distinct, whatever was expected. -/
theorem tidy_step (h : r.Tidy) (hstep : r.step t = some r') : r'.Tidy := by
  have hexpected := h.expected
  unfold step at hstep
  split at hstep
  · exact tidy_stepLine h hstep
  · exact tidy_stepLineEnd h hstep
  · exact tidy_stepHeader h hstep
  · exact tidy_stepPart h hstep
  · exact tidy_stepAfterPart h hstep
  · rename_i path _
    split at hstep
    · cases hstep
      exact h.finish (.appendTable path) trivial trivial
    · cases hstep
  · exact tidy_stepValue h hstep
  · exact tidy_stepItem h hstep
  · exact tidy_stepMember h hstep
  · exact tidy_stepAtom h hstep
  · exact tidy_stepTime h hstep
  · rename_i v hseparator
    rw [hseparator] at hexpected
    exact tidy_stepSeparator h hexpected hstep

/-- By induction on the tokens. -/
theorem tidy_foldlM {tokens : List Token} (h : r.Tidy) (hfold : tokens.foldlM step r = some r') :
    r'.Tidy := by
  induction tokens generalizing r with
  | nil =>
    cases hfold
    exact h
  | cons t tokens ih =>
    rw [List.foldlM_cons] at hfold
    obtain ⟨next, hnext, hfold⟩ := Option.bind_eq_some_iff.1 hfold
    exact ih (tidy_step h hnext) hfold

theorem tidy_close? (h : r.Tidy) {statements : List Statement}
    (hclose : r.close? = some statements) : ∀ s ∈ statements, s.Tidy := by
  obtain ⟨last, hlast, hclose⟩ := Option.bind_eq_some_iff.1 hclose
  split at hclose
  · cases hclose
    exact fun s hs => (tidy_step h hlast).statements s (List.mem_reverse.1 hs)
  · cases hclose

end Reading

/-! ## Documents -/

theorem tidy_ofTokens? {tokens : List Token} {statements : List Statement}
    (h : Statement.ofTokens? tokens = some statements) : ∀ s ∈ statements, s.Tidy := by
  obtain ⟨last, hlast, hclose⟩ := Option.bind_eq_some_iff.1 h
  have hstart : Reading.Tidy {} := ⟨trivial, nofun, nofun⟩
  exact Reading.tidy_close? (Reading.tidy_foldlM hstart hlast) hclose

/-- The table that a document describes has distinct names, and so have its parts. -/
theorem tidy_read? {content : Bytes} {t : SettingTable} (h : read? content = some t) : t.Tidy := by
  obtain ⟨text, -, h⟩ := Option.bind_eq_some_iff.1 h
  obtain ⟨tokens, -, h⟩ := Option.bind_eq_some_iff.1 h
  obtain ⟨statements, hstatements, h⟩ := Option.bind_eq_some_iff.1 h
  obtain ⟨members, hmembers, h⟩ := Option.bind_eq_some_iff.1 h
  cases h
  have hstart : Members.Tidy [] := ⟨List.nodup_nil, nofun⟩
  exact (tidy_build? (tidy_ofTokens? hstatements) hmembers hstart).settings

end HotspotBackup.Toml
