import HotspotBackup.Files

/-!
# What is written is read

A change that succeeds leaves what it wrote where it wrote it: the content of a
file decides about no directory, so its path leads where it led before.

* `read?_of_write`: a file that was written has its new content.
* `read?_of_applyAll_write`: so it has after a run of changes that ends with it.
* `readFrom?_of_write_ne` and `Writable.of_write`: other files keep theirs, and
  what could be written can be written still.
* `Writable.exists_applyAll`: what can be written can be written too when the
  directories of its path are made first.
* `rewritten_of_write` and `rewritten_of_makeDirectories`: everything else is as it
  was, directories apart that were made on the way to a file.
-/

namespace HotspotBackup.Files

variable {f g : Files}

/-- Where a path leads depends on the directories alone. -/
theorem walk_congr (h : ∀ k, f.isDirectory k = g.isDirectory k) (l : Location)
    (components : List String) : f.walk l components = g.walk l components := by
  induction components generalizing l with
  | nil => rfl
  | cons component rest ih =>
    rw [walk, walk, h l]
    split
    · cases next? l component with
      | none => rfl
      | some next => exact ih next
    · rfl

theorem locateFrom?_congr (h : ∀ k, f.isDirectory k = g.isDirectory k) (l : Location)
    (path : String) : f.locateFrom? l path = g.locateFrom? l path := by
  rw [locateFrom?, locateFrom?, walk_congr h]

theorem locate?_congr (hs : f.start = g.start) (h : ∀ k, f.isDirectory k = g.isDirectory k)
    (path : String) : f.locate? path = g.locate? path := by
  have hb : f.base path = g.base path := by
    rw [base, base, hs]
  rw [locate?, locate?, hb, locateFrom?_congr h]

theorem read?_eq (f : Files) (path : String) :
    f.read? path = (f.locate? path).bind f.contentAt? :=
  rfl

theorem contentAt?_eq_some_iff {l : Location} {content : Bytes} :
    f.contentAt? l = some content ↔ f.entry l = some (.file content) := by
  unfold contentAt?
  split
  · rename_i hentry
    rw [hentry, Option.some.injEq, Option.some.injEq, Entry.file.injEq]
  · rename_i hentry
    exact ⟨nofun, fun h => absurd h (hentry content)⟩

theorem contentAt?_put_self (f : Files) (l : Location) (content : Bytes) :
    (f.put l (some (.file content))).contentAt? l = some content :=
  contentAt?_eq_some_iff.2 (by simp [put])

theorem contentAt?_put_ne {k l : Location} (h : k ≠ l) (f : Files) (e : Option Entry) :
    (f.put l e).contentAt? k = f.contentAt? k := by
  simp [contentAt?, put, h]

/-- A file in the place of another one, or of nothing, is no directory either. -/
theorem isDirectory_put_file {l : Location} (h : f.isDirectory l = false) (content : Bytes)
    (k : Location) : (f.put l (some (.file content))).isDirectory k = f.isDirectory k := by
  by_cases hk : k = l
  · subst hk
    rw [h]
    simp [isDirectory, put]
  · simp [isDirectory, put, hk]

theorem of_write_eq_true {path : String} {content : Bytes} (h : f.write path content = (true, g)) :
    ∃ l, f.locate? path = some l ∧ f.isDirectory l = false ∧
      g = f.put l (some (.file content)) := by
  unfold write at h
  split at h
  · cases h
  rename_i l hl
  refine ⟨l, hl, ?_⟩
  split at h
  · rename_i hentry
    cases h
    exact ⟨by simp [isDirectory, hentry], rfl⟩
  · cases h
  · rename_i hentry
    split at h
    · cases h
      exact ⟨by simp [isDirectory, hentry], rfl⟩
    · cases h

theorem start_of_write {path : String} {content : Bytes} (h : f.write path content = (true, g)) :
    g.start = f.start := by
  obtain ⟨l, -, -, rfl⟩ := of_write_eq_true h
  rfl

theorem isDirectory_of_write {path : String} {content : Bytes}
    (h : f.write path content = (true, g)) (k : Location) : g.isDirectory k = f.isDirectory k := by
  obtain ⟨l, -, hdirectory, rfl⟩ := of_write_eq_true h
  exact isDirectory_put_file hdirectory content k

/-- Paths lead where they led before a file was written. -/
theorem locateFrom?_of_write {path : String} {content : Bytes}
    (h : f.write path content = (true, g)) (l : Location) (other : String) :
    g.locateFrom? l other = f.locateFrom? l other :=
  locateFrom?_congr (isDirectory_of_write h) l other

theorem locate?_of_write {path : String} {content : Bytes} (h : f.write path content = (true, g))
    (other : String) : g.locate? other = f.locate? other :=
  locate?_congr (start_of_write h) (isDirectory_of_write h) other

/-- A file that was written has its new content. -/
theorem read?_of_write {path : String} {content : Bytes} (h : f.write path content = (true, g)) :
    g.read? path = some content := by
  have hlocate := locate?_of_write h path
  obtain ⟨l, hl, -, rfl⟩ := of_write_eq_true h
  rw [read?_eq, hlocate, hl, Option.bind_some, contentAt?_put_self]

/-- So it has after a run of changes that ends with it. -/
theorem read?_of_applyAll_write {changes : List Change} {path : String} {content : Bytes}
    (h : f.applyAll (changes ++ [.write path content]) = (true, g)) :
    g.read? path = some content := by
  induction changes generalizing f with
  | nil =>
    simp only [List.nil_append, applyAll, apply] at h
    split at h
    · rename_i hwrite
      cases h
      exact read?_of_write hwrite
    · cases h
  | cons change changes ih =>
    rw [List.cons_append, applyAll] at h
    split at h
    · exact ih h
    · cases h

/-! ## Other files -/

/-- Whatever is to be written to a path, it can be. -/
def Writable (f : Files) (path : String) : Prop :=
  ∀ content, ∃ g, f.write path content = (true, g)

/-- What a path leads to from a directory keeps its content, if that is not the
file that was written. -/
theorem readFrom?_of_write_ne {path other : String} {content : Bytes} {l : Location}
    (h : f.write path content = (true, g)) (hne : f.locateFrom? l other ≠ f.locate? path) :
    g.readFrom? l other = f.readFrom? l other := by
  have hlocate := locateFrom?_of_write h l other
  obtain ⟨written, hwritten, -, rfl⟩ := of_write_eq_true h
  rw [readFrom?, hlocate, readFrom?]
  cases hk : f.locateFrom? l other with
  | none => rfl
  | some k =>
    have hkl : k ≠ written := by
      rintro rfl
      exact hne (hk.trans hwritten.symm)
    rw [Option.bind_some, Option.bind_some, contentAt?_put_ne hkl]

/-- A file that holds already what is written somewhere holds it still. -/
theorem read?_of_write_same {path other : String} {content : Bytes}
    (h : f.write path content = (true, g)) (ho : f.read? other = some content) :
    g.read? other = some content := by
  by_cases hne : f.locate? other = f.locate? path
  · have hpath := read?_of_write h
    rw [read?_eq, locate?_of_write h] at hpath ⊢
    rw [hne]
    exact hpath
  · have hbase : g.base other = f.base other := by
      rw [base, base, start_of_write h]
    rw [read?, hbase, readFrom?_of_write_ne h hne]
    exact ho

/-- A file can be written where one stands, or where nothing does in a directory
that can be written. -/
theorem writable_of_entry {path : String} {l : Location} (hl : f.locate? path = some l)
    (h : (∃ old, f.entry l = some (.file old)) ∨
      f.entry l = none ∧ f.isWritable l.dropLast = true) : f.Writable path := by
  intro content
  refine ⟨f.put l (some (.file content)), ?_⟩
  rcases h with ⟨old, hentry⟩ | ⟨hentry, hparent⟩
  · rw [write, hl]
    simp only [hentry]
  · rw [write, hl]
    simp only [hentry, hparent, ↓reduceIte]

theorem entry_of_writable {path : String} (h : f.Writable path) :
    ∃ l, f.locate? path = some l ∧ ((∃ old, f.entry l = some (.file old)) ∨
      f.entry l = none ∧ f.isWritable l.dropLast = true) := by
  obtain ⟨g, hg⟩ := h []
  obtain ⟨l, hl, -⟩ := of_write_eq_true hg
  refine ⟨l, hl, ?_⟩
  rw [write, hl] at hg
  dsimp only at hg
  split at hg
  · rename_i old hentry
    exact .inl ⟨old, hentry⟩
  · cases hg
  · rename_i hentry
    split at hg
    · rename_i hparent
      exact .inr ⟨hentry, hparent⟩
    · cases hg

/-- What could be written can be written still. -/
theorem Writable.of_write {path other : String} {content : Bytes} (ho : f.Writable other)
    (h : f.write path content = (true, g)) : g.Writable other := by
  obtain ⟨k, hk, hentry⟩ := entry_of_writable ho
  have hlocate : g.locate? other = some k := (locate?_of_write h other).trans hk
  obtain ⟨l, -, hdirectory, rfl⟩ := of_write_eq_true h
  refine writable_of_entry hlocate ?_
  by_cases hkl : k = l
  · subst hkl
    exact .inl ⟨content, by simp [put]⟩
  rcases hentry with ⟨old, hold⟩ | ⟨hnone, hparent⟩
  · exact .inl ⟨old, by simp [put, hkl, hold]⟩
  · -- the file was written into no directory, so that the parent is another place
    have hne : k.dropLast ≠ l := by
      rintro rfl
      rw [isWritable, decide_eq_true_eq] at hparent
      rw [isDirectory, hparent] at hdirectory
      cases hdirectory
    refine .inr ⟨by simp [put, hkl, hnone], ?_⟩
    simpa [isWritable, put, hne] using hparent

/-! ## Directories that are there -/

theorem of_walk_cons {l k : Location} {component : String} {rest : List String}
    (h : f.walk l (component :: rest) = some k) :
    f.isDirectory l = true ∧ ∃ next, next? l component = some next ∧ f.walk next rest = some k := by
  rw [walk] at h
  split at h
  · rename_i hdirectory
    exact ⟨hdirectory, Option.bind_eq_some_iff.1 h⟩
  · cases h

theorem makeAll_cons_of_isDirectory {l next : Location} {component : String}
    (hnext : next? l component = some next) (h : f.isDirectory next = true) (rest : List String) :
    f.makeAll l (component :: rest) = f.makeAll next rest := by
  unfold isDirectory at h
  split at h
  · rename_i hentry
    rw [makeAll, hnext]
    simp only [hentry]
  · cases h

/-- Components that lead somewhere lead through directories, so that none is
missing. By induction on the components: those that lead nowhere are passed over. -/
theorem makeAll_of_walk {l k : Location} {components : List String}
    (h : f.walk l components = some k) :
    f.makeAll l (components.filter fun c => c ≠ "" && c ≠ ".").dropLast = (true, f) := by
  induction components generalizing l with
  | nil => rfl
  | cons component rest ih =>
    obtain ⟨-, next, hnext, hrest⟩ := of_walk_cons h
    by_cases hstays : component = "" ∨ component = "."
    · have hsame : next = l := by simpa [next?, hstays, eq_comm] using hnext
      have hskip : ¬ (component ≠ "" && component ≠ ".") = true := by
        rcases hstays with rfl | rfl <;> decide
      rw [List.filter_cons, if_neg hskip]
      exact ih (hsame ▸ hrest)
    · have hkeep : (component ≠ "" && component ≠ ".") = true := by simpa using hstays
      have hmade := ih hrest
      rw [List.filter_cons, if_pos hkeep]
      cases hothers : rest.filter fun c => c ≠ "" && c ≠ "." with
      | nil => rfl
      | cons other others =>
        have hdirectory : f.isDirectory next = true := by
          cases rest with
          | nil => cases hothers
          | cons component rest => exact (of_walk_cons hrest).1
        rw [hothers] at hmade
        rw [List.dropLast_cons_cons, makeAll_cons_of_isDirectory hnext hdirectory, hmade]

theorem makeDirectories_of_locate? {path : String} {l : Location}
    (h : f.locate? path = some l) :
    f.makeDirectories path (Path.components path).dropLast = (true, f) := by
  unfold locate? locateFrom? at h
  split at h
  · rename_i husable
    unfold makeDirectories
    split
    · rfl
    · exact makeAll_of_walk h
  · cases h

/-- What can be written can be written too when the directories of its path are made
first. -/
theorem Writable.exists_applyAll {path : String} (h : f.Writable path) (content : Bytes) :
    ∃ g, f.applyAll [.parents path, .write path content] = (true, g) := by
  obtain ⟨l, hl, -⟩ := entry_of_writable h
  obtain ⟨g, hg⟩ := h content
  refine ⟨g, ?_⟩
  simp only [applyAll, apply, makeDirectories_of_locate? hl, hg]

/-! ## Everything else -/

/-- The locations that components lead to, one after another. -/
def along : Location → List String → List Location
  | _, [] => []
  | l, component :: rest =>
    match next? l component with
    | none => []
    | some next => next :: along next rest

/-- The locations of the directories that a path leads through. -/
def parents (f : Files) (path : String) : List Location :=
  along (f.base path) (Path.components path).dropLast

/-- What stands at a location is as it was, or is a directory that was made at
one of some locations, where nothing stood. -/
def KeptAt (f g : Files) (made : List Location) (k : Location) : Prop :=
  g.entry k = f.entry k ∨ k ∈ made ∧ f.entry k = none ∧ g.entry k = some (.directory true)

/-- The file at a path has a content, and everything else is kept, directories
apart that were made at some locations. -/
structure Rewritten (f g : Files) (path : String) (content : Bytes) (made : List Location) :
    Prop where
  start : g.start = f.start
  entry : ∃ l, g.locate? path = some l ∧ f.isDirectory l = false ∧
    g.entry l = some (.file content) ∧ ∀ k, k ≠ l → KeptAt f g made k

/-- By induction on the components: a directory is made only where nothing
stood, and stays there while the next ones are made. -/
theorem keptAt_of_makeAll {components : List String} {l : Location} {made : Bool}
    (h : f.makeAll l components = (made, g)) :
    g.start = f.start ∧ ∀ k, KeptAt f g (along l components) k := by
  induction components generalizing f l with
  | nil =>
    cases h
    exact ⟨rfl, fun _ => .inl rfl⟩
  | cons component rest ih =>
    rw [makeAll] at h
    cases hnext : next? l component with
    | none =>
      simp only [hnext] at h
      cases h
      exact ⟨rfl, fun _ => .inl rfl⟩
    | some next =>
      have halong : along l (component :: rest) = next :: along next rest := by
        rw [along, hnext]
      simp only [hnext] at h
      rw [halong]
      split at h
      · obtain ⟨hstart, hkept⟩ := ih h
        exact ⟨hstart, fun k => (hkept k).imp_right fun hmade =>
          ⟨List.mem_cons_of_mem _ hmade.1, hmade.2⟩⟩
      · cases h
        exact ⟨rfl, fun _ => .inl rfl⟩
      · rename_i hnone
        split at h
        · obtain ⟨hstart, hkept⟩ := ih h
          refine ⟨hstart, fun k => ?_⟩
          by_cases hk : k = next
          · -- the directory that was made first
            subst hk
            rcases hkept k with hsame | ⟨-, habsent, -⟩
            · refine .inr ⟨List.mem_cons_self, hnone, hsame.trans ?_⟩
              simp [put]
            · simp [put] at habsent
          · have hput : (f.put next (some (.directory true))).entry k = f.entry k := by
              simp [put, hk]
            rcases hkept k with hsame | ⟨hmem, habsent, hmade⟩
            · exact .inl (hsame.trans hput)
            · exact .inr ⟨List.mem_cons_of_mem _ hmem, hput ▸ habsent, hmade⟩
        · cases h
          exact ⟨rfl, fun _ => .inl rfl⟩

theorem keptAt_of_makeDirectories {path : String} {components : List String} {made : Bool}
    (h : f.makeDirectories path components = (made, g)) :
    g.start = f.start ∧ ∀ k, KeptAt f g (along (f.base path) components) k := by
  unfold makeDirectories at h
  split at h
  · cases h
    exact ⟨rfl, fun _ => .inl rfl⟩
  · split at h
    · exact keptAt_of_makeAll h
    · cases h
      exact ⟨rfl, fun _ => .inl rfl⟩

/-- A file is written past everything else. -/
theorem rewritten_of_write {path : String} {content : Bytes}
    (h : f.write path content = (true, g)) : f.Rewritten g path content [] := by
  have hlocate := locate?_of_write h path
  obtain ⟨l, hl, hdirectory, rfl⟩ := of_write_eq_true h
  refine ⟨rfl, l, hlocate.trans hl, hdirectory, ?_, fun k hk => .inl ?_⟩
  · simp [put]
  · simp [put, hk]

/-- So it is after directories were made for it. -/
theorem rewritten_of_makeDirectories {path : String} {components : List String} {content : Bytes}
    {f₁ : Files} {made : Bool} (h : f.makeDirectories path components = (made, f₁))
    (hw : f₁.write path content = (true, g)) :
    f.Rewritten g path content (along (f.base path) components) := by
  obtain ⟨hstart, hkept⟩ := keptAt_of_makeDirectories h
  obtain ⟨hstart', l, hl, hdirectory, hentry, hsame⟩ := rewritten_of_write hw
  refine ⟨hstart'.trans hstart, l, hl, ?_, hentry, fun k hk => ?_⟩
  · -- a directory that was made would be no place for the file
    rcases hkept l with hl | ⟨-, -, hl⟩
    · rwa [isDirectory, hl] at hdirectory
    · rw [isDirectory, hl] at hdirectory
      cases hdirectory
  · rcases hsame k hk with hk | ⟨hmem, -⟩
    · exact (hkept k).imp hk.trans fun hmade => ⟨hmade.1, hmade.2.1, hk.trans hmade.2.2⟩
    · cases hmem

theorem rewritten_of_applyAll_write {path : String} {content : Bytes}
    (h : f.applyAll [.write path content] = (true, g)) : f.Rewritten g path content [] := by
  simp only [applyAll, apply] at h
  split at h
  · rename_i hwrite
    cases h
    exact rewritten_of_write hwrite
  · cases h

theorem rewritten_of_applyAll_parents {path : String} {content : Bytes}
    (h : f.applyAll [.parents path, .write path content] = (true, g)) :
    f.Rewritten g path content (f.parents path) := by
  rw [applyAll, apply] at h
  split at h
  · rename_i f₁ hmade
    simp only [applyAll, apply] at h
    split at h
    · rename_i hwrite
      cases h
      exact rewritten_of_makeDirectories hmade hwrite
    · cases h
  · cases h

end HotspotBackup.Files
