import HotspotBackup.Proofs.FileContents

/-!
# The search for a file

A search for a path comes to one directory after another: for a relative path to
the start and to those above it, the nearest first. It ends at the first of them
from which the path leads to a file.

* `mem_upward_iff` and `pairwise_upward`: the directories above the start.
* `find?_eq_some_iff` and `find?_eq_none_iff`: where a search ends, which for a
  relative path is at the nearest file (`find?_eq_some_iff_nearest`).
* `find?_of_read?`: it ends at the file at the path, if there is one; so
  (`find?_of_applyAll_write`) it finds what was written there.
* `find?_of_write_beside`: it finds what it found before a file was written that
  it does not come by.
-/

namespace HotspotBackup

theorem pieces_ne_nil {α : Type} [DecidableEq α] (sep : α) (text : List α) :
    pieces sep text ≠ [] := by
  fun_cases pieces sep text <;> simp

namespace Files

variable {f g : Files} {l : Location} {path : String} {content : Bytes}

/-! ## Directories -/

/-- Above a location comes first the one that it stands in. -/
theorem upward_concat (l : Location) (name : String) :
    upward (l ++ [name]) = (l ++ [name]) :: upward l := by
  induction l with
  | nil => rfl
  | cons first l ih => rw [List.cons_append, upward, ih, upward, List.map_cons, List.cons_append]

theorem mem_upward_iff {k : Location} : k ∈ upward l ↔ k <+: l := by
  induction l generalizing k with
  | nil => simp [upward]
  | cons name below ih =>
    rw [upward, List.mem_append, List.mem_map, List.prefix_cons_iff, List.mem_singleton, or_comm]
    simp only [ih, and_comm, eq_comm]

/-- Each of them is nearer than those behind it. -/
theorem pairwise_upward (l : Location) :
    (upward l).Pairwise fun below above => above.length < below.length := by
  induction l with
  | nil => exact List.pairwise_singleton ..
  | cons name l ih =>
    rw [upward, List.pairwise_append, List.pairwise_map]
    refine ⟨ih.imp Nat.succ_lt_succ, List.pairwise_singleton .., ?_⟩
    intro below hbelow above habove
    obtain ⟨k, -, rfl⟩ := List.mem_map.1 hbelow
    rw [List.mem_singleton.1 habove]
    exact Nat.succ_pos _

theorem exists_upward_eq_cons (l : Location) : ∃ above, upward l = l :: above := by
  rcases List.eq_nil_or_concat l with rfl | ⟨above, name, rfl⟩
  · exact ⟨[], rfl⟩
  · exact ⟨upward above, by rw [List.concat_eq_append, upward_concat]⟩

/-- A path that leads anywhere leads through the directory where it begins. -/
theorem isDirectory_base (h : f.locate? path = some l) : f.isDirectory (f.base path) = true := by
  unfold locate? locateFrom? at h
  split at h
  · cases hcomponents : Path.rawComponents path with
    | nil => exact absurd (List.map_eq_nil_iff.1 hcomponents) (pieces_ne_nil _ _)
    | cons component rest =>
      rw [hcomponents] at h
      exact (of_walk_cons h).1
  · cases h

/-- A search for such a path comes to that directory first. -/
theorem exists_searched_eq_cons (h : f.locate? path = some l) :
    ∃ others, f.searched path = f.base path :: others := by
  have hdirectory := isDirectory_base h
  unfold base at hdirectory ⊢
  unfold searched
  split
  · exact ⟨[], rfl⟩
  · rename_i hrelative
    rw [if_neg hrelative] at hdirectory
    rw [if_pos hdirectory]
    exact exists_upward_eq_cons f.start

/-! ## What is found -/

/-- From a directory, a path leads to a directory or to nothing. -/
def NoFile (f : Files) (l : Location) (path : String) : Prop :=
  ∀ content k, f.locateFrom? l path = some k → f.entry k ≠ some (.file content)

/-- A search for a path comes to a directory: from none before it the path leads
to a file. -/
def Tries (f : Files) (path : String) (l : Location) : Prop :=
  ∃ before after, f.searched path = before ++ l :: after ∧ ∀ other ∈ before, f.NoFile other path

/-- A search for a path ends at the file at a location. -/
def Finds (f : Files) (path : String) (k : Location) (content : Bytes) : Prop :=
  ∃ l, f.Tries path l ∧ f.locateFrom? l path = some k ∧ f.entry k = some (.file content)

theorem readFrom?_eq_some_iff : f.readFrom? l path = some content ↔
    ∃ k, f.locateFrom? l path = some k ∧ f.entry k = some (.file content) := by
  rw [readFrom?, Option.bind_eq_some_iff]
  simp only [contentAt?_eq_some_iff]

theorem readFrom?_eq_none_iff : f.readFrom? l path = none ↔ f.NoFile l path := by
  simp only [Option.eq_none_iff_forall_ne_some, ne_eq, readFrom?_eq_some_iff, not_exists, not_and,
    NoFile]

theorem find?_eq_some_iff_tries :
    f.find? path = some content ↔ ∃ l, f.Tries path l ∧ f.readFrom? l path = some content := by
  simp only [find?, List.findSome?_eq_some_iff, readFrom?_eq_none_iff, Tries]
  constructor
  · rintro ⟨before, l, after, hsearched, hread, hbefore⟩
    exact ⟨l, ⟨before, after, hsearched, hbefore⟩, hread⟩
  · rintro ⟨l, ⟨before, after, hsearched, hbefore⟩, hread⟩
    exact ⟨before, l, after, hsearched, hread, hbefore⟩

theorem find?_eq_some_iff :
    f.find? path = some content ↔ ∃ k, f.Finds path k content := by
  simp only [find?_eq_some_iff_tries, readFrom?_eq_some_iff, Finds]
  constructor
  · rintro ⟨l, htries, k, hk⟩
    exact ⟨k, l, htries, hk⟩
  · rintro ⟨k, l, htries, hk⟩
    exact ⟨l, htries, k, hk⟩

theorem find?_eq_none_iff : f.find? path = none ↔ ∀ l ∈ f.searched path, f.NoFile l path := by
  simp only [find?, List.findSome?_eq_none_iff, readFrom?_eq_none_iff]

/-- A relative path is found from the nearest directory from which it leads to a
file, of the start and those above it. -/
theorem find?_eq_some_iff_nearest (hrelative : Path.isAbsolute path = false)
    (hstart : f.isDirectory f.start = true) :
    f.find? path = some content ↔ ∃ l, l <+: f.start ∧ f.readFrom? l path = some content ∧
      ∀ nearer, nearer <+: f.start → l.length < nearer.length → f.NoFile nearer path := by
  have hsearched : f.searched path = upward f.start := by
    rw [searched, hrelative, if_pos hstart]
    rfl
  have hpairwise := pairwise_upward f.start
  simp only [find?_eq_some_iff_tries, Tries, hsearched, ← mem_upward_iff]
  constructor
  · rintro ⟨l, ⟨before, after, hupward, hbefore⟩, hread⟩
    rw [hupward] at hpairwise ⊢
    refine ⟨l, by simp, hread, fun nearer hnearer hlength => ?_⟩
    obtain ⟨-, hafter, -⟩ := List.pairwise_append.1 hpairwise
    rcases List.mem_append.1 hnearer with hmem | hmem
    · exact hbefore nearer hmem
    · rcases List.mem_cons.1 hmem with rfl | hmem
      · omega
      · have hfarther := (List.pairwise_cons.1 hafter).1 nearer hmem
        omega
  · rintro ⟨l, hl, hread, hnearer⟩
    obtain ⟨before, after, hupward⟩ := List.append_of_mem hl
    refine ⟨l, ⟨before, after, hupward, fun other hother => ?_⟩, hread⟩
    rw [hupward] at hpairwise hnearer
    obtain ⟨-, -, hlonger⟩ := List.pairwise_append.1 hpairwise
    exact hnearer other (List.mem_append_left _ hother)
      (hlonger other hother l List.mem_cons_self)

/-- An absolute path is not searched for. -/
theorem find?_of_isAbsolute (h : Path.isAbsolute path = true) : f.find? path = f.read? path := by
  have hread : f.read? path = f.readFrom? [] path := by
    rw [read?, base, if_pos h]
  rw [find?, searched, if_pos h, hread, List.findSome?_cons]
  cases f.readFrom? [] path <;> rfl

/-- The file at a path is found, whatever stands above. -/
theorem find?_of_read? (h : f.read? path = some content) : f.find? path = some content := by
  obtain ⟨k, hk, -⟩ := Option.bind_eq_some_iff.1 h
  obtain ⟨others, hsearched⟩ := exists_searched_eq_cons hk
  have hread : f.readFrom? (f.base path) path = some content := h
  rw [find?, hsearched, List.findSome?_cons, hread]

/-- What was written to a path is found there. -/
theorem find?_of_applyAll_write {changes : List Change}
    (h : f.applyAll (changes ++ [.write path content]) = (true, g)) :
    g.find? path = some content :=
  find?_of_read? (read?_of_applyAll_write h)

/-! ## Files beside a search -/

/-- The file at a path is none that a search comes by: from no directory that the
search comes to its path leads there. -/
def Beside (f : Files) (searchPath path : String) : Prop :=
  ∀ l, f.Tries searchPath l → f.locateFrom? l searchPath ≠ f.locate? path

/-- It is beside every file that none of the directories leads to. -/
theorem beside_of_searched {searchPath : String}
    (h : ∀ l ∈ f.searched searchPath, f.locateFrom? l searchPath ≠ f.locate? path) :
    f.Beside searchPath path := by
  rintro l ⟨before, after, hsearched, -⟩
  exact h l (hsearched ▸ List.mem_append_right _ List.mem_cons_self)

theorem searched_of_write {other : String} (h : f.write path content = (true, g)) :
    g.searched other = f.searched other := by
  rw [searched, searched, start_of_write h, isDirectory_of_write h]

/-- A search comes to every directory before one that it comes to. -/
theorem tries_of_mem {before after : List Location} (h : f.searched path = before ++ after)
    (hbefore : ∀ other ∈ before, f.NoFile other path) : ∀ k ∈ before, f.Tries path k := by
  intro k hk
  obtain ⟨first, last, rfl⟩ := List.append_of_mem hk
  refine ⟨first, last ++ after, ?_, fun other hother => ?_⟩
  · rw [h, List.append_assoc, List.cons_append]
  · exact hbefore other (List.mem_append_left _ hother)

/-- What a search finds stays so when a file is written beside it. -/
theorem find?_of_write_beside {other : String} (h : f.write path content = (true, g))
    (hbeside : f.Beside other path) : g.find? other = f.find? other := by
  have hread : ∀ l, f.Tries other l → g.readFrom? l other = f.readFrom? l other :=
    fun l hl => readFrom?_of_write_ne h (hbeside l hl)
  have hnoFile : ∀ l, f.Tries other l → f.NoFile l other → g.NoFile l other := fun l hl hnone =>
    readFrom?_eq_none_iff.1 ((hread l hl).trans (readFrom?_eq_none_iff.2 hnone))
  cases hfind : f.find? other with
  | none =>
    have hnone := find?_eq_none_iff.1 hfind
    rw [find?_eq_none_iff, searched_of_write h]
    intro l hl
    exact hnoFile l (tries_of_mem (List.append_nil _).symm hnone l hl) (hnone l hl)
  | some found =>
    obtain ⟨l, ⟨before, after, hsearched, hbefore⟩, hfound⟩ := find?_eq_some_iff_tries.1 hfind
    rw [find?_eq_some_iff_tries]
    refine ⟨l, ⟨before, after, (searched_of_write h).trans hsearched, fun k hk => ?_⟩, ?_⟩
    · exact hnoFile k (tries_of_mem hsearched hbefore k hk) (hbefore k hk)
    · rw [hread l ⟨before, after, hsearched, hbefore⟩, hfound]

end Files

end HotspotBackup
