import HotspotBackup.Error

/-!
# Formats and layouts

A backup begins with a tag that names its format. Tag 3 leads the record
that older devices wrote; tags 5 to 9 each name a `Layout` of the settings.
There never was a format with tag 4.
-/

namespace HotspotBackup

/-- A layout of the settings, by the tag that names it. -/
inductive Layout where
  | v5 | v6 | v7 | v8 | v9
  deriving DecidableEq, Repr, Inhabited

namespace Layout

/-- The layout that backups are written in. -/
def current : Layout := v9

/-- Every layout, oldest first. -/
def all : List Layout := [v5, v6, v7, v8, v9]

/-- The number of a layout, which is its tag. -/
def number : Layout → Nat
  | v5 => 5
  | v6 => 6
  | v7 => 7
  | v8 => 8
  | v9 => 9

/-- A layout is at most another if it is not newer. -/
instance : LE Layout := ⟨fun l m => l.number ≤ m.number⟩

instance (l m : Layout) : Decidable (l ≤ m) :=
  inferInstanceAs (Decidable (l.number ≤ m.number))

theorem mem_all (l : Layout) : l ∈ all := by cases l <;> decide

end Layout

/-- The format of a tagged backup. -/
inductive Format where
  /-- The six-field record of older devices. -/
  | legacy
  | layout (l : Layout)
  deriving DecidableEq, Repr, Inhabited

namespace Format

/-- The format that backups are written in. -/
def current : Format := layout .current

/-- Every format, oldest first. -/
def all : List Format := legacy :: Layout.all.map layout

/-- The number of a format. -/
def number : Format → Nat
  | legacy => 3
  | layout l => l.number

/-- The tag that leads a backup. -/
def tag (f : Format) : Int32 :=
  Int32.ofNat f.number

/-- The format of a tag. -/
def ofTag? (tag : Int32) : Option Format :=
  all.find? (·.tag = tag)

/-- The format of a tag, or the refusal of the tag. -/
def ofTag (tag : Int32) : Except BackupError Format :=
  match ofTag? tag with
  | some f => .ok f
  | none => .error (.unsupportedVersion tag.toInt)

/-- Whether a format is that of older devices. -/
def isLegacy : Format → Bool
  | legacy => true
  | layout _ => false

/-- The name shown to users. -/
def text (f : Format) : String :=
  s!"v{f.number}"

/-- The formats that are newer than this one. -/
def newer (f : Format) : List Format :=
  all.filter fun g => f.number < g.number

theorem mem_all (f : Format) : f ∈ all := by
  cases f with
  | legacy => decide
  | layout l => cases l <;> decide

@[simp] theorem ofTag?_tag (f : Format) : ofTag? f.tag = some f := by
  cases f with
  | legacy => decide
  | layout l => cases l <;> decide

theorem tag_of_ofTag? {t : Int32} {f : Format} (h : ofTag? t = some f) : f.tag = t := by
  simpa using List.find?_some h

end Format

end HotspotBackup
