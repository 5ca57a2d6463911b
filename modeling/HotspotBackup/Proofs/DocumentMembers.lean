import HotspotBackup.Document
import HotspotBackup.Proofs.AddressText
import Mathlib.Data.List.Forall2
import Mathlib.Data.List.Nodup

/-!
# Drafts are put together from the values of a document

A document gives some values to fields: by their names, among other members of
an object (`Gives`), or by their places in an array. The draft of the document is
the default one with these fields replaced (`Draft.Assembles`), in whatever
order they come.

* `assign?_eq_some`: assignments are made one after another.
* `ofJson?_object` and `ofJson?_array`: the draft of an object and of an array.
* `ofJson?_of_repeated` and `ofJson?_of_long`: two members that name one field,
  and an array with more items than fields, are none.
-/

namespace HotspotBackup

namespace Field

theorem ofName?_name (f : Field) : ofName? f.name = some f := by
  cases f <;> decide

theorem ofName?_eq_none {name : String} (h : ∀ f : Field, f.name ≠ name) :
    ofName? name = none := by
  rw [ofName?, List.find?_eq_none]
  exact fun f _ => by simpa using h f

end Field

/-- A field with a value of it. -/
abbrev FieldValue := (f : Field) × f.Value

open HotspotBackup.Field (get set)

/-- The members of an object give some values to fields, in this order. Other
members have names that are no fields. -/
inductive Gives : List (Bytes × Json) → List FieldValue → Prop
  | nil : Gives [] []
  | field {key : Bytes} {item : Json} {f : Field} {v : f.Value} {members : List (Bytes × Json)}
    {values : List FieldValue} : Json.Quoted.decode? key = some f.name → f.ofJson? item = some v →
    Gives members values → Gives ((key, item) :: members) (⟨f, v⟩ :: values)
  | unknown {key : Bytes} {item : Json} {name : String} {members : List (Bytes × Json)}
    {values : List FieldValue} : Json.Quoted.decode? key = some name →
    (∀ f : Field, f.name ≠ name) → Gives members values → Gives ((key, item) :: members) values

namespace Draft

/-- A draft is the default one with some fields replaced. -/
structure Assembles (d : Draft) (values : List FieldValue) : Prop where
  replaced : ∀ a ∈ values, get d a.1 = a.2
  default : ∀ f ∉ values.map (·.1), get d f = get {} f

/-- A draft with the values of some fields. -/
def assign (d : Draft) (values : List FieldValue) : Draft :=
  values.foldl (fun d a => set d a.1 a.2) d

section

variable {values values' : List FieldValue} {d d' : Draft}

/-- The values determine the draft. -/
theorem Assembles.unique (h : d.Assembles values) (h' : d'.Assembles values) : d = d' := by
  refine Field.ext_get fun f => ?_
  by_cases hf : f ∈ values.map (·.1)
  · obtain ⟨a, ha, rfl⟩ := List.mem_map.1 hf
    rw [h.replaced a ha, h'.replaced a ha]
  · rw [h.default f hf, h'.default f hf]

theorem Assembles.of_perm (h : d.Assembles values) (hp : values.Perm values') :
    d.Assembles values' where
  replaced a ha := h.replaced a (hp.mem_iff.2 ha)
  default f hf := h.default f fun hm => hf ((hp.map (·.1)).mem_iff.1 hm)

/-- Assignments to other fields keep a field. By induction on the values. -/
theorem get_assign_of_not_mem {f : Field} (h : f ∉ values.map (·.1)) (d : Draft) :
    get (d.assign values) f = get d f := by
  induction values generalizing d with
  | nil => rfl
  | cons a values ih =>
    rw [List.map_cons, List.mem_cons, not_or] at h
    exact (ih h.2 (set d a.1 a.2)).trans (Field.get_set_ne d a.2 h.1)

/-- Of assignments to different fields, each holds. By induction on the values. -/
theorem get_assign_of_mem (hn : (values.map (·.1)).Nodup) {a : FieldValue} (ha : a ∈ values)
    (d : Draft) : get (d.assign values) a.1 = a.2 := by
  induction values generalizing d with
  | nil => cases ha
  | cons b values ih =>
    obtain ⟨hb, hn⟩ := List.nodup_cons.1 hn
    rcases List.mem_cons.1 ha with rfl | ha
    · exact (get_assign_of_not_mem hb (set d a.1 a.2)).trans (Field.get_set d a.1 a.2)
    · exact ih hn ha (set d b.1 b.2)

theorem assembles_assign (hn : (values.map (·.1)).Nodup) :
    (({} : Draft).assign values).Assembles values where
  replaced _ ha := get_assign_of_mem hn ha {}
  default _ hf := get_assign_of_not_mem hf {}

end

/-! ## Assignments -/

/-- Assignments whose items are read as some values are made one after another.
By induction on the values. -/
theorem assign?_eq_some {assignments : List (Field × Json)} {values : List FieldValue}
    (h : List.Forall₂ (fun p a => p.1 = a.1 ∧ a.1.ofJson? p.2 = some a.2) assignments values)
    (d : Draft) : assign? assignments d = some (d.assign values) := by
  induction h generalizing d with
  | nil => rfl
  | @cons p a assignments values hp _ ih =>
    obtain ⟨f, item⟩ := p
    obtain ⟨rfl, hitem⟩ := hp
    rw [assign?, hitem]
    exact ih (set d a.1 a.2)

/-! ## Objects -/

section

variable {members : List (Bytes × Json)} {values : List FieldValue}

/-- The assignments of one more member. -/
theorem members?_cons {m : Bytes × Json} {assigned : Option (Field × Json)}
    {assignments : List (Field × Json)} (hm : member? m = some assigned)
    (h : members? members = some assignments) :
    members? (m :: members) = some (assigned.toList ++ assignments) := by
  obtain ⟨read, hread, hsome⟩ := Option.bind_eq_some_iff.1 h
  cases hsome
  rw [members?, List.mapM_cons, hm, hread]
  cases assigned <;> rfl

theorem member?_of_name {key : Bytes} {name : String}
    (h : Json.Quoted.decode? key = some name) (item : Json) :
    member? (key, item) = some ((Field.ofName? name).map (·, item)) := by
  rw [member?, h]
  rfl

/-- The assignments of members that give some values. By induction on the
members. -/
theorem exists_members? (h : Gives members values) : ∃ assignments,
    members? members = some assignments ∧
      List.Forall₂ (fun p a => p.1 = a.1 ∧ a.1.ofJson? p.2 = some a.2) assignments values := by
  induction h with
  | nil => exact ⟨[], rfl, .nil⟩
  | @field key item f v members values hkey hitem _ ih =>
    obtain ⟨assignments, hm, ha⟩ := ih
    have hmember := member?_of_name hkey item
    rw [Field.ofName?_name] at hmember
    exact ⟨(f, item) :: assignments, members?_cons hmember hm, .cons ⟨rfl, hitem⟩ ha⟩
  | @unknown key item name members values hkey hname _ ih =>
    obtain ⟨assignments, hm, ha⟩ := ih
    have hmember := member?_of_name hkey item
    rw [Field.ofName?_eq_none hname] at hmember
    exact ⟨assignments, members?_cons hmember hm, ha⟩

/-- An object that gives values to different fields. -/
theorem ofJson?_object (h : Gives members values) (hn : (values.map (·.1)).Nodup) :
    ofJson? (.object members) = some (({} : Draft).assign values) := by
  obtain ⟨assignments, hm, ha⟩ := exists_members? h
  have hfields : assignments.map (·.1) = values.map (·.1) := by
    rw [← List.forall₂_eq_eq_eq, List.forall₂_map_left_iff, List.forall₂_map_right_iff]
    exact ha.imp fun p a hp => hp.1
  rw [ofJson?, hm, Option.bind_eq_bind, Option.bind_some, if_pos (hfields ▸ hn)]
  exact assign?_eq_some ha {}

/-- What members assign, member by member. -/
theorem members?_eq_some {assignments : List (Field × Json)}
    (h : members? members = some assignments) :
    assignments = members.filterMap fun m => (member? m).join := by
  obtain ⟨read, hread, hsome⟩ := Option.bind_eq_some_iff.1 h
  rw [MacAddress.mapM_eq_some_iff] at hread
  have hjoin : members.filterMap (fun m => (member? m).join) =
      (read.map some).filterMap (·.join) := by
    rw [← hread, List.filterMap_map]
    rfl
  cases hsome
  rw [hjoin, List.filterMap_map]
  rfl

/-- Two members that name one field. -/
theorem ofJson?_of_repeated {m m' : Bytes × Json} {f : Field} (h : [m, m'].Sublist members)
    (hm : Json.Quoted.decode? m.1 = some f.name) (hm' : Json.Quoted.decode? m'.1 = some f.name) :
    ofJson? (.object members) = none := by
  have hassigned : ∀ m : Bytes × Json, Json.Quoted.decode? m.1 = some f.name →
      (member? m).join = some (f, m.2) := fun m hm => by
    rw [member?_of_name hm m.2, Field.ofName?_name]
    rfl
  cases hall : members? members with
  | none => rw [ofJson?, hall, Option.bind_eq_bind, Option.bind_none]
  | some assignments =>
    have hboth := (h.filterMap fun m => (member? m).join).map Prod.fst
    rw [← members?_eq_some hall] at hboth
    simp only [List.filterMap_cons, hassigned m hm, hassigned m' hm', List.filterMap_nil,
      List.map_cons, List.map_nil] at hboth
    have hrep : ¬ (assignments.map (·.1)).Nodup := fun hn => by
      have htwice := hn.sublist hboth
      simp at htwice
    rw [ofJson?, hall, Option.bind_eq_bind, Option.bind_some, if_neg hrep]

end

/-! ## Arrays -/

/-- The first fields with the items of an array. -/
theorem zip_items {items : List Json} {values : List FieldValue}
    (hfields : values.map (·.1) <+: Field.all) (hl : items.length = values.length) :
    Field.all.zip items = (values.map (·.1)).zip items := by
  obtain ⟨tail, htail⟩ := hfields
  have hlength : (values.map (·.1)).length = items.length := by rw [List.length_map, hl]
  have hzip : (values.map (·.1) ++ tail).zip (items ++ []) =
      (values.map (·.1)).zip items ++ tail.zip [] := List.zip_append hlength
  rw [← htail]
  simpa using hzip

/-- An array of the values of the first fields. -/
theorem ofJson?_array {items : List Json} {values : List FieldValue}
    (hfields : values.map (·.1) <+: Field.all)
    (h : List.Forall₂ (fun item a => a.1.ofJson? item = some a.2) items values) :
    ofJson? (.array items) = some (({} : Draft).assign values) := by
  have hl := h.length_eq
  have hassigned : List.Forall₂ (fun p a => p.1 = a.1 ∧ a.1.ofJson? p.2 = some a.2)
      ((values.map (·.1)).zip items) values := by
    clear hfields hl
    induction h with
    | nil => exact .nil
    | cons ha _ ih => exact .cons ⟨rfl, ha⟩ ih
  have hfew : items.length ≤ Field.all.length := by
    rw [hl, ← List.length_map (·.1)]
    exact hfields.length_le
  rw [ofJson?, if_pos hfew, zip_items hfields hl]
  exact assign?_eq_some hassigned {}

theorem ofJson?_of_long {items : List Json} (h : Field.all.length < items.length) :
    ofJson? (.array items) = none :=
  if_neg (Nat.not_le.2 h)

end Draft

end HotspotBackup
