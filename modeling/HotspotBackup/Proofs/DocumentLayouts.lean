import HotspotBackup.Proofs.Documents

/-!
# A draft does not depend on the layout of its document

Whatever text says an object or an array (`Json.Spells`), its draft is the
default one with the values of the document (`Draft.Assembles`), and so it is
the same for every order of the members, for any other members among them, and
for the array of the values (`Draft.parse?_of_any_layout`).
-/

namespace HotspotBackup.Draft

open Json.Quoted (decode? content)
open Utf8 (octets)

theorem parse?_of_spells {item : Json} {text : Bytes} (h : item.Spells text) :
    parse? text = ofJson? item := by
  rw [parse?, Json.parse?_of_spells h]
  rfl

/-- A configuration is read where its draft is, if that breaks no rule. -/
theorem parse?_eq_some_iff {text : Bytes} {c : Configuration} :
    Configuration.parse? text = some c ↔ ∃ d, parse? text = some d ∧ d.build = .ok c := by
  rw [Configuration.parse?, Option.bind_eq_bind, Option.bind_eq_some_iff]
  refine exists_congr fun d => and_congr_right fun _ => ?_
  cases d.build <;> simp [Except.toOption]

/-- For any values of different fields there is one draft, the default one with
these values, of every text that says an object with them, in any order and
among any other members; and of every text that says an array of them, if they
are those of the first fields in wire order. A text is no draft if it says an
object of which two members name one field, or an array of more than seventeen
items. A text is a configuration exactly if it is a draft that is built into
that configuration. There is a text for every value of a field. -/
theorem parse?_of_any_layout :
    (∀ values : List FieldValue, (values.map (·.1)).Nodup → ∃ d : Draft, d.Assembles values ∧
        (∀ members inOrder text, Gives members inOrder → inOrder.Perm values →
          (Json.object members).Spells text → parse? text = some d) ∧
        (values.map (·.1) <+: Field.all → ∀ items text,
          List.Forall₂ (fun item a => a.1.ofJson? item = some a.2) items values →
          (Json.array items).Spells text → parse? text = some d)) ∧
      (∀ members m m' (f : Field) text, [m, m'].Sublist members → decode? m.1 = some f.name →
        decode? m'.1 = some f.name → (Json.object members).Spells text → parse? text = none) ∧
      (∀ items text, 17 < items.length → (Json.array items).Spells text → parse? text = none) ∧
      (∀ text c, Configuration.parse? text = some c ↔
        ∃ d, parse? text = some d ∧ d.build = .ok c) ∧
      ∀ (f : Field) (v : f.Value), ∃ item text, item.Spells text ∧ f.ofJson? item = some v := by
  refine ⟨fun values hn => ?_, fun members m m' f text hsub hm hm' hs => ?_,
    fun items text hl hs => ?_, fun text c => parse?_eq_some_iff, fun f v => ?_⟩
  · have hd := assembles_assign hn
    refine ⟨_, hd, fun members inOrder text hg hp hs => ?_, fun hfields items text hv hs => ?_⟩
    · have hn' := (hp.map (·.1)).nodup_iff.2 hn
      rw [parse?_of_spells hs, ofJson?_object hg hn']
      exact congrArg some (((assembles_assign hn').of_perm hp).unique hd)
    · rw [parse?_of_spells hs, ofJson?_array hfields hv]
  · rw [parse?_of_spells hs, ofJson?_of_repeated hsub hm hm']
  · rw [parse?_of_spells hs, ofJson?_of_long hl]
  · exact ⟨_, _, Json.spells_content .compact (f.content v), f.ofJson?_content v⟩

/-- A document of a channel, behind a member that is no field. -/
def channelled : Report :=
  [("x", .scalar .null), (Field.channel.name, .scalar (.number 36))]

/-- The document of a channel, with a member in front that is no field, is the
draft of that channel; with both members twice, it is none. -/
theorem parse?_of_any_layout_channelled :
    parse? (Utf8.encode (channelled.json .pretty)) = some { channel := 36 } ∧
      parse? (Utf8.encode ((channelled ++ channelled).json .compact)) = none := by
  obtain ⟨hobjects, hrepeated, -⟩ := parse?_of_any_layout
  have hgives : Gives [(octets (content "x".toList), .null),
      (octets (content Field.channel.name.toList), (Scalar.number 36).toJson)]
        [⟨.channel, (36 : UInt32)⟩] :=
    .unknown (Json.Quoted.decode?_content "x") (fun f => by cases f <;> decide)
      (.field (Json.Quoted.decode?_content Field.channel.name) (Field.ofJson?_content .channel 36)
        .nil)
  have hd : Assembles { channel := 36 } [⟨.channel, (36 : UInt32)⟩] := by
    refine ⟨fun a ha => ?_, fun f hf => ?_⟩
    · rw [List.mem_singleton.1 ha]
      rfl
    · have hne : f ≠ .channel := by
        rintro rfl
        exact hf List.mem_cons_self
      exact Field.get_set_ne {} (f := .channel) (36 : UInt32) hne
  obtain ⟨d, hassembles, hobject, -⟩ :=
    hobjects [⟨.channel, (36 : UInt32)⟩] (List.nodup_singleton _)
  have hone := hobject _ _ _ hgives (.refl _) (Json.spells_report .pretty channelled)
  refine ⟨hone.trans (congrArg some (hassembles.unique hd)), ?_⟩
  exact hrepeated _ (octets (content Field.channel.name.toList), (Scalar.number 36).toJson)
    (octets (content Field.channel.name.toList), (Scalar.number 36).toJson) .channel _
    (.cons _ (.cons_cons _ (.cons _ (.cons_cons _ .slnil))))
    (Json.Quoted.decode?_content _) (Json.Quoted.decode?_content _)
    (Json.spells_report .compact (channelled ++ channelled))

end HotspotBackup.Draft
