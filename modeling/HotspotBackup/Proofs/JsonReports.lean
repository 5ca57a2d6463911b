import HotspotBackup.Proofs.JsonTrees

/-!
# A report in JSON is read as its values

The text of a report, in either spacing, says an object of its entries, with
every text as it was quoted and every number in its digits (`spells_report`),
and so it is read as that object (`parse?_report`).

* `stringText_content` and `numberText_decimal`: what is written for a text and
  for a number keeps to the grammar.
* `laidOut_bracketed`: parts between brackets, with commas between them.
-/

namespace HotspotBackup

open Json
open Json.Quoted (content)
open Utf8 (octets)

/-- The octets between the quotation marks of a name. -/
def Label.key : Label → Bytes
  | name s => octets (content s.toList)
  | number n => octets (Scalar.decimal n)

/-- A value as a document says it. -/
def Scalar.toJson : Scalar → Json
  | null => .null
  | flag b => .bool b
  | number n => .number (decimal n)
  | text s => .string (octets (content s.toList))

/-- The content of an entry as a document says it. -/
def Content.toJson : Content → Json
  | scalar v => v.toJson
  | list items => .array (items.map (·.toJson))
  | record members => .object (members.map fun m => (m.1.key, m.2.toJson))

/-- A report as a document says it. -/
def Report.toJson (r : Report) : Json :=
  .object (r.map fun entry => (octets (content entry.1.toList), entry.2.toJson))

namespace Json

/-! ## Texts and numbers -/

/-- What is written for a character of a text. -/
theorem stringText_encodeChar (c : Char) {rest : Bytes} (h : StringText rest) :
    StringText (octets (Quoted.encodeChar c) ++ rest) := by
  rcases Quoted.escape_cases c with ⟨letter, value, hc, hv, -⟩ | ⟨-, x, y, hc, -, hx, hy⟩ |
    ⟨hc, hquote, hslash, hcontrol⟩
  · have hletter : letter ∈ [34, 92, 47, 98, 102, 110, 114, 116] := by
      refine Classical.byContradiction fun hnot => ?_
      simp only [List.mem_cons, List.not_mem_nil, or_false, not_or] at hnot
      simp [Quoted.escaped?, hnot] at hv
    rw [hc]
    exact .letter hletter h
  · have hzero : IsHexOctet 48 := rfl
    rw [hc]
    refine .unit ?_ h
    simp only [List.forall_mem_cons, List.not_mem_nil, false_implies, implies_true, and_true]
    exact ⟨hzero, hzero, hx, hy⟩
  · have hplain : ∀ octet ∈ octets [c], octet.toNat ≠ 34 ∧ octet.toNat ≠ 92 ∧
        32 ≤ octet.toNat := by
      intro octet ho
      rw [Utf8.octets_cons, show octets [] = [] from rfl, List.append_nil] at ho
      rcases Utf8.mem_encodeChar ho with hn | hn
      · rw [hn]
        exact ⟨hquote, hslash, hcontrol⟩
      · omega
    rw [hc]
    generalize octets [c] = b at hplain
    induction b with
    | nil => exact h
    | cons octet b ih =>
      obtain ⟨⟨hq, hs, hn⟩, hb⟩ := List.forall_mem_cons.1 hplain
      exact .plain hq hs hn (ih hb)

/-- By induction on the text. -/
theorem stringText_content (cs : List Char) : StringText (octets (content cs)) := by
  induction cs with
  | nil => exact .nil
  | cons c cs ih =>
    rw [content, List.flatMap_cons, Utf8.octets_append]
    exact stringText_encodeChar c ih

theorem numberText_decimal (n : Nat) : NumberText (Scalar.decimal n) := by
  have hwhole : WholeText (Scalar.decimal n) := by
    rcases Scalar.decimal_cases n with ⟨-, hn⟩ | ⟨-, c, cs, hc, hne⟩
    · rw [hn]
      exact .zero
    · have hdigits : ∀ d ∈ c :: cs, d.isDigit = true :=
        fun d hd => Scalar.isDigit_of_mem_decimal (n := n) (hc ▸ hd)
      rw [hc]
      exact .other hne ⟨List.cons_ne_nil c cs, hdigits⟩
  have h := NumberText.mk (List.mem_cons_self (l := [['-']])) hwhole .absent .absent
  rwa [List.append_nil, List.append_nil, List.nil_append] at h

/-- Digits stand for themselves between quotation marks. -/
theorem content_of_digits {cs : List Char} (h : ∀ c ∈ cs, c.isDigit = true) : content cs = cs := by
  have hdigit : ∀ n < 58, 48 ≤ n → Quoted.encodeChar (Char.ofNat n) = [Char.ofNat n] := by decide
  induction cs with
  | nil => rfl
  | cons c cs ih =>
    have hn := Scalar.toNat_of_isDigit (h c List.mem_cons_self)
    have hc := hdigit c.toNat (by omega) hn.1
    rw [Char.ofNat_toNat] at hc
    have hrest : cs.flatMap Quoted.encodeChar = cs := ih fun d hd => h d (List.mem_cons_of_mem _ hd)
    rw [content, List.flatMap_cons, hc, hrest]
    rfl

theorem laidOut_quoted (s : String) :
    LaidOut [.string (octets (content s.toList))] (octets (Quoted.encode s)) := by
  have hsplit : octets (Quoted.encode s) = [34] ++ (octets (content s.toList) ++ [34]) := by
    rw [Quoted.encode, List.cons_append, Utf8.octets_cons, Utf8.octets_append]
    rfl
  have hstring : (Token.string (octets (content s.toList))).WellFormed :=
    stringText_content s.toList
  rw [hsplit]
  exact laidOut_token hstring

theorem laidOut_label (l : Label) : LaidOut [.string l.key] (octets l.json) := by
  cases l with
  | name s => exact laidOut_quoted s
  | number n =>
    have h := laidOut_quoted (String.ofList (Scalar.decimal n))
    have hcontent : content (Scalar.decimal n) = Scalar.decimal n :=
      content_of_digits fun c hc => Scalar.isDigit_of_mem_decimal hc
    have hcs : (Scalar.decimal n).flatMap Quoted.encodeChar = Scalar.decimal n := hcontent
    rw [Quoted.encode, String.toList_ofList, hcontent, hcs] at h
    exact h

theorem spells_scalar (v : Scalar) : v.toJson.Spells (octets v.json) := by
  cases v with
  | null | flag b =>
    rw [Scalar.toJson, Spells, tokens]
    exact laidOut_token trivial
  | number n =>
    have hnumber : (Token.number (Scalar.decimal n)).WellFormed := numberText_decimal n
    rw [Scalar.toJson, Spells, tokens]
    exact laidOut_token hnumber
  | text s =>
    rw [Scalar.toJson, Spells, tokens]
    exact laidOut_quoted s

/-! ## Parts between brackets -/

theorem isGap_octets {cs : List Char} (h : ∀ c ∈ cs, isBlank c = true) : IsGap (octets cs) := by
  have hone : ∀ c, isBlank c = true → IsGap (Utf8.encodeChar c) := by
    intro c hc
    simp only [isBlank, Bool.or_eq_true, decide_eq_true_eq] at hc
    rcases hc with ((rfl | rfl) | rfl) | rfl <;> exact fun octet ho => by
      rw [List.mem_singleton.1 ho]
      decide
  intro octet ho
  obtain ⟨c, hc, ho⟩ := List.mem_flatMap.1 ho
  exact hone c (h c hc) octet ho

/-- What precedes a value is white space. -/
theorem isGap_lead (s : Spacing) (depth : Nat) : IsGap (octets (s.lead depth)) := by
  apply isGap_octets
  intro c hc
  cases s with
  | compact => cases hc
  | pretty =>
    rcases List.mem_cons.1 hc with rfl | hc
    · rfl
    · rw [List.eq_of_mem_replicate hc]
      rfl

section

variable {α : Type} {parts : List α} {text : α → List Char} {tokens : α → List Token}

/-- Parts with commas between them. By induction on the parts. -/
theorem laidOut_intercalate (h : ∀ part ∈ parts, LaidOut (tokens part) (octets (text part))) :
    LaidOut (List.intercalate [.comma] (parts.map tokens))
      (octets (List.intercalate [','] (parts.map text))) := by
  have hcomma : LaidOut [.comma] (octets [',']) := laidOut_token trivial
  induction parts with
  | nil => exact laidOut_gap fun _ ho => (nomatch ho)
  | cons part parts ih =>
    have hpart := h part List.mem_cons_self
    cases parts with
    | nil => simpa only [List.map_cons, List.map_nil, List.intercalate_singleton] using hpart
    | cons next parts =>
      have hrest := ih fun p hp => h p (List.mem_cons_of_mem _ hp)
      simp only [List.map_cons, List.intercalate_cons_cons, Utf8.octets_append] at hrest ⊢
      exact (hpart.append hcomma).append hrest

theorem laidOut_bracketed (s : Spacing) (depth : Nat) {first last : Char} {opening closing : Token}
    (hfirst : LaidOut [opening] (octets [first])) (hlast : LaidOut [closing] (octets [last]))
    (h : ∀ part ∈ parts, LaidOut (tokens part) (octets (text part))) :
    LaidOut (opening :: List.intercalate [.comma] (parts.map tokens) ++ [closing])
      (octets (s.bracketed depth first last (parts.map text))) := by
  by_cases hnil : parts = []
  · subst hnil
    have hboth := hfirst.append hlast
    rw [← Utf8.octets_append] at hboth
    exact hboth
  let led := fun part => s.lead (depth + 1) ++ text part
  have hled : ∀ part ∈ parts, LaidOut (tokens part) (octets (led part)) := by
    intro part hpart
    rw [Utf8.octets_append]
    exact (h part hpart).behind (isGap_lead s (depth + 1))
  have hend := hlast.behind (isGap_lead s depth)
  have hall := (hfirst.append (laidOut_intercalate hled)).append hend
  have htext : s.bracketed depth first last (parts.map text) =
      [first] ++ List.intercalate [','] (parts.map led) ++ (s.lead depth ++ [last]) := by
    simp [Spacing.bracketed, led, hnil, Function.comp_def]
  rw [htext, Utf8.octets_append, Utf8.octets_append, Utf8.octets_append]
  exact hall

end

/-- A name with its value. -/
theorem laidOut_member (s : Spacing) {label value : List Char} {key : Bytes} {v : Json}
    (hlabel : LaidOut [.string key] (octets label)) (hvalue : v.Spells (octets value)) :
    LaidOut (.string key :: .colon :: v.tokens) (octets (s.member label value)) := by
  have hcolon : LaidOut [.colon] (octets s.colon) := by
    have hmark : LaidOut [.colon] (octets [':']) := laidOut_token trivial
    cases s with
    | compact => exact hmark
    | pretty =>
      have hspace : LaidOut [] (octets [' ']) :=
        laidOut_gap (isGap_octets (List.forall_mem_singleton.2 rfl))
      exact hmark.append hspace
  rw [Spacing.member, Utf8.octets_append, Utf8.octets_append]
  exact (hlabel.append hcolon).append hvalue

theorem spells_array (s : Spacing) (depth : Nat) {α : Type} {items : List α}
    {text : α → List Char} {value : α → Json}
    (h : ∀ a ∈ items, (value a).Spells (octets (text a))) :
    (array (items.map value)).Spells (octets (s.bracketed depth '[' ']' (items.map text))) := by
  have hfirst : LaidOut [.beginArray] (octets ['[']) := laidOut_token trivial
  have hlast : LaidOut [.endArray] (octets [']']) := laidOut_token trivial
  rw [Spells, tokens, List.map_map]
  exact laidOut_bracketed s depth hfirst hlast h

theorem spells_object (s : Spacing) (depth : Nat) {α : Type} {members : List α}
    {label text : α → List Char} {key : α → Bytes} {value : α → Json}
    (hk : ∀ m ∈ members, LaidOut [.string (key m)] (octets (label m)))
    (hv : ∀ m ∈ members, (value m).Spells (octets (text m))) :
    (object (members.map fun m => (key m, value m))).Spells (octets
      (s.bracketed depth '\x7b' '\x7d' (members.map fun m => s.member (label m) (text m)))) := by
  have hfirst : LaidOut [.beginObject] (octets ['\x7b']) := laidOut_token trivial
  have hlast : LaidOut [.endObject] (octets ['\x7d']) := laidOut_token trivial
  rw [Spells, tokens, List.map_map]
  exact laidOut_bracketed s depth hfirst hlast fun m hm => laidOut_member s (hk m hm) (hv m hm)

/-! ## Reports -/

theorem spells_content (s : Spacing) (c : Content) : c.toJson.Spells (octets (c.json s)) := by
  cases c with
  | scalar v => exact spells_scalar v
  | list items => exact spells_array s 1 fun v _ => spells_scalar v
  | record members =>
    exact spells_object s 1 (fun m _ => laidOut_label m.1) fun m _ => spells_scalar m.2

theorem spells_report (s : Spacing) (r : Report) : r.toJson.Spells (Utf8.encode (r.json s)) := by
  rw [Report.json, Utf8.encode_ofList]
  exact spells_object s 0 (fun entry _ => laidOut_quoted entry.1)
    fun entry _ => spells_content s entry.2

/-- A report with nothing but white space after it is read as its values. -/
theorem parse?_report (s : Spacing) (r : Report) {after : String}
    (ha : ∀ c ∈ after.toList, isBlank c = true) :
    Json.parse? (Utf8.encode (r.json s ++ after)) = some r.toJson := by
  have hsplit : Utf8.encode (r.json s ++ after) =
      Utf8.encode (r.json s) ++ octets after.toList := by
    rw [Utf8.encode, String.toList_append, List.flatMap_append]
    rfl
  have hall := (spells_report s r).append (laidOut_gap (isGap_octets ha))
  rw [List.append_nil, ← hsplit] at hall
  exact parse?_of_spells hall

end Json

end HotspotBackup
