import HotspotBackup.Proofs.JsonTokens

/-!
# A text is read as the value that it says

What the reader of documents makes of the tokens of a value
(`parse?_of_spells`), whatever the text in which they are laid out.

* `Builds`: tokens that are one value, wherever it stands.
* `build?_items` and `build?_members`: what stands between brackets, by induction
  on what is left of it, on top of what was read.
* `builds_tokens`: so the tokens of a value are that value, by induction on it.
-/

namespace HotspotBackup.Json

/-- Tokens are one value, whatever is open before it and whatever follows. -/
def Builds (tokens : List Token) (v : Json) : Prop :=
  ∀ stack rest, build? .value stack (tokens ++ rest) = build? (.separator v) stack rest

/-- What is read as a value does not begin with the end of an array. -/
theorem Builds.exists_cons {ts : List Token} {v : Json} (h : Builds ts v) :
    ∃ t rest, ts = t :: rest ∧ t ≠ .endArray := by
  have hv : build? .value [] ts = some v := by
    have h := h [] []
    rw [List.append_nil] at h
    exact h.trans (build?_separator v)
  cases ts with
  | nil => simp [build?] at hv
  | cons t rest =>
    refine ⟨t, rest, rfl, ?_⟩
    rintro rfl
    simp [build?] at hv

/-! ## Arrays -/

/-- What is no end of an array begins a value. -/
theorem build?_valueOrEnd {t : Token} (h : t ≠ .endArray) (stack : List Frame)
    (rest : List Token) :
    build? .valueOrEnd stack (t :: rest) = build? .value stack (t :: rest) := by
  cases t <;> first | exact absurd rfl h | simp [build?]

/-- The items of an array, on top of those that were read. -/
theorem build?_items {items : List Json} (hne : items ≠ [])
    (h : ∀ v ∈ items, Builds v.tokens v) (read : List Json) (stack : List Frame)
    (rest : List Token) :
    build? .value (.array read :: stack)
        (List.intercalate [.comma] (items.map tokens) ++ .endArray :: rest) =
      build? (.separator (.array (read.reverse ++ items))) stack rest := by
  induction items generalizing read with
  | nil => exact absurd rfl hne
  | cons v items ih =>
    have hv := h v List.mem_cons_self
    cases items with
    | nil =>
      simp only [List.map_cons, List.map_nil, List.intercalate_singleton]
      rw [hv, build?]
      simp
    | cons next items =>
      have hrest := ih (by simp) (fun w hw => h w (List.mem_cons_of_mem _ hw)) (v :: read)
      simp only [List.map_cons, List.intercalate_cons_cons, List.append_assoc] at hrest ⊢
      rw [hv, List.singleton_append, build?, hrest]
      simp

/-- Parts with commas between them begin as the first one does. -/
theorem exists_intercalate_cons (t : Token) (rest : List Token) (parts : List (List Token)) :
    ∃ tail, List.intercalate [.comma] ((t :: rest) :: parts) = t :: tail := by
  cases parts with
  | nil => exact ⟨rest, by rw [List.intercalate_singleton]⟩
  | cons next parts => exact ⟨_, by rw [List.intercalate_cons_cons]; rfl⟩

theorem builds_array {items : List Json} (h : ∀ v ∈ items, Builds v.tokens v) :
    Builds (array items).tokens (.array items) := by
  intro stack rest
  rw [tokens, List.cons_append, List.cons_append, List.append_assoc, List.singleton_append, build?]
  cases items with
  | nil =>
    rw [List.map_nil, List.intercalate_nil, List.nil_append, build?]
  | cons v items =>
    have hitems := build?_items (List.cons_ne_nil v items) h [] stack rest
    obtain ⟨t, first, hfirst, ht⟩ := (h v List.mem_cons_self).exists_cons
    obtain ⟨tail, htail⟩ := exists_intercalate_cons t first (items.map tokens)
    rw [List.map_cons, hfirst, htail, List.cons_append] at hitems ⊢
    rw [build?_valueOrEnd ht, hitems]
    rfl

/-! ## Objects -/

/-- The members of an object, on top of those that were read: each is a name, a
colon and the tokens of a value. -/
theorem build?_members {members : List (Bytes × Json)} (hne : members ≠ [])
    (h : ∀ m ∈ members, Builds m.2.tokens m.2) (read : List (Bytes × Json))
    (stack ignored : List Frame) (rest : List Token) :
    build? (.key read stack) ignored
        (List.intercalate [.comma] (members.map fun m => .string m.1 :: .colon :: m.2.tokens) ++
          .endObject :: rest) =
      build? (.separator (.object (read.reverse ++ members))) stack rest := by
  induction members generalizing read ignored with
  | nil => exact absurd rfl hne
  | cons m members ih =>
    have hm := h m List.mem_cons_self
    cases members with
    | nil =>
      simp only [List.map_cons, List.map_nil, List.intercalate_singleton, List.cons_append]
      rw [build?, build?, hm, build?]
      simp
    | cons next members =>
      have hrest := ih (by simp) (fun m hm => h m (List.mem_cons_of_mem _ hm)) (m :: read) stack
      simp only [List.map_cons, List.intercalate_cons_cons, List.append_assoc,
        List.cons_append] at hrest ⊢
      rw [build?, build?, hm, List.nil_append, build?, hrest]
      simp

theorem builds_object {members : List (Bytes × Json)} (h : ∀ m ∈ members, Builds m.2.tokens m.2) :
    Builds (object members).tokens (.object members) := by
  intro stack rest
  rw [tokens, List.cons_append, List.cons_append, List.append_assoc, List.singleton_append, build?]
  cases members with
  | nil =>
    rw [List.map_nil, List.intercalate_nil, List.nil_append, build?]
  | cons m members =>
    have hmembers := build?_members (List.cons_ne_nil m members) h [] stack stack rest
    obtain ⟨tail, htail⟩ := exists_intercalate_cons (.string m.1) (.colon :: m.2.tokens)
      (members.map fun m => .string m.1 :: .colon :: m.2.tokens)
    -- a name is read alike after the start of an object and after a comma
    have hname : ∀ rest, build? (.keyOrEnd stack) stack (.string m.1 :: rest) =
        build? (.key [] stack) stack (.string m.1 :: rest) := fun rest => by
      rw [build?, build?]
    rw [List.map_cons, htail, List.cons_append] at hmembers ⊢
    rw [hname, hmembers]
    rfl

/-! ## Values -/

/-- The tokens of a value are read as that value. By induction on the value. -/
theorem builds_tokens (v : Json) : Builds v.tokens v := by
  induction v using tokens.induct with
  | case1 | case2 | case3 | case4 =>
    intro stack rest
    rw [tokens, List.singleton_append, build?]
  | case5 items ih => exact builds_array ih
  | case6 members ih => exact builds_object ih

/-- A text is read as the value that it says. -/
theorem parse?_of_spells {v : Json} {text : Bytes} (h : v.Spells text) :
    Json.parse? text = some v := by
  have hb := builds_tokens v [] []
  rw [List.append_nil] at hb
  rw [Json.parse?, scan_of_spells h]
  exact hb.trans (build?_separator v)

end HotspotBackup.Json
