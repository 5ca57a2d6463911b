import HotspotBackup.Wire.Reader

/-!
# Readers and the encodings they accept

What a reader accepts is stated as a relation `E` between values and octets.
`Recognizes r E` says all there is to say of `r` and `E`:

* `complete`: a value is read off each of its encodings, whatever follows,
  and what follows is left;
* `sound`: what was read stood there as an encoding;
* `truncated`: an encoding that is cut short is reported as truncated, so
  that no encoding is the beginning of another (`unique`).

It is proved once for each way in which readers are put together (`pure`,
`bind`, `check`, `map`, `replicate`, `counted`) and for `octets`, the one
primitive beneath them all.
-/

namespace HotspotBackup.Wire.Reader

/-- Reading of `q` fails since some field wants more octets than are left. -/
def Truncates (r : Reader α) (q : Bytes) : Prop :=
  ∃ field need remain rest,
    r q = (.error (.truncated field need remain), rest) ∧ remain < need

theorem bind_ok {r : Reader α} {next : α → Reader β} {b rest : Bytes} {a : α}
    (h : r b = (.ok a, rest)) : (r >>= next) b = next a rest := by
  rw [bind_run, h]

theorem truncates_bind {r : Reader α} {next : α → Reader β} {q : Bytes} (h : r.Truncates q) :
    (r >>= next).Truncates q := by
  obtain ⟨field, need, remain, rest, hr, hlt⟩ := h
  exact ⟨field, need, remain, rest, by rw [bind_run, hr], hlt⟩

theorem exists_of_bind_eq_ok {r : Reader α} {next : α → Reader β} {b rest : Bytes} {c : β}
    (h : (r >>= next) b = (.ok c, rest)) : ∃ a s, r b = (.ok a, s) ∧ next a s = (.ok c, rest) := by
  rw [bind_run] at h
  split at h
  · rename_i a s hr
    exact ⟨a, s, hr, h⟩
  · cases h

/-- A beginning of two runs ends within the first one, or it is the first
one and a beginning of the second. -/
theorem prefix_append_cases {q e₁ e₂ : Bytes} (h : q <+: e₁ ++ e₂) (hne : q ≠ e₁ ++ e₂) :
    (q <+: e₁ ∧ q ≠ e₁) ∨ ∃ q₂, q = e₁ ++ q₂ ∧ q₂ <+: e₂ ∧ q₂ ≠ e₂ := by
  by_cases hq : e₁ <+: q
  · obtain ⟨q₂, rfl⟩ := hq
    exact .inr ⟨q₂, rfl, (List.prefix_append_right_inj e₁).1 h, fun he => hne (he ▸ rfl)⟩
  · have hq' := (List.prefix_or_prefix_of_prefix h (List.prefix_append e₁ e₂)).resolve_right hq
    exact .inl ⟨hq', fun he => hq (he ▸ List.prefix_rfl)⟩

/-- A reader accepts exactly the encodings of the relation `E`, and reports
one that is cut short as truncated. -/
structure Recognizes (r : Reader α) (E : α → Bytes → Prop) : Prop where
  complete {a : α} {e : Bytes} (rest : Bytes) : E a e → r (e ++ rest) = (.ok a, rest)
  sound {b : Bytes} {a : α} {rest : Bytes} : r b = (.ok a, rest) → ∃ e, E a e ∧ b = e ++ rest
  truncated {a : α} {e q : Bytes} : E a e → q <+: e → q ≠ e → r.Truncates q

namespace Recognizes

variable {r : Reader α} {E E' : α → Bytes → Prop}

theorem congr (hr : Recognizes r E) (h : ∀ a e, E a e ↔ E' a e) : Recognizes r E' where
  complete rest he := hr.complete rest ((h _ _).2 he)
  sound hb := by
    obtain ⟨e, he, rfl⟩ := hr.sound hb
    exact ⟨e, (h _ _).1 he, rfl⟩
  truncated he := hr.truncated ((h _ _).2 he)

/-- Octets begin with one encoding at most, of one value. -/
theorem unique (hr : Recognizes r E) {a a' : α} {e e' s s' : Bytes} (he : E a e) (he' : E a' e')
    (h : e ++ s = e' ++ s') : a = a' ∧ e = e' ∧ s = s' := by
  have h₁ := hr.complete s he
  rw [h, hr.complete s' he', Prod.mk.injEq, Except.ok.injEq] at h₁
  obtain ⟨rfl, rfl⟩ := h₁
  exact ⟨rfl, List.append_cancel_right h, rfl⟩

/-! ## Putting readers together -/

theorem pure (a : α) : Recognizes (pure a) fun v e => v = a ∧ e = [] where
  complete rest h := by obtain ⟨rfl, rfl⟩ := h; rfl
  sound h := by cases h; exact ⟨[], ⟨rfl, rfl⟩, rfl⟩
  truncated h hq hne := by
    obtain ⟨-, rfl⟩ := h
    exact absurd (List.prefix_nil.1 hq) hne

theorem bind {next : α → Reader β} {F : α → β → Bytes → Prop} (hr : Recognizes r E)
    (hn : ∀ a, Recognizes (next a) (F a)) :
    Recognizes (r >>= next) fun c e => ∃ a e₁ e₂, E a e₁ ∧ F a c e₂ ∧ e = e₁ ++ e₂ where
  complete rest h := by
    obtain ⟨a, e₁, e₂, h₁, h₂, rfl⟩ := h
    rw [List.append_assoc, bind_ok (hr.complete _ h₁), (hn a).complete _ h₂]
  sound h := by
    obtain ⟨a, s, h₁, h₂⟩ := exists_of_bind_eq_ok h
    obtain ⟨e₁, he₁, rfl⟩ := hr.sound h₁
    obtain ⟨e₂, he₂, rfl⟩ := (hn a).sound h₂
    exact ⟨e₁ ++ e₂, ⟨a, e₁, e₂, he₁, he₂, rfl⟩, (List.append_assoc ..).symm⟩
  truncated h hq hne := by
    obtain ⟨a, e₁, e₂, h₁, h₂, rfl⟩ := h
    rcases prefix_append_cases hq hne with ⟨hq, hne⟩ | ⟨q₂, rfl, hq, hne⟩
    · exact truncates_bind (hr.truncated h₁ hq hne)
    · obtain ⟨field, need, remain, rest, ht, hlt⟩ := (hn a).truncated h₂ hq hne
      exact ⟨field, need, remain, rest, by rw [bind_ok (hr.complete _ h₁), ht], hlt⟩

/-- A value that is read and then kept, translated or refused. -/
theorem check (hr : Recognizes r E) (next : α → Reader β) (f : α → Option β)
    (hsome : ∀ a c, f a = some c → next a = Pure.pure c)
    (hnone : ∀ a, f a = none → ∃ cause, next a = fail cause) :
    Recognizes (r >>= next) fun c e => ∃ a, E a e ∧ f a = some c where
  complete rest h := by
    obtain ⟨a, he, hf⟩ := h
    rw [bind_ok (hr.complete _ he), hsome a _ hf, pure_run]
  sound h := by
    obtain ⟨a, s, h₁, h₂⟩ := exists_of_bind_eq_ok h
    obtain ⟨e, he, rfl⟩ := hr.sound h₁
    cases hf : f a with
    | none =>
      obtain ⟨cause, hc⟩ := hnone a hf
      rw [hc, fail_run] at h₂
      cases h₂
    | some c =>
      rw [hsome a c hf, pure_run] at h₂
      cases h₂
      exact ⟨e, ⟨a, he, hf⟩, rfl⟩
  truncated h hq hne := by
    obtain ⟨a, he, -⟩ := h
    exact truncates_bind (hr.truncated he hq hne)

theorem map (f : α → β) (hr : Recognizes r E) :
    Recognizes (f <$> r) fun c e => ∃ a, E a e ∧ f a = c := by
  have h := hr.check (fun a => Pure.pure (f a)) (fun a => some (f a))
    (fun a c h => by cases h; rfl) (fun a h => by cases h)
  exact h.congr fun c e => by simp only [Option.some.injEq]

theorem ofOption (hr : Recognizes r E) (cause : α → Malformation) (f : α → Option β) :
    Recognizes (r >>= fun a => Reader.ofOption (cause a) (f a)) fun c e =>
      ∃ a, E a e ∧ f a = some c :=
  hr.check _ f (fun a c h => by rw [h]; rfl) fun a h => ⟨cause a, by rw [h]; rfl⟩

/-- A reader that is refused on a condition known before it begins. -/
theorem guarded {p : Prop} [Decidable p] (cause : Malformation) (hr : Recognizes r E) :
    Recognizes (if p then fail cause else r) fun a e => ¬ p ∧ E a e := by
  by_cases hp : p
  · rw [if_pos hp]
    exact ⟨fun _ h => absurd hp h.1, fun h => (nomatch h), fun h => absurd hp h.1⟩
  · rw [if_neg hp]
    exact hr.congr fun a e => (and_iff_right hp).symm

/-- Values that are read one after another. -/
theorem replicate {w : α → Bytes} (hr : Recognizes r fun a e => e = w a) (n : Nat) :
    Recognizes (Reader.replicate n r) fun as e => as.length = n ∧ e = as.flatMap w := by
  induction n with
  | zero =>
    refine (Recognizes.pure []).congr fun as e => ?_
    rw [List.length_eq_zero_iff]
    constructor <;> rintro ⟨rfl, rfl⟩ <;> exact ⟨rfl, rfl⟩
  | succ n ih =>
    refine (hr.bind fun a => ih.bind fun as => Recognizes.pure (a :: as)).congr fun as e => ?_
    refine ⟨fun h => ?_, fun h => ?_⟩
    · obtain ⟨a, -, -, rfl, ⟨as, -, -, ⟨hl, rfl⟩, ⟨rfl, rfl⟩, rfl⟩, rfl⟩ := h
      exact ⟨by simp [hl], by simp⟩
    · obtain ⟨hl, rfl⟩ := h
      cases as with
      | nil => simp at hl
      | cons a as =>
        exact ⟨a, _, _, rfl, ⟨as, _, _, ⟨by simpa using hl, rfl⟩, ⟨rfl, rfl⟩, rfl⟩, by simp⟩

theorem octets (field : String) (n : Nat) :
    Recognizes (octets field n) fun a e => e = a ∧ a.length = n where
  complete rest h := by
    obtain ⟨rfl, rfl⟩ := h
    rw [Reader.octets, if_neg (by simp), List.take_left, List.drop_left]
  sound {b a rest} h := by
    unfold Reader.octets at h
    split at h
    · cases h
    · rename_i hb
      cases h
      exact ⟨b.take n, ⟨rfl, by rw [List.length_take]; omega⟩, (List.take_append_drop n b).symm⟩
  truncated {a e q} h hq hne := by
    obtain ⟨rfl, rfl⟩ := h
    have hl : q.length < e.length := by
      rcases Nat.lt_or_eq_of_le hq.length_le with hl | hl
      · exact hl
      · exact absurd (hq.eq_of_length hl) hne
    exact ⟨field, e.length, q.length, q, by rw [Reader.octets, if_pos hl], hl⟩

end Recognizes

end HotspotBackup.Wire.Reader
