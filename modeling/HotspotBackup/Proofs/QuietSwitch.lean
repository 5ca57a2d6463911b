import HotspotBackup.Proofs.Editing

/-!
# The switch for being quiet

The switch for being quiet, before arguments that do not give it, makes their
invocation quiet and changes nothing else about it.

* `Scope.hushed`: a scope in which the switch was given first.
* `Scope.Agrees`: reading goes on in such a scope as it does otherwise, up to
  the switch. `Scope.agrees_argument` and `Scope.agrees_close` say so of a whole
  argument and of the end.
* `Progress.step_hushed`, `Progress.foldlM_hushed`: one argument, and all of
  them.
* `parse_quiet`: the invocation.
-/

namespace HotspotBackup.CommandLine

/-- The same invocation, asked to be quiet. -/
def Invocation.hushed (i : Invocation) : Invocation :=
  { i with options := { i.options with quiet := true } }

/-! ## Scopes -/

namespace Scope

variable {s t : Scope}

/-- The scope with the switch for being quiet before all that was given. -/
def hushed (s : Scope) : Scope :=
  { s with given := (.quiet, "") :: s.given }

theorem has_hushed {w : Switch} (hw : w ≠ .quiet) : s.hushed.has w = s.has w := by
  simp [has, hushed, hw.symm]

/-- What comes of a scope comes, hushed, of the hushed scope, as long as the
switch for being quiet is not given. -/
def Agrees (s : Scope) (r r' : Except Refusal Scope) : Prop :=
  ∀ t, r = .ok t → t.has .quiet = false → s.has .quiet = false ∧ r' = .ok t.hushed

theorem agrees_error (s : Scope) (fault : Refusal) (r : Except Refusal Scope) :
    s.Agrees (.error fault) r := by
  intro t ht
  cases ht

theorem agrees_ok (h : t.given = s.given) : s.Agrees (.ok t) (.ok t.hushed) := by
  rintro _ ⟨⟩ hquiet
  exact ⟨by rwa [has, ← h], rfl⟩

theorem Agrees.bind {r r' : Except Refusal Scope} {next : Scope → Except Refusal Scope}
    (h : s.Agrees r r') (hnext : ∀ t : Scope, t.Agrees (next t) (next t.hushed)) :
    s.Agrees (r >>= next) (r' >>= next) := by
  intro u hu hquiet
  obtain ⟨t, hr, ht⟩ := bind_eq_ok_iff.1 hu
  obtain ⟨hloud, hnext⟩ := hnext t u ht hquiet
  obtain ⟨hs, hr'⟩ := h t hr hloud
  exact ⟨hs, bind_eq_ok_iff.2 ⟨t.hushed, hr', hnext⟩⟩

theorem Agrees.ite {c : Prop} [Decidable c] {a a' b b' : Except Refusal Scope}
    (ha : s.Agrees a a') (hb : s.Agrees b b') :
    s.Agrees (if c then a else b) (if c then a' else b') := by
  split
  · exact ha
  · exact hb

variable (s)

theorem agrees_giveSwitch (w : Switch) (value : String) :
    s.Agrees (s.giveSwitch w value) (s.hushed.giveSwitch w value) := by
  intro t ht hquiet
  unfold giveSwitch at ht
  split at ht
  · cases ht
  · rename_i hrefused
    cases ht
    obtain ⟨hs, hw⟩ : s.has .quiet = false ∧ w ≠ .quiet := by
      simpa [has] using hquiet
    rw [← has_hushed hw] at hrefused
    exact ⟨hs, if_neg hrefused⟩

theorem agrees_giveOperand (text : String) :
    s.Agrees (s.giveOperand text) (s.hushed.giveOperand text) :=
  .ite (agrees_ok rfl) (agrees_error s _ _)

theorem agrees_settle : s.Agrees s.settle s.hushed.settle := by
  obtain ⟨level, given, operands, pending, operandsOnly⟩ := s
  cases pending with
  | none => exact agrees_ok rfl
  | some p =>
    cases p with
    | operand text => exact agrees_giveOperand { level, given, operands, operandsOnly } text
    | switch w value =>
      cases value with
      | none => exact agrees_error _ _ _
      | some value => exact agrees_giveSwitch { level, given, operands, operandsOnly } w value

theorem agrees_flag (w : Switch) : s.Agrees (s.flag w) (s.hushed.flag w) :=
  (agrees_settle s).bind fun t => .ite (agrees_error t _ _) (agrees_giveSwitch t w "")

theorem agrees_attach (w : Switch) (value : List Char) :
    s.Agrees (s.attach w value) (s.hushed.attach w value) :=
  (agrees_settle s).bind fun t => agrees_giveSwitch t w _

theorem agrees_await (w : Switch) : s.Agrees (s.await w) (s.hushed.await w) :=
  (agrees_settle s).bind fun _ => agrees_ok rfl

theorem agrees_long (body : List Char) : s.Agrees (s.long body) (s.hushed.long body) := by
  simp only [long, show s.hushed.level = s.level from rfl]
  split
  · exact agrees_error s _ _
  · exact .ite (agrees_await s _) (agrees_flag s _)
  · exact .ite (agrees_attach s _ _) (agrees_error s _ _)

/-- By induction on the letters, each of which is read in the scope that the
ones before it left. -/
theorem agrees_short (letters : List Char) :
    s.Agrees (s.short letters) (s.hushed.short letters) := by
  induction letters generalizing s with
  | nil => exact agrees_ok rfl
  | cons letter rest ih =>
    simp only [short, show s.hushed.level = s.level from rfl]
    split
    · exact agrees_error s _ _
    · refine .ite ?_ ((agrees_flag s _).bind fun t => ih t)
      split
      · exact agrees_await s _
      · exact agrees_attach s _ _
      · exact agrees_attach s _ _

theorem agrees_operand (text : String) : s.Agrees (s.operand text) (s.hushed.operand text) :=
  .ite ((agrees_settle s).bind fun _ => agrees_ok rfl) (agrees_error s _ _)

theorem agrees_argument (text : String) :
    s.Agrees (s.argument text) (s.hushed.argument text) := by
  refine .ite (agrees_operand s text) ?_
  simp only [show s.hushed.awaited? = s.awaited? from rfl]
  split
  · exact agrees_ok rfl
  · exact agrees_long s _
  · exact agrees_short s _
  · split
    · exact agrees_ok rfl
    · exact agrees_operand s text

theorem agrees_close (e : Environment) : s.Agrees (s.close e) (s.hushed.close e) := by
  refine (agrees_settle s).bind fun t => ?_
  simp only [has_hushed (w := .config) nofun]
  exact .ite (agrees_error t _ _) (.ite (agrees_error t _ _) (agrees_ok rfl))

end Scope

/-- Scopes, the innermost first, of which the outermost is hushed. -/
def hushedLast : List Scope → List Scope
  | [] => []
  | [s] => [s.hushed]
  | s :: t :: outer => s :: hushedLast (t :: outer)

theorem mapM_close_hushedLast {e : Environment} {scopes found : List Scope}
    (h : scopes.mapM (Scope.close e) = .ok found) (hloud : ∀ t ∈ found, t.has .quiet = false) :
    (∀ s ∈ scopes, s.has .quiet = false) ∧
      (hushedLast scopes).mapM (Scope.close e) = .ok (hushedLast found) := by
  induction scopes generalizing found with
  | nil =>
    cases h
    exact ⟨by simp, rfl⟩
  | cons s outer ih =>
    rw [List.mapM_cons] at h
    obtain ⟨t, ht, h⟩ := bind_eq_ok_iff.1 h
    obtain ⟨rest, hrest, h⟩ := bind_eq_ok_iff.1 h
    cases h
    obtain ⟨hs, hclose⟩ := Scope.agrees_close s e t ht (hloud t (List.mem_cons_self ..))
    obtain ⟨houter, hmap⟩ := ih hrest fun u hu => hloud u (List.mem_cons_of_mem _ hu)
    refine ⟨List.forall_mem_cons.2 ⟨hs, houter⟩, ?_⟩
    cases outer with
    | nil =>
      cases hrest
      rw [hushedLast, List.mapM_cons, hclose]
      rfl
    | cons s' outer =>
      rw [hushedLast, List.mapM_cons, ht, hmap]
      rw [List.mapM_cons] at hrest
      obtain ⟨t', -, hrest⟩ := bind_eq_ok_iff.1 hrest
      obtain ⟨rest', -, hrest⟩ := bind_eq_ok_iff.1 hrest
      cases hrest
      rfl

/-! ## Progress -/

namespace Progress

/-- The progress, had the switch for being quiet been given first. -/
def hushed : Progress → Progress
  | reading s [] => reading s.hushed []
  | reading s (t :: outer) => reading s (hushedLast (t :: outer))
  | helping l => helping l

/-- Reading goes on, and the switch for being quiet was not given. -/
def Loud : Progress → Prop
  | reading s outer => ∀ t ∈ s :: outer, t.has .quiet = false
  | helping _ => False

section

variable {s : Scope} {outer : List Scope} {text : String} {p q : Progress}

theorem step_of_enters {inner : Level} (h : s.enters? text = some inner) (hinner : inner ≠ .help) :
    (reading s outer).step text = .ok (reading { level := inner } (s :: outer)) := by
  simp only [step, h]

theorem step_of_argument (h : s.enters? text = none) :
    (reading s outer).step text = (do return reading (← s.argument text) outer) := by
  simp only [step, h]

/-- An argument asks for help, enters a level, or is read at the present one. -/
theorem step_cases (h : (reading s outer).step text = .ok q) :
    q = helping s.level ∨
    (∃ inner, s.enters? text = some inner ∧ inner ≠ .help ∧
      q = reading { level := inner } (s :: outer)) ∨
    ∃ t, s.enters? text = none ∧ s.argument text = .ok t ∧ q = reading t outer := by
  cases hlevel : s.enters? text with
  | none =>
    rw [step_of_argument hlevel] at h
    obtain ⟨t, ht, h⟩ := bind_eq_ok_iff.1 h
    cases h
    exact .inr (.inr ⟨t, rfl, ht, rfl⟩)
  | some inner =>
    by_cases hinner : inner = .help
    · simp only [step, hlevel, hinner] at h
      cases h
      exact .inl rfl
    · rw [step_of_enters hlevel hinner] at h
      cases h
      exact .inr (.inl ⟨inner, rfl, hinner, rfl⟩)

/-- An argument that does not give the switch is read after it as without it. -/
theorem step_hushed (h : p.step text = .ok q) (hq : q.Loud) :
    p.Loud ∧ p.hushed.step text = .ok q.hushed := by
  cases p with
  | helping l =>
    simp only [step] at h
    split at h <;> cases h
    cases hq
  | reading s outer =>
    rcases step_cases h with rfl | ⟨inner, hlevel, hinner, rfl⟩ | ⟨t, hlevel, ht, rfl⟩
    · cases hq
    · refine ⟨(List.forall_mem_cons.1 hq).2, ?_⟩
      cases outer with
      | nil => exact step_of_enters (s := s.hushed) hlevel hinner
      | cons s' outer => exact step_of_enters hlevel hinner
    · obtain ⟨htloud, houter⟩ := List.forall_mem_cons.1 hq
      obtain ⟨hs, hargument⟩ := Scope.agrees_argument s text t ht htloud
      refine ⟨List.forall_mem_cons.2 ⟨hs, houter⟩, ?_⟩
      cases outer with
      | nil =>
        show (reading s.hushed []).step text = _
        rw [step_of_argument (s := s.hushed) hlevel, hargument]
        rfl
      | cons s' outer =>
        show (reading s _).step text = _
        rw [step_of_argument hlevel, ht]
        rfl

/-- By induction on the arguments: none of them gives the switch, as it would
still be given at the end. -/
theorem foldlM_hushed {arguments : List String} (h : arguments.foldlM step p = .ok q)
    (hq : q.Loud) : p.Loud ∧ arguments.foldlM step p.hushed = .ok q.hushed := by
  induction arguments generalizing p with
  | nil =>
    cases h
    exact ⟨hq, rfl⟩
  | cons text arguments ih =>
    rw [List.foldlM_cons] at h
    obtain ⟨next, hnext, h⟩ := bind_eq_ok_iff.1 h
    obtain ⟨hloud, hrest⟩ := ih h
    obtain ⟨hp, hstep⟩ := step_hushed hnext hloud
    rw [List.foldlM_cons, hstep]
    exact ⟨hp, hrest⟩

theorem close_hushed {e : Environment} {found : List Scope} (h : p.close e = .ok found)
    (hloud : ∀ t ∈ found, t.has .quiet = false) :
    p.Loud ∧ p.hushed.close e = .ok (hushedLast found) := by
  cases p with
  | helping l => cases h
  | reading s outer =>
    obtain ⟨closed, hclosed, h⟩ := bind_eq_ok_iff.1 h
    split at h
    · rename_i hcommand
      cases h
      obtain ⟨hs, hmap⟩ := mapM_close_hushedLast hclosed hloud
      refine ⟨hs, ?_⟩
      cases outer with
      | nil => exact bind_eq_ok_iff.2 ⟨_, hmap, if_pos hcommand⟩
      | cons s' outer => exact bind_eq_ok_iff.2 ⟨_, hmap, if_pos hcommand⟩
    · cases h

end

end Progress

/-! ## Invocations -/

section

variable {w : Switch}

theorem value?_cons_hushed (hw : w ≠ .quiet) (s : Scope) (outer : List Scope) :
    value? (s.hushed :: outer) w = value? (s :: outer) w := by
  have hfind : s.hushed.given.find? (·.1 = w) = s.given.find? (·.1 = w) :=
    List.find?_cons_of_neg (by simpa using hw.symm)
  simp only [value?, List.findSome?_cons, hfind]

theorem value?_hushedLast (hw : w ≠ .quiet) (scopes : List Scope) :
    value? (hushedLast scopes) w = value? scopes w := by
  fun_induction hushedLast scopes with
  | case1 => rfl
  | case2 s => exact value?_cons_hushed hw s []
  | case3 s t outer ih =>
    simp only [value?, List.findSome?_cons] at ih ⊢
    rw [ih]

theorem value?_quiet_hushedLast {scopes : List Scope} (h : scopes ≠ []) :
    (value? (hushedLast scopes) .quiet).isSome = true := by
  fun_induction hushedLast scopes with
  | case1 => exact absurd rfl h
  | case2 s => rfl
  | case3 s t outer ih =>
    simp only [value?, List.findSome?_cons] at ih ⊢
    split
    · rfl
    · exact ih nofun

theorem command?_hushed (s : Scope) : command? s.hushed = command? s := by
  have hhas : ∀ w, w ≠ .quiet → s.hushed.has w = s.has w := fun _ hw => Scope.has_hushed hw
  have hvalue : ∀ w, w ≠ .quiet → value? [s.hushed] w = value? [s] w :=
    fun _ hw => value?_cons_hushed hw s []
  simp only [command?, hhas .hex nofun, hhas .legacy nofun, hvalue .out nofun,
    hvalue .formatVersion nofun, hvalue .autoShutdown nofun]
  rfl

theorem command?_hushedLast (scopes : List Scope) :
    (hushedLast scopes).head? >>= command? = scopes.head? >>= command? := by
  fun_cases hushedLast scopes with
  | case1 => rfl
  | case2 s => exact command?_hushed s
  | case3 s t outer => rfl

theorem options_hushedLast (e : Environment) {found : List Scope} (h : found ≠ []) :
    options e (hushedLast found) = { options e found with quiet := true } := by
  simp only [options, value?_hushedLast (w := .config) nofun,
    value?_hushedLast (w := .output) nofun, value?_quiet_hushedLast h]

end

/-- Arguments that name a command, behind the switch for being quiet, name the
same command, made quiet. -/
theorem parse_quiet {e : Environment} {arguments : List String} {i : Invocation} {flag : String}
    (hflag : flag = "-q" ∨ flag = "--quiet") (hi : parse e arguments = .ok i)
    (hloud : i.options.quiet = false) : parse e (flag :: arguments) = .ok i.hushed := by
  obtain ⟨found, hfound, hi⟩ := bind_eq_ok_iff.1 hi
  obtain ⟨progress, hread, hclose⟩ := bind_eq_ok_iff.1 hfound
  split at hi
  · rename_i command hcommand
    cases hi
    have hnone : ∀ t ∈ found, t.has .quiet = false := by
      simpa [options, value?, Scope.has] using hloud
    have hsome : found ≠ [] := fun hnil => by
      rw [hnil] at hcommand
      cases hcommand
    obtain ⟨hprogress, hclose⟩ := Progress.close_hushed hclose hnone
    obtain ⟨-, hread⟩ := Progress.foldlM_hushed hread hprogress
    have hfirst : Progress.step (.reading { level := .program } []) flag =
        .ok (Progress.hushed (.reading { level := .program } [])) := by
      rcases hflag with rfl | rfl <;> rfl
    have hscopes : scopes e (flag :: arguments) = .ok (hushedLast found) := by
      rw [scopes, List.foldlM_cons, hfirst]
      exact bind_eq_ok_iff.2 ⟨progress.hushed, hread, hclose⟩
    refine bind_eq_ok_iff.2 ⟨_, hscopes, ?_⟩
    rw [command?_hushedLast, hcommand, options_hushedLast e hsome]
    rfl
  · cases hi

end HotspotBackup.CommandLine
