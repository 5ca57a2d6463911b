import HotspotBackup.CommandLine.Invocation

/-!
# What is spelled out is given

Arguments give a level its operands and switches. Each of these can be spelled out
(`Item.spell`), and arguments that spell some of them out give just these, in
whichever order they stand.

* `exists_of_spell`: what is spelled out is given, once it is settled.
* `parse_spell`: so a command is asked for by its name and what is given to it;
  `parse_encode` and `parse_decode` are two such commands.
* `parse_edit`: a setting is edited by any name, to any value.
-/

namespace HotspotBackup.CommandLine

/-- What can be given at a level. -/
inductive Item where
  | operand (text : String)
  | value (w : Switch) (text : String)
  | flag (w : Switch)

/-- A text that cannot be taken for a switch. A lone hyphen is none. -/
def Plain (text : String) : Prop :=
  text.toList.head? = some '-' → text.toList = ['-']

instance (text : String) : Decidable (Plain text) :=
  inferInstanceAs (Decidable (_ → _))

theorem Plain.toList_ne {text : String} (h : Plain text) (c : Char) (rest : List Char) :
    text.toList ≠ '-' :: c :: rest := by
  intro htext
  have hlone := h (congrArg List.head? htext)
  rw [htext] at hlone
  cases hlone

namespace Item

/-- The arguments that give something. -/
def spell : Item → List String
  | operand text => [text]
  | value w text => ["--" ++ w.long, text]
  | flag w => ["--" ++ w.long]

/-- Whether something can be spelled out at a level, other than a request for
help or for the version. -/
def Spellable (l : Level) : Item → Prop
  | operand text => Plain text
  | value w text => w ∈ l.switches ∧ w.takesValue = true ∧ Plain text
  | flag w => w ∈ l.switches ∧ w.takesValue = false ∧ w ≠ .help ∧ w ≠ .version

end Item

/-! ## Scopes -/

namespace Scope

/-- The scope with something given to it, which it must accept. -/
def give (s : Scope) : Item → Except Refusal Scope
  | .operand text => s.giveOperand text
  | .value w text => s.giveSwitch w text
  | .flag w => s.giveSwitch w ""

/-- Nothing is pending in a scope that reads switches and operands alike. -/
structure Open (s : Scope) : Prop where
  pending : s.pending = none
  operandsOnly : s.operandsOnly = false

variable {s t u : Scope}

theorem Open.give (hs : s.Open) (item : Item) (h : s.give item = .ok t) :
    t.Open ∧ t.level = s.level := by
  cases item <;>
  · simp only [Scope.give, giveOperand, giveSwitch] at h
    split at h <;> cases h
    exact ⟨⟨hs.pending, hs.operandsOnly⟩, rfl⟩

/-- A scope that will be settled as another one, which is open. -/
structure Settles (s t : Scope) : Prop where
  settle : s.settle = .ok t
  isOpen : t.Open
  level : s.level = t.level
  operandsOnly : s.operandsOnly = false
  awaited : s.awaited? = none
  count : s.operandCount = t.operands.length

theorem Open.settles (h : s.Open) : s.Settles s where
  settle := by rw [Scope.settle, h.pending]
  isOpen := h
  level := rfl
  operandsOnly := h.operandsOnly
  awaited := by rw [awaited?, h.pending]
  count := by rw [operandCount, h.pending]; rfl

/-- The argument of a text that cannot be taken for a switch. -/
theorem argument_plain {text : String} (hs : s.operandsOnly = false) (h : Plain text) :
    s.argument text = match s.awaited? with
      | some w => .ok { s with pending := some (.switch w (some text)) }
      | none => s.operand text := by
  rw [argument, hs, if_neg Bool.false_ne_true]
  split
  · rename_i htext
    exact absurd htext (h.toList_ne _ _)
  · rename_i htext
    exact absurd htext (h.toList_ne _ _)
  · rename_i htext
    exact absurd htext (h.toList_ne _ _)
  · rfl

/-- The argument of the name of a switch. -/
theorem argument_long {w : Switch} (hs : s.operandsOnly = false) (hw : w ∈ s.level.switches) :
    s.argument ("--" ++ w.long) = if w.takesValue then s.await w else s.flag w := by
  have hlong : s.argument ("--" ++ w.long) = s.long w.long.toList := by
    rw [argument, hs, if_neg Bool.false_ne_true]
    cases w <;> rfl
  have hname : String.ofList (w.long.toList.takeWhile (· ≠ '=')) = w.long ∧
      w.long.toList.dropWhile (· ≠ '=') = [] := by
    cases w <;> decide
  have hfind : ∀ l : Level, ∀ w ∈ l.switches, l.switches.find? (·.long = w.long) = some w := by
    intro l
    cases l <;> decide
  rw [hlong, long, hname.1, hname.2, hfind _ _ hw]

/-- The scope with something pending. -/
def holding (t : Scope) (p : Pending) : Scope :=
  { t with pending := some p }

theorem Open.eta (h : t.Open) : { t with pending := none } = t := by
  obtain ⟨hpending, -⟩ := h
  cases t
  exact congrArg (Scope.mk _ _ _ · _) hpending.symm

/-- An operand that is pending. -/
theorem Open.settles_operand (ht : t.Open) {text : String} (h : t.giveOperand text = .ok u) :
    (t.holding (.operand text)).Settles u := by
  obtain ⟨hu, hlevel⟩ := ht.give (.operand text) h
  refine ⟨?_, hu, hlevel.symm, ht.operandsOnly, rfl, ?_⟩
  · exact (congrArg (giveOperand · text) ht.eta).trans h
  · rw [giveOperand] at h
    split at h <;> cases h
    show t.operands.length + 1 = (t.operands ++ [text]).length
    rw [List.length_append, List.length_singleton]

/-- A switch that is pending with its value. -/
theorem Open.settles_switch (ht : t.Open) {w : Switch} {text : String}
    (h : t.giveSwitch w text = .ok u) : (t.holding (.switch w (some text))).Settles u := by
  obtain ⟨hu, hlevel⟩ := ht.give (.value w text) h
  refine ⟨?_, hu, hlevel.symm, ht.operandsOnly, rfl, ?_⟩
  · exact (congrArg (giveSwitch · w text) ht.eta).trans h
  · rw [giveSwitch] at h
    split at h <;> cases h
    rfl

theorem length_lt_of_giveOperand {text : String} (h : t.giveOperand text = .ok u) :
    t.operands.length < t.level.operands.length := by
  rw [giveOperand] at h
  split at h
  · rename_i haccepted
    obtain ⟨place, hplace, -⟩ := Option.any_eq_true _ _ |>.1 haccepted
    exact (List.getElem?_eq_some_iff.1 hplace).1
  · cases h

end Scope

/-! ## Arguments -/

open Scope (Settles)

variable {s t u : Scope} (outer : List Scope)

theorem step_reading {text : String} (hl : s.level.subcommands = [])
    (h : s.argument text = .ok u) :
    Progress.step (.reading s outer) text = .ok (.reading u outer) := by
  have henters : s.enters? text = none := by
    rw [Scope.enters?, Level.subcommand?, hl]
    exact ite_self none
  rw [Progress.step, henters]
  simp only [h]
  rfl

/-- What is spelled out is given, once it is settled. -/
theorem exists_of_spell_item (hs : s.Settles t) (hl : s.level.subcommands = []) {item : Item}
    (hi : item.Spellable s.level) (h : t.give item = .ok u) :
    ∃ s', item.spell.foldlM Progress.step (.reading s outer) = .ok (.reading s' outer) ∧
      s'.Settles u := by
  have ht := hs.isOpen
  cases item with
  | operand text =>
    have hlt : s.operandCount < s.level.operands.length := by
      rw [hs.count, hs.level]
      exact Scope.length_lt_of_giveOperand h
    have hargument : s.argument text = .ok (t.holding (.operand text)) := by
      rw [Scope.argument_plain hs.operandsOnly hi, hs.awaited]
      simp only [Scope.operand, hlt, ↓reduceIte, hs.settle]
      rfl
    refine ⟨_, ?_, ht.settles_operand h⟩
    rw [Item.spell, List.foldlM_cons, step_reading outer hl hargument]
    rfl
  | value w text =>
    obtain ⟨hw, hvalue, hplain⟩ := hi
    have hname : s.argument ("--" ++ w.long) = .ok (t.holding (.switch w none)) := by
      rw [Scope.argument_long hs.operandsOnly hw, if_pos hvalue, Scope.await, hs.settle]
      rfl
    have hargument : (t.holding (.switch w none)).argument text =
        .ok (t.holding (.switch w (some text))) := by
      rw [Scope.argument_plain (s := t.holding (.switch w none)) ht.operandsOnly hplain]
      rfl
    have hlevel : (t.holding (.switch w none)).level.subcommands = [] := hs.level ▸ hl
    refine ⟨_, ?_, ht.settles_switch h⟩
    have hrest : [text].foldlM Progress.step (.reading (t.holding (.switch w none)) outer) =
        .ok (.reading (t.holding (.switch w (some text))) outer) := by
      rw [List.foldlM_cons, step_reading outer hlevel hargument]
      rfl
    rw [Item.spell, List.foldlM_cons, step_reading outer hl hname]
    exact hrest
  | flag w =>
    obtain ⟨hw, hvalue, hhelp, hversion⟩ := hi
    have hargument : s.argument ("--" ++ w.long) = .ok u := by
      have hasks : ¬ (w = .help ∨ w = .version) := not_or.2 ⟨hhelp, hversion⟩
      rw [Scope.argument_long hs.operandsOnly hw, hvalue, if_neg Bool.false_ne_true, Scope.flag,
        hs.settle]
      simp only [bind, Except.bind, if_neg hasks]
      exact h
    refine ⟨u, ?_, (ht.give _ h).1.settles⟩
    rw [Item.spell, List.foldlM_cons, step_reading outer hl hargument]
    rfl

/-- By induction on what is spelled out: each thing is given to the scope that
those before it settle as. -/
theorem exists_of_spell {items : List Item} (hs : s.Settles t) (hl : s.level.subcommands = [])
    (hi : ∀ item ∈ items, item.Spellable s.level) (h : items.foldlM Scope.give t = .ok u) :
    ∃ s', (items.flatMap (·.spell)).foldlM Progress.step (.reading s outer) =
      .ok (.reading s' outer) ∧ s'.Settles u ∧ s'.level = s.level := by
  induction items generalizing s t with
  | nil =>
    cases h
    exact ⟨s, rfl, hs, rfl⟩
  | cons item items ih =>
    rw [List.foldlM_cons] at h
    cases ht' : t.give item with
    | error r =>
      rw [ht'] at h
      cases h
    | ok t' =>
      rw [ht'] at h
      have hitem := hi item List.mem_cons_self
      obtain ⟨s', hs', hsettles⟩ := exists_of_spell_item outer hs hl hitem ht'
      have hlevel : s'.level = s.level := by
        rw [hsettles.level, hs.level, (hs.isOpen.give item ht').2]
      have hrest : ∀ item ∈ items, item.Spellable s'.level := fun other ho =>
        hlevel.symm ▸ hi other (List.mem_cons_of_mem _ ho)
      obtain ⟨s'', hs'', hu, hlevel'⟩ := ih hsettles (hlevel.symm ▸ hl) hrest h
      refine ⟨s'', ?_, hu, hlevel'.trans hlevel⟩
      rw [List.flatMap_cons, List.foldlM_append, hs']
      exact hs''

/-- A scope with all of its operands is closed, unless the environment gives
the file of settings an empty path. -/
theorem close_of_settle {e : Environment} (he : e.get? "SOFTAP_CONFIG" ≠ some "")
    (hs : s.settle = .ok t) (ht : t.level.operands.length ≤ t.operands.length) :
    s.close e = .ok t := by
  have hnamed : (if t.has .config then none else e.get? "SOFTAP_CONFIG").any
      (!Switch.config.accepts ·) = false := by
    split
    · rfl
    · cases hc : e.get? "SOFTAP_CONFIG" with
      | none => rfl
      | some path =>
        have hpath : path ≠ "" := fun h => he (h ▸ hc)
        simp [Switch.accepts, hpath]
  rw [Scope.close, hs]
  simp only [bind, Except.bind, hnamed, Bool.false_eq_true, ↓reduceIte, Nat.not_lt.2 ht]

/-- A command is asked for by its name and what is given to it. -/
theorem parse_spell {e : Environment} (name : String) {l : Level} {items : List Item}
    {command : Command} (hname : Level.program.subcommand? name = some l)
    (hl : l.subcommands = []) (hhelp : l ≠ .help) (hi : ∀ item ∈ items, item.Spellable l)
    (h : items.foldlM Scope.give { level := l } = .ok t)
    (ht : t.level.operands.length ≤ t.operands.length) (hcommand : command? t = some command)
    (he : e.get? "SOFTAP_CONFIG" ≠ some "") :
    parse e (name :: items.flatMap (·.spell)) =
      .ok { options := options e [t, { level := .program }], command } := by
  have hopen : ∀ level, Scope.Open { level } := fun level => ⟨rfl, rfl⟩
  have henters : Progress.step (.reading { level := .program } []) name =
      .ok (.reading { level := l } [{ level := .program }]) := by
    have henters : Scope.enters? { level := .program } name = some l := hname
    rw [Progress.step, henters]
    cases l <;> first | rfl | exact absurd rfl hhelp
  obtain ⟨s, hs, hsettles, hlevel⟩ :=
    exists_of_spell [{ level := .program }] (hopen l).settles hl hi h
  have hclose := close_of_settle he hsettles.settle ht
  have hprogram : Scope.close e { level := .program } = .ok { level := .program } :=
    close_of_settle he rfl (Nat.zero_le _)
  have hscopes : scopes e (name :: items.flatMap (·.spell)) =
      .ok [t, { level := .program }] := by
    rw [scopes, List.foldlM_cons, henters]
    refine (congrArg (· >>= _) hs).trans ?_
    simp only [bind, Except.bind, Progress.close, List.mapM_cons, hclose, hprogram, hlevel, hl]
    rfl
  rw [parse, hscopes]
  simp only [bind, Except.bind, List.head?_cons, Option.bind, hcommand]
  rfl

/-! ## The commands of backups -/

/-- A text that can be the path of a file on a command line. -/
structure NamesFile (path : String) : Prop where
  plain : Plain path
  nonempty : path ≠ ""

theorem NamesFile.giveOperand {l : Level} (hl : l.operands = [.path]) {path : String}
    (h : NamesFile path) :
    Scope.giveOperand { level := l } path = .ok { level := l, operands := [path] } := by
  simp [Scope.giveOperand, hl, Operand.accepts, h.nonempty]

/-- What asks for a backup of a document in a file. -/
def encodeItems (input number path : String) (hex : Bool) : List Item :=
  [.operand input, .value .formatVersion number, .value .out path] ++
    if hex then [.flag .hex] else []

/-- A scope that all of this is given to. -/
def encodeScope (input number path : String) (hex : Bool) : Scope where
  level := .encode
  given := [(.formatVersion, number), (.out, path)] ++ if hex then [(.hex, "")] else []
  operands := [input]

theorem give_encodeItems {input number path : String} (hinput : NamesFile input)
    (hnumber : Switch.formatVersion.accepts number = true) (hpath : NamesFile path) (hex : Bool) :
    (encodeItems input number path hex).foldlM Scope.give { level := .encode } =
      .ok (encodeScope input number path hex) := by
  have hoperand := hinput.giveOperand (l := .encode) rfl
  have hout : Switch.out.accepts path = true := decide_eq_true hpath.nonempty
  have hhex : Switch.hex.accepts "" = true := rfl
  cases hex <;>
    simp [encodeItems, encodeScope, Scope.give, hoperand, Scope.giveSwitch, hnumber, hout, hhex,
      Scope.has, bind, Except.bind] <;>
    rfl

theorem command?_encodeScope {input number path : String} {v : Int32}
    (hv : int32? number = some v) (hex : Bool) :
    command? (encodeScope input number path hex) =
      some (.encode input (some path) (some v) hex) := by
  have hcommand : command? (encodeScope input number path hex) =
      some (.encode input (some path) (int32? number)
        ((encodeScope input number path hex).has .hex)) := rfl
  have hhex : (encodeScope input number path hex).has .hex = hex := by cases hex <;> rfl
  rw [hcommand, hv, hhex]

theorem spellable_encodeItems {input number path : String} (hinput : NamesFile input)
    (hnumber : Plain number) (hpath : NamesFile path) (hex : Bool) :
    ∀ item ∈ encodeItems input number path hex, item.Spellable .encode := by
  have hoperand : Item.Spellable .encode (.operand input) := hinput.plain
  have hformat : Item.Spellable .encode (.value .formatVersion number) :=
    ⟨by decide, rfl, hnumber⟩
  have hout : Item.Spellable .encode (.value .out path) := ⟨by decide, rfl, hpath.plain⟩
  have hhex : Item.Spellable .encode (.flag .hex) := ⟨by decide, rfl, by decide, by decide⟩
  cases hex <;> simp [encodeItems, hoperand, hformat, hout, hhex]

/-- The arguments that back a document up in a file. -/
theorem parse_encode {e : Environment} (he : e.get? "SOFTAP_CONFIG" ≠ some "")
    {input number path : String} {v : Int32} (hinput : NamesFile input) (hplain : Plain number)
    (hv : int32? number = some v) (hpath : NamesFile path) (hex : Bool) :
    parse e (["encode", input, "--format-version", number, "--out", path] ++
      if hex then ["--hex"] else []) = .ok {
        options := { config := e.get? "SOFTAP_CONFIG" }
        command := .encode input (some path) (some v) hex } := by
  have hnumber : Switch.formatVersion.accepts number = true := by
    rw [Switch.accepts, hv]
    rfl
  have hparse := parse_spell "encode" rfl rfl (by decide)
    (spellable_encodeItems hinput hplain hpath hex) (give_encodeItems hinput hnumber hpath hex)
    (Nat.le_refl 1) (command?_encodeScope hv hex) he
  cases hex <;> exact hparse

/-- What asks for a backup to be shown. -/
def decodeItems (path : String) (format : OutputFormat) (shutdown : Option Bool) (hex : Bool) :
    List Item :=
  [.operand path, .value .output format.name] ++
    (shutdown.toList.map fun b => .value .autoShutdown (toString b)) ++
    if hex then [.flag .hex] else []

/-- A scope that all of this is given to. -/
def decodeScope (path : String) (format : OutputFormat) (shutdown : Option Bool) (hex : Bool) :
    Scope where
  level := .decode
  given := [(.output, format.name)] ++
    (shutdown.toList.map fun b => (.autoShutdown, toString b)) ++
    if hex then [(.hex, "")] else []
  operands := [path]

theorem give_decodeItems {path : String} (hpath : NamesFile path) (format : OutputFormat)
    (shutdown : Option Bool) (hex : Bool) :
    (decodeItems path format shutdown hex).foldlM Scope.give { level := .decode } =
      .ok (decodeScope path format shutdown hex) := by
  have hoperand := hpath.giveOperand (l := .decode) rfl
  have hformat : Switch.output.accepts format.name = true := by
    rw [Switch.accepts, OutputFormat.ofName?_name]
    rfl
  have hshutdown : ∀ b : Bool, Switch.autoShutdown.accepts (toString b) = true := by decide
  have hhex : Switch.hex.accepts "" = true := rfl
  cases shutdown <;> cases hex <;>
    simp [decodeItems, decodeScope, Scope.give, hoperand, Scope.giveSwitch, hformat, hshutdown,
      hhex, Scope.has, bind, Except.bind] <;>
    rfl

theorem command?_decodeScope (path : String) (format : OutputFormat) (shutdown : Option Bool)
    (hex : Bool) : command? (decodeScope path format shutdown hex) =
      some (.decode path false hex shutdown) := by
  have hflag : ∀ b : Bool, Settings.flagOfText? (toString b) = some b := by decide
  cases shutdown with
  | none => cases hex <;> rfl
  | some b =>
    cases hex <;> exact congrArg (fun s => some (Command.decode path false _ s)) (hflag b)

theorem spellable_decodeItems {path : String} (hpath : NamesFile path) (format : OutputFormat)
    (shutdown : Option Bool) (hex : Bool) :
    ∀ item ∈ decodeItems path format shutdown hex, item.Spellable .decode := by
  have hoperand : Item.Spellable .decode (.operand path) := hpath.plain
  have hformat : Item.Spellable .decode (.value .output format.name) :=
    ⟨by decide, rfl, by cases format <;> decide⟩
  have hshutdown : ∀ b : Bool, Item.Spellable .decode (.value .autoShutdown (toString b)) :=
    fun b => ⟨by decide, rfl, by cases b <;> decide⟩
  have hhex : Item.Spellable .decode (.flag .hex) := ⟨by decide, rfl, by decide, by decide⟩
  cases shutdown <;> cases hex <;> simp [decodeItems, hoperand, hformat, hshutdown, hhex]

/-- The arguments that show a backup in a format. -/
theorem parse_decode {e : Environment} (he : e.get? "SOFTAP_CONFIG" ≠ some "") {path : String}
    (hpath : NamesFile path) (format : OutputFormat) (shutdown : Option Bool) (hex : Bool) :
    parse e (["decode", path, "--output", format.name] ++
      (shutdown.toList.flatMap fun b => ["--auto-shutdown", toString b]) ++
      if hex then ["--hex"] else []) = .ok {
        options := { config := e.get? "SOFTAP_CONFIG", output := some format }
        command := .decode path false hex shutdown } := by
  have hparse := parse_spell "decode" rfl rfl (by decide)
    (spellable_decodeItems hpath format shutdown hex) (give_decodeItems hpath format shutdown hex)
    (Nat.le_refl 1) (command?_decodeScope path format shutdown hex) he
  have hoptions : options e [decodeScope path format shutdown hex, { level := .program }] =
      { config := e.get? "SOFTAP_CONFIG", output := some format } := by
    rw [← OutputFormat.ofName?_name format]
    cases shutdown <;> cases hex <;> rfl
  rw [hoptions] at hparse
  cases shutdown <;> cases hex <;> exact hparse

/-! ## The command that edits a setting -/

/-- The path of a file of settings, as it is given to the program. -/
def givenPath (path : String) : Scope where
  level := .program
  pending := some (.switch .config (some path))

theorem step_config {path : String} (h : Plain path) : Progress.step
    (.reading { level := .program, pending := some (.switch .config none) } []) path =
      .ok (.reading (givenPath path) []) := by
  have hargument : Scope.argument { level := .program, pending := some (.switch .config none) }
      path = .ok (givenPath path) := Scope.argument_plain rfl h
  show (do return Progress.reading (← Scope.argument _ path) []) = _
  rw [hargument]
  rfl

/-- Behind two hyphens there may be any name and any value. -/
theorem parse_edit {e : Environment} (he : e.get? "SOFTAP_CONFIG" ≠ some "") {path : String}
    (hpath : NamesFile path) (name value : String) :
    parse e ["--config", path, "config", "set", "--", name, value] =
      .ok { options := { config := some path }, command := .configSet name value } := by
  have hprogram : (givenPath path).close e =
      .ok { level := .program, given := [(.config, path)] } := by
    refine close_of_settle he ?_ (Nat.zero_le _)
    simp [givenPath, Scope.settle, Scope.giveSwitch, Scope.has, Switch.accepts, hpath.nonempty]
  have hconfig : Scope.close e { level := .config } = .ok { level := .config } :=
    close_of_settle he rfl (Nat.zero_le _)
  let operands : Scope := { level := .configSet, operands := [name], operandsOnly := true }
  have hset : (operands.holding (.operand value)).close e =
      .ok { operands with operands := [name, value] } := close_of_settle he rfl (Nat.le_refl 2)
  have hread : ["--config", path, "config", "set", "--", name, value].foldlM Progress.step
      (.reading { level := .program } []) = .ok (.reading (operands.holding (.operand value))
        [{ level := .config }, givenPath path]) := by
    show (Progress.step (.reading { level := .program, pending := some (.switch .config none) } [])
      path >>= fun p => ["config", "set", "--", name, value].foldlM Progress.step p) = _
    rw [step_config hpath.plain]
    rfl
  rw [parse, scopes, hread]
  simp only [bind, Except.bind, Progress.close, List.mapM_cons, hset, hconfig, hprogram]
  rfl

end HotspotBackup.CommandLine
