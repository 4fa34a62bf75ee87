import ModuleLinkage.Proofs.Syntax.Anchoring.Rules

/-!
# Reading tokens

The present token stands in the text, and so does the one behind it when a parser goes on. A node that
is finished begins where its first token does and ends where the last one before the present token does.
-/

set_option autoImplicit false

namespace ModuleLinkage.Syntax

open Text

variable {source : List Char} {h : Prop} {bound left : Nat}

/-! ### The present token -/

instance reads_present : Reads source h bound left present := by
  unfold present
  infer_instance

instance stays_present : Stays present := by
  unfold present
  infer_instance

instance stays_offset : Stays offset := by
  unfold offset
  infer_instance

instance reads_offset : Reads source h bound left offset := by
  refine ⟨fun s start s' hrun => ?_⟩
  cases hrun
  exact ⟨id, fun _ _ hsound hbound _ => ⟨hsound, .refl s, hsound.lexeme.start, hbound⟩⟩

instance reads_onNewLine : Reads source h bound left onNewLine := by
  unfold onNewLine
  infer_instance

instance reads_settings : Reads source h bound left settings := by
  unfold settings
  infer_instance

instance reads_context : Reads source h bound left context := by
  unfold context
  infer_instance

instance reads_typescript : Reads source h bound left typescript := by
  unfold typescript
  infer_instance

instance stays_typescript : Stays typescript := by
  unfold typescript settings
  infer_instance

instance stays_context : Stays context := by
  unfold context
  infer_instance

instance stays_checkName (word : String) : Stays (checkName word) := by
  unfold checkName
  infer_instance

/-! ### Going on -/

/-- A state that goes on to a token further along in the text. -/
theorem State.Sound.moved {s : State} (hsound : s.Sound source) {lexeme : Lexeme}
    (hstands : lexeme.Stands source) (hle : s.lexeme.span.stop ≤ lexeme.span.start)
    (hnext : lexeme.IsNext source (!s.settings.module) s.lexeme.span.stop) :
    ({ s with previousStop := s.lexeme.span.stop, lexeme } : State).Sound source ∧
      s.Before { s with previousStop := s.lexeme.span.stop, lexeme } := by
  have hforward := hsound.lexeme.start_le_stop
  exact ⟨⟨hsound.total, hstands, hsound.lexeme.stop, hle, hnext⟩, ⟨hsound.order.trans hforward,
    hforward.trans hle⟩⟩

/-- A parser that goes on to a token which `read` gives for the place behind the present one. -/
theorem reads_moving {read : State → Lexeme}
    (hstands : ∀ s : State, s.lexeme.next.Apart source → (read s).Stands source)
    (hle : ∀ s : State, s.lexeme.next.offset ≤ (read s).span.start)
    (hnext : ∀ s : State, s.lexeme.next.Apart source →
      (read s).IsNext source (!s.settings.module) s.lexeme.next.offset) :
    Reads source h bound left (Parser.modify fun s =>
      { s with previousStop := s.lexeme.span.stop, lexeme := read s }) := by
  refine ⟨fun s value s' hrun => ?_⟩
  cases hrun
  refine ⟨id, fun _ _ hsound _ _ => ?_⟩
  have hmoved := hsound.moved (hstands s hsound.lexeme.next)
    (by rw [hsound.lexeme.stop_eq]; exact hle s)
    (by rw [hsound.lexeme.stop_eq]; exact hnext s hsound.lexeme.next)
  exact ⟨hmoved.1, hmoved.2, trivial⟩

instance reads_pass : Reads source h bound left pass :=
  reads_moving (fun _ hnext => stands_readLexeme _ _ hnext) (fun _ => le_start_readLexeme _ _ _)
    fun _ hnext => Lexeme.isNext_readLexeme hnext id false

instance reads_advance : Reads source h bound left advance := by
  unfold advance
  refine .step fun token => ?_
  split <;> infer_instance

/-- Whatever is noted, the parser goes on behind the present token. -/
theorem done_of_advance {s s' : State} (hrun : advance s = .done () s') :
    s'.previousStop = s.lexeme.span.stop ∧
      s'.lexeme = readLexeme (!s.settings.module) false s.lexeme.next := by
  have hchecked (condition : Bool)
      (hrun : (Parser.check condition >>= fun _ => pass) s = .done () s') :
      s'.previousStop = s.lexeme.span.stop ∧
        s'.lexeme = readLexeme (!s.settings.module) false s.lexeme.next := by
    obtain ⟨_, s₁, hcheck, hpass⟩ := done_of_bind hrun
    unfold Parser.check at hcheck
    cases hpass
    split at hcheck <;> cases hcheck <;> exact ⟨rfl, rfl⟩
  obtain ⟨token, s₁, hpresent, hrun⟩ := done_of_bind hrun
  cases hpresent
  split at hrun
  · exact hchecked _ hrun
  · cases hrun
    exact ⟨rfl, rfl⟩

theorem previousStop_of_advance {s s' : State} (hrun : advance s = .done () s') :
    s'.previousStop = s.lexeme.span.stop :=
  (done_of_advance hrun).1

/-- Behind the present token everything begins behind where that begins, and ends behind it too. -/
theorem ReadsAt.behind {α : Type} [Located α] {s : State} {first : Parser Unit} {next : Unit → Parser α}
    (hfirst : ∀ h bound left, Reads source h bound left first)
    (hpasses : ∀ s', first s = .done () s' → s'.previousStop = s.lexeme.span.stop)
    (hnext : Reads source (h ∧ LiesFrom source s.lexeme.span.start s.lexeme.span.start)
      s.lexeme.span.start s.lexeme.span.start (next ())) :
    ReadsAt source h bound left s (first >>= next) := by
  have hraised : ReadsAt source (h ∧ s.Sound source) s.lexeme.span.start left s
      (first >>= next) := by
    refine ((hfirst _ _ _).run s).bind fun _ s' hrun => ?_
    have hreads : ReadsAt source ((h ∧ s.Sound source) ∧ LiesFrom source s.lexeme.span.start ())
        s.lexeme.span.start s.lexeme.span.start s' (next ()) :=
      (hnext.of_imp fun hboth => ⟨hboth.1.1, hboth.1.2.lexeme.start, Nat.le_refl _⟩).run s'
    refine hreads.raise fun hboth _ hbound _ => ⟨Nat.le_refl _, hbound, ?_⟩
    rw [hpasses s' hrun]
    exact hboth.1.2.lexeme.start_le_stop
  refine ReadsAt.of_known (fun _ hsound _ => hsound) (hraised.raise fun _ _ hbound hleft => ?_)
  exact ⟨hbound, Nat.le_refl _, hleft⟩

/-! ### Other tokens in the place of the present one -/

/-- A parser that looks at the present token. -/
theorem ReadsAt.present {α : Type} [Located α] {s : State} {next : Token → Parser α}
    (hnext : ReadsAt source h bound left s (next s.lexeme.token)) :
    ReadsAt source h bound left s (present >>= next) :=
  hnext

/-- A parser that takes another token in place of the present one, which stands in the text too and is
no word. -/
theorem ReadsAt.retold {s : State} {token : Token} {next : Place}
    (hother : ∀ name escaped, token ≠ .word name escaped)
    (hretold : s.lexeme.Stands source → (s.lexeme.retold token next).Stands source) :
    ReadsAt source h bound left s (replaceToken token next) := by
  intro value s' hrun
  cases hrun
  refine ⟨id, fun _ _ hsound _ _ => ⟨?_, ⟨Nat.le_refl _, Nat.le_refl _⟩, trivial⟩⟩
  exact ⟨hsound.total, hretold hsound.lexeme, hsound.previous, hsound.order,
    Lexeme.isNext_of_ne_word hother⟩

/-- A parser that looks at the present token, which may name an identifier where it stands. -/
theorem ReadsAt.presentNamed {α : Type} [Located α] {s s' : State} {next : Token → Parser α}
    (hlexeme : s'.lexeme = s.lexeme)
    (hnext : ∀ token, Reads source (h ∧ TokenNamed source s.lexeme.span.start token) bound left
      (next token)) : ReadsAt source h bound left s' (Syntax.present >>= next) := by
  refine .present (.of_known (fun _ hsound _ name escaped htoken => ?_)
    ((hnext s'.lexeme.token).run s'))
  rw [← hlexeme]
  exact hsound.lexeme.named htoken

instance reads_continueTemplate : Reads source h bound left continueTemplate := by
  refine ⟨fun s => ?_⟩
  have hfree := (lexesFree_scanTemplate 0 true s.lexeme.next.offset s.lexeme.next.rest).2
  refine ReadsAt.retold (Token.ne_word_of_isFree hfree) fun hstands => ?_
  exact hstands.extended (.inr (closes_scanTemplate 0 true _ _)) fun body more _ _ =>
    Token.spells_of_isFree hfree _ _

/-! ### Tests -/

instance reads_isAt (mark : String) : Reads source h bound left (isAt mark) := by
  unfold isAt
  infer_instance

instance stays_isAt (mark : String) : Stays (isAt mark) := by
  unfold isAt
  infer_instance

instance reads_isAtWord (word : String) : Reads source h bound left (isAtWord word) := by
  unfold isAtWord
  refine .step fun token => ?_
  split <;> infer_instance

theorem still_of_nextSees {test : Parser Bool} {s s' : State} {found : Bool}
    (hrun : nextSees test s = .done found s') : ∃ notArrows, s' = { s with notArrows } := by
  obtain ⟨seen, s₁, hseen, hpure⟩ := done_of_bind hrun
  cases hpure
  exact still_of_lookAhead hseen

instance reads_nextSees (test : Parser Bool) : Reads source h bound left (nextSees test) := by
  unfold nextSees
  infer_instance

instance reads_nextOnLineSees (test : Parser Bool) :
    Reads source h bound left (nextOnLineSees test) := by
  unfold nextOnLineSees
  infer_instance

instance stays_nextSees (test : Parser Bool) : Stays (nextSees test) := by
  unfold nextSees
  infer_instance

instance stays_nextOnLineSees (test : Parser Bool) : Stays (nextOnLineSees test) := by
  unfold nextOnLineSees
  infer_instance

instance reads_isAtName : Reads source h bound left isAtName := by
  unfold isAtName
  refine .step fun token => ?_
  split <;> infer_instance

instance reads_isAtAnyWord : Reads source h bound left isAtAnyWord := by
  unfold isAtAnyWord
  refine .step fun token => ?_
  split <;> infer_instance

instance reads_isAtString : Reads source h bound left isAtString := by
  unfold isAtString
  refine .step fun token => ?_
  split <;> infer_instance

instance reads_endsStatement : Reads source h bound left endsStatement := by
  unfold endsStatement
  refine .step fun token => ?_
  split <;> infer_instance

/-! ### Marks and words -/

instance reads_eat (mark : String) : Reads source h bound left (eat mark) := by
  unfold eat
  infer_instance

instance reads_eatWord (word : String) : Reads source h bound left (eatWord word) := by
  unfold eatWord
  infer_instance

instance reads_expect (mark : String) : Reads source h bound left (expect mark) := by
  unfold expect
  infer_instance

instance reads_expectWord (word : String) : Reads source h bound left (expectWord word) := by
  unfold expectWord
  infer_instance

/-- A word that is found is the present token. -/
theorem token_of_isAtWord {word : String} {s s' : State} {found : Bool}
    (hrun : isAtWord word s = .done found s') :
    s' = s ∧ (found = true → ∃ escaped, s.lexeme.token = .word word escaped) := by
  obtain ⟨token, s₁, hpresent, hrun⟩ := done_of_bind hrun
  cases hpresent
  generalize s.lexeme.token = token at hrun
  cases token with
  | word name escaped =>
    cases hrun
    refine ⟨rfl, fun hfound => ⟨escaped, ?_⟩⟩
    rw [beq_iff_eq.mp hfound]
  | _ =>
    cases hrun
    exact ⟨rfl, nofun⟩

instance stays_isAtWord (word : String) : Stays (isAtWord word) := by
  refine ⟨fun s found s' hrun => ?_⟩
  rw [(token_of_isAtWord hrun).1]
  exact ⟨rfl, rfl⟩

/-- A mark that is not found leaves the present token in its place. -/
theorem lexeme_of_eat {mark : String} {s s' : State} (hrun : eat mark s = .done false s') :
    s'.lexeme = s.lexeme := by
  obtain ⟨found, s₁, hfound, heat⟩ := done_of_bind hrun
  have hstays := (stays_isAt mark).lexeme _ _ _ hfound
  cases found with
  | true =>
    obtain ⟨_, s₂, -, hpure⟩ := done_of_bind heat
    cases hpure
  | false =>
    cases heat
    exact hstays

/-- A word that has to be there is the present token, and the parser goes on behind it. -/
theorem advance_of_expectWord {word : String} {s s' : State}
    (hrun : expectWord word s = .done () s') :
    (∃ escaped, s.lexeme.token = .word word escaped) ∧ advance s = .done () s' := by
  obtain ⟨eaten, s₁, heat, hrequire⟩ := done_of_bind hrun
  obtain ⟨rfl, rfl⟩ := done_of_require hrequire
  obtain ⟨found, s₂, hfound, heat⟩ := done_of_bind heat
  obtain ⟨rfl, htoken⟩ := token_of_isAtWord hfound
  cases found with
  | true =>
    obtain ⟨_, s₃, hadvance, hpure⟩ := done_of_bind heat
    cases hpure
    exact ⟨htoken rfl, hadvance⟩
  | false => cases heat

instance reads_checkName (word : String) : Reads source h bound left (checkName word) := by
  unfold checkName
  infer_instance

instance reads_semicolon : Reads source h bound left semicolon := by
  unfold semicolon
  infer_instance

/-! ### Nodes -/

/-- A node that is finished is anchored, if its parts are and it has the shape of its form. -/
instance reads_finish {start : Nat} {form : Form} {parts : List Node}
    [hstart : Entails h (LiesFrom source bound start)]
    [hparts : Entails h (AllAnchored source parts)]
    [hshape : Entails h (Shapes source start left form parts)] :
    Reads source h bound left (finish start form parts) := by
  refine ⟨fun s node s' hrun => ?_⟩
  cases hrun
  refine ⟨id, fun _ hbefore hsound _ hleft => ⟨hsound, .refl s, ?_, (hstart.imp hbefore).2⟩⟩
  exact .mk (hstart.imp hbefore).1 hsound.previous (hshape.imp hbefore _ hleft)
    (hparts.imp hbefore)

instance reads_leaf {form : Form} [hfree : Holds form.isFree] :
    Reads source h bound left (leaf form) := by
  unfold leaf
  infer_instance

/-- The present word is read as a name where it stands. -/
theorem ReadsAt.nameLeaf {form : Form} {name : String} [hform : Names form name] {s : State}
    {escaped : Bool} (htoken : s.lexeme.token = .word name escaped) :
    ReadsAt source h bound left s (nameLeaf form) := by
  refine .of_known (fun _ hsound _ => hsound.lexeme.named htoken) ?_
  refine (reads_offset.run s).bind fun start s' hoffset => ?_
  cases hoffset
  exact Reads.run s

theorem reads_variableName {form : String → Form} [hform : ∀ name, Names (form name) name] :
    Reads source h bound left (variableName form) := by
  refine ⟨fun s => .present ?_⟩
  split
  · next word escaped htoken =>
    refine .stay fun _ s' hs' => .stay fun _ s'' hs'' => ?_
    rw [← hs', ← hs''] at htoken
    exact .nameLeaf htoken
  · exact reads_fail.run s

instance reads_bindingName : Reads source h bound left bindingName :=
  reads_variableName

instance reads_referenceName : Reads source h bound left (variableName .reference) :=
  reads_variableName

instance reads_labelName : Reads source h bound left (variableName .label) :=
  reads_variableName

instance reads_propertyWord : Reads source h bound left propertyWord := by
  refine ⟨fun s => .present ?_⟩
  split
  · next htoken => exact .nameLeaf htoken
  · exact reads_fail.run s

instance reads_stringAs {form : String → Form} [hfree : ∀ value, Holds (form value).isFree] :
    Reads source h bound left (stringAs form) := by
  unfold stringAs
  refine .step fun token => ?_
  split <;> infer_instance

/-! ### Forms of nodes -/

theorem gives_finish {start : Nat} {form : Form} {parts : List Node} {known : Node → Prop}
    (hknown : ∀ span, known (.mk span form parts)) : Gives (finish start form parts) known := by
  unfold finish
  exact .bind fun state => gives_pure (hknown _)

theorem gives_leaf {form : Form} {known : Node → Prop} (hknown : ∀ span, known (.mk span form [])) :
    Gives (leaf form) known := by
  unfold leaf
  exact .bind fun start => .bind fun _ => gives_finish hknown

theorem gives_nameLeaf {form : Form} {known : Node → Prop}
    (hknown : ∀ span, known (.mk span form [])) : Gives (nameLeaf form) known := by
  unfold nameLeaf
  exact .bind fun start => .bind fun _ => gives_finish hknown

theorem gives_variableName {form : String → Form} {known : Node → Prop}
    (hknown : ∀ span name, known (.mk span (form name) [])) : Gives (variableName form) known := by
  unfold variableName
  refine .bind fun token => ?_
  split
  · exact .bind fun _ => .bind fun _ => gives_nameLeaf fun span => hknown span _
  · exact gives_fail

theorem gives_stringAs {form : String → Form} {known : Node → Prop}
    (hknown : ∀ span value, known (.mk span (form value) [])) : Gives (stringAs form) known := by
  unfold stringAs
  refine .bind fun token => ?_
  split
  · exact gives_leaf fun span => hknown span _
  · exact gives_fail

/-! ### Lists -/

/-- What holds of every item holds of all that are listed. -/
theorem gives_commaListUntil {α : Type} {close : String} {item : Parser α} {known : α → Prop}
    (hitem : Gives item known) :
    Gives (commaListUntil close item) fun items => ∀ item ∈ items, known item := by
  unfold commaListUntil
  refine .bind_of (gives_many (.bind fun isClose => ?_)) fun items hitems =>
    .bind fun _ => gives_pure hitems
  split
  · exact gives_none
  refine .bind_of hitem fun value hvalue => .bind fun isClose => ?_
  split
  · exact .bind fun _ => gives_some hvalue
  · exact gives_some hvalue

theorem gives_commaSequence {item : Parser Node} {known : Node → Prop} (hitem : Gives item known) :
    Gives (commaSequence item) fun items => ∀ item ∈ items, known item := by
  unfold commaSequence
  refine .bind_of hitem fun first hfirst => .bind_of (gives_many (.bind fun isComma => ?_))
    fun rest hrest => gives_pure (List.forall_mem_cons.mpr ⟨hfirst, hrest⟩)
  split
  · exact .bind_of hitem fun _ hvalue => gives_some hvalue
  · exact gives_none

instance reads_commaListUntil {α : Type} [Located α] {close : String} {item : Parser α}
    [hitem : ∀ h, Reads source h bound left item] :
    Reads source h bound left (commaListUntil close item) := by
  unfold commaListUntil
  infer_instance

instance reads_commaSequence {item : Parser Node} [hitem : ∀ h, Reads source h bound left item] :
    Reads source h bound left (commaSequence item) := by
  unfold commaSequence
  infer_instance

/-! ### Modifiers -/

instance reads_modifies (word : String) : Reads source h bound left (modifies word) := by
  unfold modifies
  split <;> infer_instance

instance reads_modifiersWhile {isNext : List String → String → Parser Bool}
    [hnext : ∀ h before word, Reads source h bound left (isNext before word)] :
    Reads source h bound left (modifiersWhile isNext) := by
  unfold modifiersWhile
  refine .iterate fun modifiers => .step fun token => ?_
  split <;> infer_instance

instance reads_declarationModifiers : Reads source h bound left declarationModifiers := by
  unfold declarationModifiers
  infer_instance

instance reads_plainModifiers : Reads source h bound left plainModifiers := by
  unfold plainModifiers
  infer_instance

instance reads_typeParameterModifiers : Reads source h bound left typeParameterModifiers := by
  unfold typeParameterModifiers
  infer_instance

instance reads_memberModifiers : Reads source h bound left memberModifiers := by
  unfold memberModifiers
  infer_instance

instance reads_checkModifiers (allowed modifiers : List String) :
    Reads source h bound left (checkModifiers allowed modifiers) := by
  unfold checkModifiers
  infer_instance

instance : Plain Accessor := .of Accessor

/-- An accessor that is not found leaves the present token in its place. -/
theorem lexeme_of_accessor {s s' : State} (hrun : accessor? s = .done none s') :
    s'.lexeme = s.lexeme := by
  have hword (word : String) {s s₁ s₂ : State} {found sees : Bool}
      (hfound : isAtWord word s = .done found s₁) (hsees : nextSees isAtPropertyKey s₁ = .done sees s₂) :
      s₂.lexeme = s.lexeme := by
    rw [(stays_nextSees _).lexeme _ _ _ hsees, (stays_isAtWord word).lexeme _ _ _ hfound]
  obtain ⟨_, s₁, hget, hrun⟩ := done_of_bind hrun
  obtain ⟨_, s₂, hsees, hrun⟩ := done_of_bind hrun
  split at hrun
  · obtain ⟨_, s₃, -, hpure⟩ := done_of_bind hrun
    cases hpure
  · obtain ⟨_, s₃, hset, hrun⟩ := done_of_bind hrun
    obtain ⟨_, s₄, hsees', hrun⟩ := done_of_bind hrun
    split at hrun
    · obtain ⟨_, s₅, -, hpure⟩ := done_of_bind hrun
      cases hpure
    · cases hrun
      rw [hword "set" hset hsees', hword "get" hget hsees]

instance reads_accessor : Reads source h bound left accessor? := by
  unfold accessor?
  infer_instance

end ModuleLinkage.Syntax
