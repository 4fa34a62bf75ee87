import ModuleLinkage.Proofs.Syntax.Anchoring.Keywords
import ModuleLinkage.Proofs.Syntax.Anchoring.Members
import ModuleLinkage.Syntax.Parser.Expression

/-!
# Reading expressions

If the productions of a grammar read a text, then so do those of markup and of expressions. The keyword
`import` stands where a dynamic import begins, and the name of a parameter without parentheses stands
where the parameter does.
-/

set_option autoImplicit false
set_option synthInstance.maxSize 100000
set_option synthInstance.maxHeartbeats 200000

namespace ModuleLinkage.Syntax

open Text

variable {source : List Char} {h : Prop} {bound left : Nat} {g : Grammar}

/-! ### Markup -/

theorem childToken_ne_word (place : Place) (name : String) (escaped : Bool) :
    (childToken place).1 ≠ .word name escaped := by
  unfold childToken
  intro hword
  repeat' split at hword
  all_goals cases hword

/-- As the value of an attribute, a word is read as elsewhere. -/
theorem valueToken_of_word {place : Place} {name : String} {escaped : Bool}
    (htoken : (valueToken place).1 = .word name escaped) : valueToken place = readToken place := by
  unfold valueToken at htoken ⊢
  split at htoken
  · split at htoken
    · split at htoken <;> cases htoken
    · next hquote => rw [if_neg hquote]
  · cases htoken

theorem rereadOperator_ne_word (place : Place) (name : String) (escaped : Bool) :
    (rereadOperator place).1 ≠ .word name escaped := by
  unfold rereadOperator readPunctuator
  intro hword
  split at hword <;> cases hword

instance reads_advanceByChildToken : Reads source h bound left (advanceBy childToken) := by
  have hmoving : Reads source h bound left (Parser.modify fun s =>
      let found := childToken s.lexeme.next
      { s with
        previousStop := s.lexeme.span.stop
        lexeme := ⟨found.1, ⟨s.lexeme.next.offset, found.2.offset⟩, false, found.2⟩ }) :=
    reads_moving (fun s hnext => ⟨s.lexeme.next, hnext, rfl, lexes_childToken _,
      hnext.next (closes_childToken _)⟩) (fun _ => Nat.le_refl _)
      fun s _ => Lexeme.isNext_of_ne_word (childToken_ne_word _)
  exact hmoving

/-- The value of an attribute, behind any gap. -/
instance reads_advanceToAttributeValue : Reads source h bound left advanceToAttributeValue := by
  refine reads_moving (fun s hnext => ?_) (fun s => ?_) fun s hnext name escaped htoken => ?_
  · split
    · next gap hgap =>
      have hbehind := hnext.skipGap hgap
      exact ⟨gap.next, hbehind, rfl, lexes_valueToken gap.next, hbehind.valueToken⟩
    · exact ⟨s.lexeme.next, hnext, rfl, (lexesFree_here rfl _).lexes, hnext⟩
  · split
    · next gap hgap => exact (reaches_skipGap hgap).offset_le
    · exact Nat.le_refl _
  · refine ⟨s.lexeme.next, false, false, hnext, rfl, nofun, ?_⟩
    cases hgap : skipGap false .open 0 false s.lexeme.next.offset s.lexeme.next.rest with
    | none =>
      rw [hgap] at htoken
      cases htoken
    | some gap =>
      rw [hgap] at htoken
      unfold readLexeme
      rw [hgap]
      exact congrArg (fun read : Token × Place =>
        Lexeme.mk read.1 ⟨gap.next.offset, read.2.offset⟩ gap.newline read.2) (valueToken_of_word htoken)

/-- A name with hyphens is a word with what stands behind it. -/
instance reads_markupWord : Reads source h bound left markupWord := by
  refine ⟨fun s => ReadsAt.present ?_⟩
  split
  · next word escaped htoken =>
    refine ((reads_require _).run s).bind fun _ s' hrequire => ?_
    obtain rfl : s' = s := (done_of_require hrequire).2
    refine (reads_get.run s').bind fun state s'' hget => ?_
    cases hget
    -- A word that is read on is no token of its own, but it is passed at once.
    intro value s' hrun
    cases hrun
    refine ⟨id, fun _ _ hsound _ _ => ?_⟩
    have hstands : (s'.lexeme.retold (.word word escaped)
        (scanMarkupName s'.lexeme.next.offset s'.lexeme.next.rest)).Stands source := by
      refine hsound.lexeme.extended (.inr (closes_scanMarkupName _ _)) fun body more hmore hspells => ?_
      rw [htoken] at hspells
      exact hspells.hyphened hmore
    have hforward := hstands.start_le_stop
    exact ⟨⟨hsound.total, stands_readLexeme _ _ hstands.next, hstands.stop, le_start_readLexeme _ _ _,
      Lexeme.isNext_readLexeme hstands.next id false⟩, ⟨hsound.order.trans hforward,
        hforward.trans (le_start_readLexeme _ _ _)⟩, trivial⟩
  · exact reads_fail.run s

instance reads_markupMember : Reads source h bound left markupMember := by
  unfold markupMember
  infer_instance

instance reads_markupName (element : Bool) : Reads source h bound left (markupName element) := by
  unfold markupName
  infer_instance

variable [ReadsAll source g]

instance reads_bracedExpression (isChild : Bool) :
    Reads source h bound left (bracedExpression g isChild) := by
  unfold bracedExpression
  infer_instance

instance reads_markupAttribute : Reads source h bound left (markupAttribute g) := by
  unfold markupAttribute
  dsimp only
  refine .step fun spread => ?_
  split
  · infer_instance
  refine .step fun _ => .step fun equals => ?_
  split
  · refine .step fun _ => .step fun token => ?_
    split <;> infer_instance
  · infer_instance

instance reads_markupChildren : Reads source h bound left (markupChildren g) := by
  unfold markupChildren
  refine .bind (.many (.step fun token => ?_)) fun parts => ?_
  · split <;> infer_instance
  · infer_instance

instance reads_finishAtPresent {start : Nat} {form : Form} {parts : List Node}
    [hfree : Holds form.isFree] [hstart : Entails h (LiesFrom source bound start)]
    [hparts : Entails h (AllAnchored source parts)] :
    Reads source h bound left (finishAtPresent start form parts) := by
  refine ⟨fun s node s' hrun => ?_⟩
  cases hrun
  refine ⟨id, fun _ hbefore hsound _ _ => ⟨hsound, .refl s, ?_, (hstart.imp hbefore).2⟩⟩
  exact .mk (hstart.imp hbefore).1 hsound.lexeme.stop (shaped_of_isFree hfree.eq _ _)
    (hparts.imp hbefore)

instance reads_markup : Reads source h bound left (markup g) := by
  unfold markup
  dsimp only
  infer_instance

/-! ### Primary expressions -/

instance reads_inParentheses {α : Type} [Located α] {parser : Parser α}
    [Reads source h bound left parser] : Reads source h bound left (inParentheses parser) := by
  unfold inParentheses
  infer_instance

instance reads_spread : Reads source h bound left (spread g) := by
  unfold spread
  infer_instance

instance reads_arrayElements : Reads source h bound left (arrayElements g) := by
  unfold arrayElements
  dsimp only
  infer_instance

instance reads_objectMethod {start : Nat} [Entails h (LiesFrom source bound start)]
    (marks : FunctionMarks) (accessor : Option Accessor) :
    Reads source h bound left (objectMethod g start marks accessor) := by
  unfold objectMethod
  infer_instance

/-- A shorthand refers to the word that is its key. Behind `async`, an asterisk or an accessor stands a
method. -/
instance reads_objectProperty : Reads source h bound left (objectProperty g) := by
  unfold objectProperty
  dsimp only
  refine ⟨fun s => (reads_offset.run s).bind fun start s' hoffset => ?_⟩
  cases hoffset
  refine .stay fun isSpread s₁ hs₁ => ?_
  split
  · exact Reads.run s₁
  refine .stay fun isAsync s₂ hs₂ => ?_
  split
  · next hasync =>
    simp only [hasync, Bool.true_or, if_true]
    exact Reads.run s₂
  refine ((reads_eat "*").run s₂).bind fun generator s₃ heat => ?_
  split
  · next hmethod =>
    simp only [hmethod, Bool.true_or, if_true]
    exact Reads.run s₃
  refine (reads_accessor.run s₃).bind fun accessor s₄ haccessor => ?_
  split
  · exact Reads.run s₄
  next hplain =>
  obtain ⟨⟨-, rfl⟩, rfl⟩ : (isAsync = false ∧ generator = false) ∧ accessor = none := by
    simpa using hplain
  have hs₄ : s₄.lexeme = s.lexeme := by
    rw [lexeme_of_accessor haccessor, lexeme_of_eat heat, hs₂, hs₁]
  refine .presentNamed hs₄ fun token => .step fun key => .step fun signature => ?_
  split
  · infer_instance
  refine .step fun colon => ?_
  split
  · infer_instance
  split <;> infer_instance

instance reads_template (tagged : Bool) : Reads source h bound left (template g tagged) := by
  unfold template
  refine .step fun start => .bind (.many (.step fun token => ?_)) fun types => ?_
  · split <;> infer_instance
  · infer_instance

instance : Plain Place := .of Place

/-- A regular expression is read from its first characters. -/
instance reads_regularExpression : Reads source h bound left regularExpression := by
  refine ⟨fun s => ?_⟩
  unfold regularExpression
  dsimp only
  refine (reads_get.run s).bind fun state s' hget => ?_
  cases hget
  split
  · refine (reads_pure.run s).bind fun place s' hbody => ?_
    cases hbody
    have hfree := (lexesFree_readRegex s.lexeme.next).2
    refine (ReadsAt.retold (Token.ne_word_of_isFree hfree) fun hstands => ?_).bind
      fun _ s' _ => Reads.run s'
    exact hstands.extended (closes_readRegex _) fun _ _ _ _ => Token.spells_of_isFree hfree _ _
  · next htoken =>
    refine (reads_pure.run s).bind fun place s' hbody => ?_
    cases hbody
    have hregex := (lexesFree_readRegex ⟨'=' :: s.lexeme.next.rest, s.lexeme.span.start + 1⟩).behind
      (Place.leads_append ['/'] _ s.lexeme.span.start).reaches
    have hslash : Unicode.separates '/' = true := by decide
    refine (ReadsAt.retold (Token.ne_word_of_isFree hregex.2) fun hstands => ?_).bind
      fun _ s' _ => Reads.run s'
    exact hstands.reread htoken hregex.lexes (.inr (.char_after rfl hslash (closes_readRegex _)))
  · intro value s' hrun
    cases hrun

instance reads_parenthesized : Reads source h bound left (parenthesized g) := by
  unfold parenthesized
  infer_instance

instance reads_objectLiteral : Reads source h bound left (objectLiteral g) := by
  unfold objectLiteral
  infer_instance

/-- The shape of a dynamic import. -/
instance shapes_importCall {start : Nat} {parts : List Node}
    [hword : Entails h (KeywordAt source start "import".toList)] :
    Entails h (Shapes source start left .importCall parts) :=
  ⟨fun hbefore _ _ => hword.imp hbefore⟩

instance reads_importExpression : Reads source h bound left (importExpression g) := by
  unfold importExpression
  dsimp only
  refine ⟨fun s => (reads_offset.run s).bind fun start s' hoffset => ?_⟩
  cases hoffset
  refine .behindKeyword (by decide) (fun _ _ _ => inferInstance)
    (fun s' hrun => advance_of_expectWord hrun) ?_ inferInstance
  refine (stuck_eat ".").bind fun found hfound => ?_
  subst hfound
  exact (refuses_expect "(").bind

instance reads_arguments : Reads source h bound left (arguments g) := by
  unfold arguments
  infer_instance

instance reads_construction : Reads source h bound left (construction g) := by
  unfold construction
  dsimp only
  infer_instance

instance reads_classExpression : Reads source h bound left (classExpression g) := by
  unfold classExpression
  dsimp only
  infer_instance

instance reads_superExpression : Reads source h bound left superExpression := by
  unfold superExpression
  infer_instance

instance reads_markupExpression : Reads source h bound left (markupExpression g) := by
  unfold markupExpression
  infer_instance

instance reads_wordExpression (word : String) :
    Reads source h bound left (wordExpression g word) := by
  unfold wordExpression
  split <;> infer_instance

instance reads_primary : Reads source h bound left (primary g) := by
  unfold primary
  refine .step fun start => .step fun token => ?_
  split <;> infer_instance

/-! ### Members and calls -/

instance locatedAccess : Located Access where
  LiesFrom source bound access := LiesFrom source bound access.node
  mono hle h := Located.mono hle h

instance entails_accessAnchored {access : Access} :
    Entails (h ∧ LiesFrom source bound access) (access.node.Anchored source) :=
  ⟨fun hboth => hboth.2.1⟩

instance reads_memberName : Reads source h bound left memberName := by
  unfold memberName
  refine .step fun token => ?_
  split <;> infer_instance

instance reads_joinsAngleBracket : Reads source h bound left joinsAngleBracket := by
  unfold joinsAngleBracket
  refine .step fun state => ?_
  split <;> infer_instance

instance reads_beginsExpression : Reads source h bound left beginsExpression := by
  unfold beginsExpression
  refine .step fun token => ?_
  split <;> infer_instance

instance reads_isAtBinaryOperator : Reads source h bound left isAtBinaryOperator := by
  unfold isAtBinaryOperator
  refine .step fun token => ?_
  split <;> infer_instance

instance reads_followsTypeArguments : Reads source h bound left followsTypeArguments := by
  unfold followsTypeArguments
  refine .step fun token => ?_
  split <;> infer_instance

instance reads_expressionTypeArguments :
    Reads source h bound left (expressionTypeArguments? g) := by
  unfold expressionTypeArguments?
  infer_instance

instance reads_memberStep {start : Nat} {access : Access}
    [Entails h (LiesFrom source bound start)] [Entails h (access.node.Anchored source)]
    (optional : Bool) : Reads source h bound left (memberStep g optional start access) := by
  unfold memberStep
  dsimp only
  refine .step fun token => ?_
  split
  case h_6 =>
    refine .step fun arguments? => ?_
    split <;> infer_instance
  all_goals infer_instance

instance reads_member : Reads source h bound left (member g) := by
  unfold member
  infer_instance

instance reads_callStep {start : Nat} {access : Access}
    [Entails h (LiesFrom source bound start)] [Entails h (access.node.Anchored source)] :
    Reads source h bound left (callStep g start access) := by
  unfold callStep
  refine .step fun access? => ?_
  split
  · infer_instance
  · dsimp only
    infer_instance

instance reads_leftHandSide : Reads source h bound left (leftHandSide g) := by
  unfold leftHandSide
  infer_instance

/-! ### Operators -/

/-- An operator is read again as a whole. -/
instance reads_joinOperator : Reads source h bound left joinOperator := by
  refine ⟨fun s => ((reads_isAt ">").run s).bind fun found s' hrun => ?_⟩
  cases hrun
  split
  · next htoken =>
    refine (reads_get.run s).bind fun state s' hget => ?_
    cases hget
    have htoken : s.lexeme.token = .punctuator ">" := by simpa using htoken
    have hfound := lexes_rereadOperator ⟨">".toList ++ s.lexeme.next.rest, s.lexeme.span.start⟩
    exact ReadsAt.retold (rereadOperator_ne_word _) fun hstands => hstands.reread htoken hfound
      (closes_readPunctuator (List.subset_append_right _ _) _)
  · exact Reads.run s

/-- A target lies in the text if the expression that spells it does. -/
theorem reads_liftOption {node : Node} {toTarget? : Node → Option Node} {α : Type} [Located α]
    {next : Node → Parser α}
    (htarget : ∀ target, toTarget? node = some target → node.Anchored source →
      target.Anchored source)
    [hnode : Entails h (node.Anchored source)]
    (hnext : ∀ target, Reads source (h ∧ LiesFrom source 0 target) bound left (next target)) :
    Reads source h bound left (liftOption (toTarget? node) >>= next) := by
  unfold liftOption
  split
  · next target hsome =>
    refine ⟨fun s => ReadsAt.of_known (fun hbefore _ _ => ?_) ((hnext target).run s)⟩
    exact ⟨htarget target hsome (hnode.imp hbefore), Nat.zero_le _⟩
  · refine ⟨fun s value s' hrun => ?_⟩
    cases hrun

instance reads_toSimpleTarget {node : Node} {α : Type} [Located α] {next : Node → Parser α}
    [Entails h (node.Anchored source)]
    [hnext : ∀ target, Reads source (h ∧ LiesFrom source 0 target) bound left (next target)] :
    Reads source h bound left (liftOption node.toSimpleTarget? >>= next) :=
  reads_liftOption (fun _ htarget hnode => hnode.toSimpleTarget htarget) hnext

instance reads_toTarget {node : Node} {α : Type} [Located α] {next : Node → Parser α}
    [Entails h (node.Anchored source)]
    [hnext : ∀ target, Reads source (h ∧ LiesFrom source 0 target) bound left (next target)] :
    Reads source h bound left (liftOption node.toTarget? >>= next) :=
  reads_liftOption (fun _ htarget hnode => hnode.toTarget htarget) hnext

instance reads_updated : Reads source h bound left (updated g) := by
  unfold updated
  dsimp only
  infer_instance

instance reads_beginsAwait : Reads source h bound left beginsAwait := by
  unfold beginsAwait
  infer_instance

instance reads_unaryOperator : Reads source h bound left unaryOperator? := by
  unfold unaryOperator?
  refine .step fun token => ?_
  split <;> infer_instance

instance reads_unary : Reads source h bound left (unary g) := by
  unfold unary
  refine .step fun start => .step fun operator? => ?_
  split <;> infer_instance

instance reads_binaryOperator : Reads source h bound left binaryOperator? := by
  unfold binaryOperator?
  refine .step fun _ => .step fun token => ?_
  split <;> infer_instance

instance reads_binaryStep {start : Nat} [Entails h (LiesFrom source bound start)] {left' : Node}
    [Entails h (left'.Anchored source)] (above : Nat) (leftEnclosed : Bool) :
    Reads source h bound left (binaryStep g above start leftEnclosed left') := by
  unfold binaryStep
  refine .step fun operator? => ?_
  split
  · infer_instance
  · dsimp only
    infer_instance

instance reads_privateTest (name : String) : Reads source h bound left (privateTest g name) := by
  unfold privateTest
  infer_instance

instance reads_operators (above : Nat) : Reads source h bound left (operators g above) := by
  unfold operators
  dsimp only
  refine .step fun start => .step fun enclosed => .step fun token => ?_
  split <;> infer_instance

/-! ### Arrow functions -/

instance reads_arrowBody (isAsync resultTypes : Bool) :
    Reads source h bound left (arrowBody g isAsync resultTypes) := by
  unfold arrowBody
  infer_instance

instance locatedArrowHead : Located ArrowHead where
  LiesFrom source bound head :=
    LiesFrom source bound head.start ∧ AllAnchored source head.parts
  mono hle h := ⟨Located.mono hle h.1, h.2⟩

section ArrowHead

variable {start : Nat} {parts : List Node} {isAsync hasResult : Bool} {head : ArrowHead}

instance entails_arrowHead [hstart : Entails h (LiesFrom source bound start)]
    [hparts : Entails h (AllAnchored source parts)] :
    Entails h (LiesFrom source bound (ArrowHead.mk start isAsync parts hasResult)) :=
  ⟨fun hbefore => ⟨hstart.imp hbefore, hparts.imp hbefore⟩⟩

instance entails_arrowStart :
    Entails (h ∧ LiesFrom source bound head) (LiesFrom source bound head.start) :=
  ⟨fun hboth => hboth.2.1⟩

instance entails_arrowParts :
    Entails (h ∧ LiesFrom source bound head) (AllAnchored source head.parts) :=
  ⟨fun hboth => hboth.2.2⟩

end ArrowHead

instance reads_arrowMark : Reads source h bound left arrowMark := by
  unfold arrowMark
  infer_instance

instance reads_arrowHead : Reads source h bound left (arrowHead g) := by
  unfold arrowHead
  infer_instance

instance reads_arrowFunction (resultTypes : Bool) {head : ArrowHead}
    [Entails h (LiesFrom source bound head.start)] [Entails h (AllAnchored source head.parts)] :
    Reads source h bound left (arrowFunction g resultTypes head) := by
  unfold arrowFunction
  infer_instance

instance : Plain Likelihood := .of Likelihood

/-- Where an arrow function may begin, either one is read, or the parser goes back to where it
began. -/
theorem cases_possibleArrow {resultTypes : Bool} {s s' : State} {value : Option Node}
    (hrun : possibleArrow? g resultTypes s = .done value s') :
    (∃ arrow, value = some arrow ∧
      (arrowHead g >>= arrowFunction g resultTypes) s = .done arrow s') ∨
    value = none ∧ ∃ notArrows, s' = { s with notArrows } := by
  obtain ⟨before, s₀, hget, hrun⟩ := done_of_bind hrun
  cases hget
  dsimp only at hrun
  by_cases hknown : s.notArrows.contains s.lexeme.span.start = true
  · rw [if_pos hknown] at hrun
    cases hrun
    exact .inr ⟨rfl, s.notArrows, rfl⟩
  · rw [if_neg hknown] at hrun
    obtain ⟨head?, s₁, hhead, hrun⟩ := done_of_bind hrun
    cases head? with
    | none =>
      cases hrun
      exact .inr ⟨rfl, _, rfl⟩
    | some head =>
      have hhead' := done_of_attempt hhead
      obtain ⟨arrow, s₂, harrow, hrun⟩ := done_of_bind hrun
      obtain ⟨colon, s₃, hcolon, hrun⟩ := done_of_bind hrun
      cases hcolon
      have hboth : (arrowHead g >>= arrowFunction g resultTypes) s = .done arrow s₂ := by
        simp only [Bind.bind, Parser.bind, hhead', harrow]
      split_ifs at hrun
      · cases hrun
        exact .inl ⟨arrow, rfl, hboth⟩
      · cases hrun
        exact .inr ⟨rfl, _, rfl⟩

instance reads_possibleArrow (resultTypes : Bool) :
    Reads source h bound left (possibleArrow? g resultTypes) := by
  refine ⟨fun s value s' hrun => ?_⟩
  obtain ⟨arrow, rfl, harrow⟩ | ⟨rfl, notArrows, rfl⟩ := cases_possibleArrow hrun
  · have hreads : Reads source h bound left (arrowHead g >>= arrowFunction g resultTypes) :=
      inferInstance
    obtain ⟨hfaulty, hgives⟩ := hreads.run s arrow s' harrow
    refine ⟨hfaulty, fun hclean hbefore hsound hbound hleft => ?_⟩
    obtain ⟨hsound', horder, hlies⟩ := hgives hclean hbefore hsound hbound hleft
    refine ⟨hsound', horder, fun other hother => ?_⟩
    obtain rfl := Option.some.inj hother
    exact hlies
  · refine ⟨id, fun _ _ hsound _ _ => ⟨?_, ⟨Nat.le_refl _, Nat.le_refl _⟩, nofun⟩⟩
    exact ⟨hsound.total, hsound.lexeme, hsound.previous, hsound.order, hsound.next⟩

instance reads_parenthesizedArrow (resultTypes : Bool) :
    Reads source h bound left (parenthesizedArrow? g resultTypes) := by
  unfold parenthesizedArrow?
  dsimp only
  refine .step fun token => ?_
  split
  all_goals
    refine .step fun mayBegin => ?_
    split
    · infer_instance
    refine .step fun answer? => ?_
    split <;> infer_instance

/-- The parameter that a name without parentheses is. -/
theorem Node.Anchored.parameters {name : Node} (h : name.Anchored source)
    (hreference : isReference name = true) : (Node.mk name.span .parameters
      [.mk name.span .parameter [.mk name.span (.binding (name.name?.getD "")) []]]).Anchored
      source := by
  have hbinding : (Node.mk name.span (.binding (name.name?.getD "")) []).Anchored source := by
    unfold isReference at hreference
    split at hreference
    · next word hform =>
      rw [Node.name?, hform]
      exact h.renamed (by rw [hform]; rfl) rfl
    · cases hreference
  refine .mk h.start h.stop trivial (AllAnchored.cons_iff.mpr ⟨?_, AllAnchored.nil⟩)
  exact .mk h.start h.stop trivial (AllAnchored.cons_iff.mpr ⟨hbinding, AllAnchored.nil⟩)

instance reads_simpleArrow {start : Nat} [Entails h (LiesFrom source bound start)] {name : Node}
    [hname : Entails h (name.Anchored source)]
    [hreference : Entails h (isReference name = true)] (isAsync resultTypes : Bool) :
    Reads source h bound left (simpleArrow g start isAsync resultTypes name) := by
  unfold simpleArrow
  have hparameters : Entails h ((Node.mk name.span .parameters
      [.mk name.span .parameter [.mk name.span (.binding (name.name?.getD "")) []]]).Anchored source) :=
    ⟨fun hbefore => (hname.imp hbefore).parameters (hreference.imp hbefore)⟩
  dsimp only
  infer_instance

instance reads_asyncSimpleArrow (resultTypes : Bool) :
    Reads source h bound left (asyncSimpleArrow? g resultTypes) := by
  unfold asyncSimpleArrow?
  refine .step fun isAsync => ?_
  split
  · infer_instance
  refine .step fun begins => ?_
  split
  · infer_instance
  refine .step fun start => .step fun _ => ?_
  have hreference : Gives (insideFunction { async := true } (variableName .reference))
      fun name => isReference name = true := gives_within (gives_variableName fun _ _ => rfl)
  exact .bind_of hreference inferInstance fun name => inferInstance

/-! ### Assignments -/

instance reads_endsYield : Reads source h bound left endsYield := by
  unfold endsYield
  refine .step fun token => ?_
  split <;> infer_instance

instance reads_beginsYield : Reads source h bound left beginsYield := by
  unfold beginsYield
  infer_instance

instance reads_yieldExpression : Reads source h bound left (yieldExpression g) := by
  unfold yieldExpression
  infer_instance

instance reads_conditionalRest {start : Nat} [Entails h (LiesFrom source bound start)]
    {condition : Node} [Entails h (LiesFrom source bound condition)]
    [Entails h (condition.Anchored source)] (resultTypes : Bool) :
    Reads source h bound left (conditionalRest g resultTypes start condition) := by
  unfold conditionalRest
  infer_instance

instance reads_assignmentRest {start : Nat} [Entails h (LiesFrom source bound start)]
    {left' : Node} [Entails h (LiesFrom source bound left')] [Entails h (left'.Anchored source)]
    (resultTypes : Bool) :
    Reads source h bound left (assignmentRest g resultTypes start left') := by
  unfold assignmentRest
  refine .step fun token => ?_
  split
  · exact .bind_of gives_require inferInstance fun _ => inferInstance
  · infer_instance
  · infer_instance

instance reads_assignment (resultTypes : Bool) :
    Reads source h bound left (assignment g resultTypes) := by
  unfold assignment
  refine .step fun yields => ?_
  split
  · infer_instance
  refine .step fun arrow? => ?_
  split
  · infer_instance
  refine .step fun arrow? => ?_
  split <;> infer_instance

instance reads_expression : Reads source h bound left (expression g) := by
  unfold expression commaSequence
  simp only [bind_assoc, pure_bind]
  refine .step fun start => .step fun first => .step fun rest => ?_
  split
  · next single hitems =>
    obtain ⟨rfl, rfl⟩ : first = single ∧ rest = [] := by simpa using hitems
    infer_instance
  · infer_instance

end ModuleLinkage.Syntax
