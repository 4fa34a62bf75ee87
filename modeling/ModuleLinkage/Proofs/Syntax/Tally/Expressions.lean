import ModuleLinkage.Proofs.Syntax.Anchoring.Expressions
import ModuleLinkage.Proofs.Syntax.Tally.Members

/-!
# Expressions within their budgets

If the productions of a grammar keep within their budgets, then so do those of markup and of
expressions. A target counts no more than the expression that spells it (`tally_le_of_spells`).
-/

set_option autoImplicit false
set_option synthInstance.maxSize 100000
set_option synthInstance.maxHeartbeats 200000

namespace ModuleLinkage.Syntax

variable {offset budget left : Nat} {g : Grammar}

/-! ### Markup -/

theorem ne_word_childToken (place : Place) (name : String) (escaped : Bool) :
    (childToken place).1 ≠ .word name escaped := by
  unfold childToken
  split
  · nofun
  · nofun
  · nofun
  · split <;> nofun

instance leaves_advanceByChildToken : Leaves offset budget (advanceBy childToken) budget := by
  have hmoving : Leaves offset budget (Parser.modify fun s =>
      let found := childToken s.lexeme.next
      { s with
        previousStop := s.lexeme.span.stop
        lexeme := ⟨found.1, ⟨s.lexeme.next.offset, found.2.offset⟩, false, found.2⟩ }) budget :=
    leaves_moving (fun s => extends_of_ne_word (lexes_childToken _).reaches.offset_le
      (ne_word_childToken _)) fun _ => Nat.le_refl _
  exact hmoving

theorem extends_valueToken (newline : Bool) (place : Place) : Lexeme.Extends
    ⟨(valueToken place).1, ⟨place.offset, (valueToken place).2.offset⟩, newline, (valueToken place).2⟩ := by
  refine ⟨(lexes_valueToken place).reaches.offset_le, fun name escaped hword => ?_⟩
  have hword : (valueToken place).1 = .word name escaped := hword
  unfold valueToken at hword ⊢
  split at hword
  · split_ifs at hword ⊢
    · split at hword <;> cases hword
    · exact offset_lt_of_readToken (Prod.ext hword rfl)
  · cases hword

/-- The value of an attribute, behind any gap. -/
instance leaves_advanceToAttributeValue : Leaves offset budget advanceToAttributeValue budget := by
  refine leaves_moving (fun s => ?_) fun s => ?_
  · split
    · next gap hgap => exact extends_valueToken gap.newline gap.next
    · exact extends_of_ne_word (Nat.le_refl _) nofun
  · split
    · next gap hgap => exact (reaches_skipGap hgap).offset_le
    · exact Nat.le_refl _

/-- A name with hyphens is a word with what stands behind it. -/
instance leaves_markupWord : Leaves offset budget markupWord budget := by
  refine .of_affords ⟨fun s => LeavesAt.bind (leaves_present.run s) fun token s₁ hpresent => ?_⟩
  cases hpresent
  split
  · next word escaped htoken =>
    refine LeavesAt.bind ((leaves_require _).run s) fun _ s₂ hrequire => ?_
    obtain rfl := (done_of_require hrequire).2
    refine LeavesAt.bind (leaves_get.run s₂) fun state s₃ hget => ?_
    cases hget
    refine LeavesAt.bind (LeavesAt.retold fun hextends => ?_) fun _ s₄ _ => Affords.run s₄
    have hreaches := (reaches_scanMarkupName s₂.lexeme.next.offset s₂.lexeme.next.rest).offset_le
    exact ⟨hextends.le.trans hreaches, fun _ _ _ => (hextends.lt _ _ htoken).trans_le hreaches⟩
  · exact affords_fail.run s

instance leaves_markupMember : Leaves offset budget markupMember budget := by
  unfold markupMember
  infer_instance

instance leaves_markupName (element : Bool) : Leaves offset budget (markupName element) budget := by
  unfold markupName
  infer_instance

variable [AffordsAll offset g]

instance leaves_bracedExpression (isChild : Bool) :
    Leaves offset budget (bracedExpression g isChild) budget := by
  unfold bracedExpression
  infer_instance

instance leaves_markupAttribute : Leaves offset budget (markupAttribute g) budget := by
  unfold markupAttribute
  dsimp only
  refine .of_affords (.step fun spread => ?_)
  split
  · infer_instance
  refine .step fun _ => .step fun equals => ?_
  split
  · refine .step fun _ => .step fun token => ?_
    split <;> infer_instance
  · infer_instance

instance leaves_markupChildren : Leaves offset budget (markupChildren g) budget := by
  unfold markupChildren
  refine .of_affords (.bind (.many (.step fun token => ?_)) fun parts => ?_)
  · split <;> infer_instance
  · infer_instance

instance leaves_finishAtPresent (start : Nat) {form : Form} {parts : List Node}
    [Denies form.mayRequest] [Takes offset budget parts left] :
    Leaves offset budget (finishAtPresent start form parts) left := by
  unfold finishAtPresent
  refine ⟨fun s => (leaves_get.run s).bind fun state s' _ => ?_⟩
  exact leaves_pure.run s'

instance leaves_markup : Leaves offset budget (markup g) budget := by
  unfold markup
  dsimp only
  infer_instance

/-! ### Primary expressions -/

instance leaves_inParentheses {α : Type} [Tallied α] {parser : Parser α}
    [Leaves offset budget parser left] : Leaves offset budget (inParentheses parser) left := by
  unfold inParentheses
  infer_instance

instance leaves_spread : Leaves offset budget (spread g) budget := by
  unfold spread
  infer_instance

instance leaves_arrayElements : Leaves offset budget (arrayElements g) budget := by
  unfold arrayElements
  dsimp only
  infer_instance

instance leaves_objectMethod (start : Nat)
    (marks : FunctionMarks) (accessor : Option Accessor) :
    Leaves offset budget (objectMethod g start marks accessor) budget := by
  unfold objectMethod
  infer_instance

instance leaves_objectProperty : Leaves offset budget (objectProperty g) budget := by
  unfold objectProperty
  dsimp only
  refine .of_affords (.step fun start => .step fun isSpread => ?_)
  split
  · infer_instance
  refine .step fun isAsync => ?_
  split
  · next hasync =>
    simp only [hasync, Bool.true_or, if_true]
    infer_instance
  refine .step fun generator => ?_
  split
  · next hmethod =>
    simp only [hmethod, Bool.true_or, if_true]
    infer_instance
  refine .step fun accessor => ?_
  split
  · infer_instance
  refine .step fun token => .step fun key => .step fun signature => ?_
  split
  · infer_instance
  refine .step fun colon => ?_
  split
  · infer_instance
  split <;> infer_instance

instance leaves_template (tagged : Bool) : Leaves offset budget (template g tagged) budget := by
  unfold template
  refine .of_affords (.step fun start => .bind (.many (.step fun token => ?_)) fun types => ?_)
  · split <;> infer_instance
  · infer_instance

/-- A regular expression is no word. -/
theorem extends_readRegex {lexeme : Lexeme} {body : Place} (hle : lexeme.span.start ≤ body.offset) :
    (lexeme.retold (readRegex body).1 (readRegex body).2).Extends := by
  obtain ⟨hreaches, hfree⟩ := lexesFree_readRegex body
  exact extends_of_isFree (hle.trans hreaches.offset_le) hfree

/-- A regular expression is read from its first characters. -/
instance leaves_regularExpression : Leaves offset budget regularExpression budget := by
  refine .of_affords ⟨fun s => ?_⟩
  unfold regularExpression
  dsimp only
  refine LeavesAt.bind (leaves_get.run s) fun state s' hget => ?_
  cases hget
  split
  · refine LeavesAt.bind (leaves_pure.run s) fun place s' hbody => ?_
    cases hbody
    exact LeavesAt.bind (LeavesAt.retold fun hextends => extends_readRegex hextends.le) fun _ s' _ =>
      Affords.run s'
  · refine LeavesAt.bind (leaves_pure.run s) fun place s' hbody => ?_
    cases hbody
    exact LeavesAt.bind (LeavesAt.retold fun _ => extends_readRegex (Nat.le_succ _)) fun _ s' _ =>
      Affords.run s'
  · intro value s' hrun
    cases hrun

instance leaves_parenthesized : Leaves offset budget (parenthesized g) budget := by
  unfold parenthesized
  infer_instance

instance leaves_objectLiteral : Leaves offset budget (objectLiteral g) budget := by
  unfold objectLiteral
  infer_instance

instance leaves_importExpression : Leaves offset budget (importExpression g) budget := by
  unfold importExpression
  dsimp only
  infer_instance

instance leaves_arguments : Leaves offset budget (arguments g) budget := by
  unfold arguments
  infer_instance

instance leaves_construction : Leaves offset budget (construction g) budget := by
  unfold construction
  dsimp only
  infer_instance

instance leaves_classExpression : Leaves offset budget (classExpression g) budget := by
  unfold classExpression
  dsimp only
  infer_instance

instance leaves_superExpression : Leaves offset budget superExpression budget := by
  unfold superExpression
  infer_instance

instance leaves_markupExpression : Leaves offset budget (markupExpression g) budget := by
  unfold markupExpression
  infer_instance

instance leaves_wordExpression (word : String) :
    Leaves offset budget (wordExpression g word) budget := by
  unfold wordExpression
  split <;> infer_instance

instance leaves_primary : Leaves offset budget (primary g) budget := by
  unfold primary
  refine .of_affords (.step fun start => .step fun token => ?_)
  split <;> infer_instance

/-! ### Members and calls -/

instance : Tallied Access := ⟨fun offset access => tally offset access.node⟩

instance takes_access {node : Node} {chained : Bool} [htakes : Takes offset budget node left] :
    Takes offset budget (Access.mk node chained) left :=
  ⟨htakes.le⟩

instance takes_accessNode {access : Access} [htakes : Takes offset budget access left] :
    Takes offset budget access.node left :=
  ⟨htakes.le⟩

instance leaves_memberName : Leaves offset budget memberName budget := by
  unfold memberName
  refine .of_affords (.step fun token => ?_)
  split <;> infer_instance

instance leaves_joinsAngleBracket : Leaves offset budget joinsAngleBracket budget := by
  unfold joinsAngleBracket
  refine .of_affords (.step fun state => ?_)
  split <;> infer_instance

instance leaves_beginsExpression : Leaves offset budget beginsExpression budget := by
  unfold beginsExpression
  refine .of_affords (.step fun token => ?_)
  split <;> infer_instance

instance leaves_isAtBinaryOperator : Leaves offset budget isAtBinaryOperator budget := by
  unfold isAtBinaryOperator
  refine .of_affords (.step fun token => ?_)
  split <;> infer_instance

instance leaves_followsTypeArguments : Leaves offset budget followsTypeArguments budget := by
  unfold followsTypeArguments
  refine .of_affords (.step fun token => ?_)
  split <;> infer_instance

instance leaves_expressionTypeArguments :
    Leaves offset budget (expressionTypeArguments? g) budget := by
  unfold expressionTypeArguments?
  infer_instance

instance leaves_memberStep (start : Nat) {access : Access} [Takes offset budget access left]
    (optional : Bool) : Leaves offset budget (memberStep g optional start access) left := by
  refine .of_takes access ?_
  unfold memberStep
  dsimp only
  refine .step fun token => ?_
  split
  case h_6 =>
    refine .step fun arguments? => ?_
    split <;> infer_instance
  all_goals infer_instance

instance leaves_member : Leaves offset budget (member g) budget := by
  unfold member
  infer_instance

instance leaves_callStep (start : Nat) {access : Access} [Takes offset budget access left] :
    Leaves offset budget (callStep g start access) left := by
  refine .of_takes access ?_
  unfold callStep
  refine .stepOption inferInstance (fun access => ?_) ?_
  · exact affords_of_leaves
  · dsimp only
    infer_instance

instance leaves_leftHandSide : Leaves offset budget (leftHandSide g) budget := by
  unfold leftHandSide
  infer_instance

/-! ### Operators -/

/-- An operator is read again as a whole. -/
instance leaves_joinOperator : Leaves offset budget joinOperator budget := by
  refine .of_affords ⟨fun s => LeavesAt.bind ((leaves_isAt ">").run s) fun found s' hrun => ?_⟩
  cases hrun
  split
  · refine LeavesAt.bind (leaves_get.run s) fun state s' hget => ?_
    cases hget
    refine LeavesAt.forget (LeavesAt.retold fun _ => extends_of_ne_word ?_ fun name escaped => ?_)
    · exact (lexes_rereadOperator ⟨'>' :: s.lexeme.next.rest, s.lexeme.span.start⟩).reaches.offset_le
    · exact fun htoken => ne_word_of_readPunctuator _ _ (Prod.ext htoken rfl)
  · exact Affords.run s

theorem mayRequest_of_isFree {form : Form} (hfree : form.isFree = true) : form.mayRequest = false := by
  cases form <;> first | rfl | cases hfree

/-- A target counts no more than the expression that spells it. -/
theorem tally_le_of_spells {node target : Node} (hspells : node.Spells target) :
    tally offset target ≤ tally offset node := by
  induction node using Node.induction generalizing target with
  | step span form parts ih =>
    cases hspells.retargets with
    | same => exact Nat.le_refl _
    | inside hinner =>
      have hle := ih _ (by simp) hinner
      rw [tally_mk, tally_cons, tally_nil]
      omega
    | rebuilt hfree hmade =>
      rw [tally_mk, tally_mk, if_neg (by simp [mayRequest_of_isFree hfree]), Nat.zero_add]
      refine le_trans ?_ (Nat.le_add_left _ _)
      clear hspells
      induction hmade with
      | nil => exact Nat.le_refl _
      | cons hpart hrest ihRest =>
        rw [tally_cons, tally_cons]
        refine Nat.add_le_add ?_ (ihRest fun other hother => ih other (by simp [hother]))
        rcases hpart with rfl | hpart
        · exact Nat.le_refl _
        · exact ih _ (by simp) hpart

theorem takes_toTarget {node target : Node} (htarget : node.toTarget? = some target)
    [htakes : Takes offset budget node left] : Takes offset budget target left :=
  ⟨(Nat.add_le_add_right (tally_le_of_spells ⟨_, htarget⟩) _).trans htakes.le⟩

instance leaves_toTarget {node : Node} [Takes offset budget node left] :
    Leaves offset budget (liftOption node.toTarget?) left := by
  refine .of_takes node ?_
  unfold liftOption
  split
  · next target htarget =>
    have htakes : Takes offset (0 + tally offset node) target 0 := takes_toTarget htarget
    infer_instance
  · infer_instance

instance leaves_toSimpleTarget {node : Node} [Takes offset budget node left] :
    Leaves offset budget (liftOption node.toSimpleTarget?) left := by
  unfold Node.toSimpleTarget?
  split
  · have hfail : Affords offset (0 + tally offset node) (liftOption (none : Option Node)) := affords_fail
    exact .of_takes node hfail
  · infer_instance

instance leaves_updated : Leaves offset budget (updated g) budget := by
  unfold updated
  dsimp only
  infer_instance

instance leaves_beginsAwait : Leaves offset budget beginsAwait budget := by
  unfold beginsAwait
  infer_instance

instance leaves_unaryOperator : Leaves offset budget unaryOperator? budget := by
  unfold unaryOperator?
  refine .of_affords (.step fun token => ?_)
  split <;> infer_instance

instance leaves_unary : Leaves offset budget (unary g) budget := by
  unfold unary
  refine .of_affords (.step fun start => .step fun operator? => ?_)
  split <;> infer_instance

instance leaves_binaryOperator : Leaves offset budget binaryOperator? budget := by
  unfold binaryOperator?
  refine .of_affords (.step fun _ => .step fun token => ?_)
  split <;> infer_instance

instance leaves_binaryStep (start : Nat) {operand : Node} [Takes offset budget operand left]
    (above : Nat) (enclosed : Bool) :
    Leaves offset budget (binaryStep g above start enclosed operand) left := by
  refine .of_takes operand ?_
  unfold binaryStep
  refine .step fun operator? => ?_
  split
  · infer_instance
  · dsimp only
    infer_instance

instance leaves_privateTest (name : String) : Leaves offset budget (privateTest g name) budget := by
  unfold privateTest
  infer_instance

instance leaves_operators (above : Nat) : Leaves offset budget (operators g above) budget := by
  unfold operators
  dsimp only
  refine .of_affords (.step fun start => .step fun enclosed => .step fun token => ?_)
  split <;> infer_instance

/-! ### Arrow functions -/

instance leaves_arrowBody (isAsync resultTypes : Bool) :
    Leaves offset budget (arrowBody g isAsync resultTypes) budget := by
  unfold arrowBody
  infer_instance

instance : Tallied ArrowHead := ⟨fun offset head => tally offset head.parts⟩

instance takes_arrowHead {start : Nat} {isAsync hasResult : Bool} {parts : List Node}
    [htakes : Takes offset budget parts left] :
    Takes offset budget (ArrowHead.mk start isAsync parts hasResult) left :=
  ⟨htakes.le⟩

instance takes_arrowParts {head : ArrowHead} [htakes : Takes offset budget head left] :
    Takes offset budget head.parts left :=
  ⟨htakes.le⟩

instance leaves_arrowMark : Leaves offset budget arrowMark budget := by
  unfold arrowMark
  infer_instance

instance leaves_arrowHead : Leaves offset budget (arrowHead g) budget := by
  unfold arrowHead
  infer_instance

instance leaves_arrowFunction (resultTypes : Bool) {head : ArrowHead}
    [Takes offset budget head left] : Leaves offset budget (arrowFunction g resultTypes head) left := by
  refine .of_takes head ?_
  unfold arrowFunction
  infer_instance

instance : Tallyless Likelihood := .of Likelihood

instance leaves_possibleArrow (resultTypes : Bool) :
    Leaves offset budget (possibleArrow? g resultTypes) budget := by
  refine ⟨fun s value s' hrun hextends => ?_⟩
  obtain ⟨arrow, rfl, harrow⟩ | ⟨rfl, notArrows, rfl⟩ := cases_possibleArrow hrun
  · have hboth : Affords offset 0 (arrowHead g >>= arrowFunction g resultTypes) := inferInstance
    obtain ⟨hextends', hpassed, hle⟩ := hboth.run s arrow s' harrow hextends
    exact ⟨hextends', hpassed, by rw [tally_some]; omega⟩
  · exact ⟨hextends, Nat.le_refl _, by rw [tally_none, Nat.zero_add]; rfl⟩

instance leaves_parenthesizedArrow (resultTypes : Bool) :
    Leaves offset budget (parenthesizedArrow? g resultTypes) budget := by
  unfold parenthesizedArrow?
  dsimp only
  refine .of_affords (.step fun token => ?_)
  split
  all_goals
    refine .step fun mayBegin => ?_
    split
    · infer_instance
    refine .step fun answer? => ?_
    split <;> infer_instance

/-- Of the name of the one parameter, only where it stands and how it is spelled counts. -/
instance leaves_simpleArrow (start : Nat) (name : Node) (isAsync resultTypes : Bool) :
    Leaves offset budget (simpleArrow g start isAsync resultTypes name) budget := by
  unfold simpleArrow
  dsimp only
  infer_instance

instance leaves_asyncSimpleArrow (resultTypes : Bool) :
    Leaves offset budget (asyncSimpleArrow? g resultTypes) budget := by
  unfold asyncSimpleArrow?
  refine .of_affords (.step fun isAsync => ?_)
  split
  · infer_instance
  refine .step fun begins => ?_
  split
  · infer_instance
  exact .step fun start => .step fun _ => .step fun name => inferInstance

/-! ### Assignments -/

instance leaves_endsYield : Leaves offset budget endsYield budget := by
  unfold endsYield
  refine .of_affords (.step fun token => ?_)
  split <;> infer_instance

instance leaves_beginsYield : Leaves offset budget beginsYield budget := by
  unfold beginsYield
  infer_instance

instance leaves_yieldExpression : Leaves offset budget (yieldExpression g) budget := by
  unfold yieldExpression
  infer_instance

instance leaves_conditionalRest (start : Nat) {condition : Node}
    [Takes offset budget condition left] (resultTypes : Bool) :
    Leaves offset budget (conditionalRest g resultTypes start condition) left := by
  refine .of_takes condition ?_
  unfold conditionalRest
  infer_instance

instance leaves_assignmentRest (start : Nat) {operand : Node} [Takes offset budget operand left]
    (resultTypes : Bool) :
    Leaves offset budget (assignmentRest g resultTypes start operand) left := by
  refine .of_takes operand ?_
  unfold assignmentRest
  refine .step fun token => ?_
  split <;> infer_instance

instance leaves_assignment (resultTypes : Bool) :
    Leaves offset budget (assignment g resultTypes) budget := by
  unfold assignment
  refine .of_affords (.step fun yields => ?_)
  split
  · infer_instance
  refine .stepOption inferInstance (fun arrow => affords_of_leaves) ?_
  refine .stepOption inferInstance (fun arrow => affords_of_leaves) ?_
  infer_instance

instance leaves_expression : Leaves offset budget (expression g) budget := by
  unfold expression commaSequence
  simp only [bind_assoc, pure_bind]
  refine .of_affords (.step fun start => .step fun first => .step fun rest => ?_)
  split
  · next single hitems =>
    obtain ⟨rfl, rfl⟩ : first = single ∧ rest = [] := by simpa using hitems
    infer_instance
  · infer_instance

end ModuleLinkage.Syntax

