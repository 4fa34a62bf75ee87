import ModuleLinkage.Proofs.Syntax.Anchoring.Expressions
import ModuleLinkage.Proofs.Syntax.Ordering.Members

/-!
# Laying expressions

If the productions of a grammar lay their nodes in the order of the text, then so do those of markup and
of expressions. A target lies where the expression does that spells it, and what is imported stands
behind the keyword.
-/

set_option autoImplicit false
set_option synthInstance.maxSize 1000000000
set_option synthInstance.maxHeartbeats 200000

namespace ModuleLinkage.Syntax

open Text

variable {source : List Char} {markers : Bool} {h : Prop} {outset lo left start hi : Nat} {g : Grammar}

/-! ### Markup -/

instance steady_advanceBy (read : Place → Token × Place) : Steady (advanceBy read) :=
  steady_modify fun _ => rfl

instance steady_advanceToAttributeValue : Steady advanceToAttributeValue :=
  steady_modify fun _ => rfl

instance passesOne_advance : PassesOne advance :=
  ⟨fun _ _ hrun => previousStop_of_advance hrun⟩

instance passesOne_advanceBy (read : Place → Token × Place) : PassesOne (advanceBy read) := by
  refine ⟨fun s s' hrun => ?_⟩
  cases hrun
  rfl

instance steady_markupWord : Steady markupWord := by
  unfold markupWord
  refine .step fun token => ?_
  split <;> infer_instance

instance steady_markupMember : Steady markupMember := by
  unfold markupMember
  infer_instance

instance steady_markupName (element : Bool) : Steady (markupName element) := by
  unfold markupName
  infer_instance

/-- What stands behind an element, and the token that ends it. -/
instance (priority := 1500) lays_bindMarkup [hall : LaysAll source markers g] {α : Type} [Placed α]
    {last : Parser Unit} [Reads source True 0 0 last] [Steady last] [PassesOne last]
    {next : Node → Unit → Parser α}
    [hnext : ∀ node lo' left', Lays source markers
      ((h ∧ Step lo left lo' left') ∧ Lies source markers lo left' node) outset lo' left'
        (next node ())] :
    Lays source markers h outset lo left (g .markup >>= fun node => last >>= next node) := by
  have hboth := Lays.bind (hall.laysMarkup h lo left last) hnext
  simp only [bind_assoc, pure_bind] at hboth
  exact hboth

variable [LaysAll source markers g]

section Parts

variable [AtMost h outset lo]

instance lays_bracedExpression (isChild : Bool) :
    Lays source markers h outset lo left (bracedExpression g isChild) := by
  unfold bracedExpression
  infer_instance

instance lays_markupAttribute : Lays source markers h outset lo left (markupAttribute g) := by
  unfold markupAttribute
  dsimp only
  refine .skip fun spread => ?_
  split
  · infer_instance
  refine .skip fun _ => .skip fun equals => ?_
  split
  · refine .skip fun _ => .skip fun token => ?_
    split <;> infer_instance
  · infer_instance

instance lays_markupChildren : Lays source markers h outset lo left (markupChildren g) := by
  unfold markupChildren
  refine .bind (.many fun lo' left' => .skip fun token => ?_) fun parts lo' left' => ?_
  · split <;> infer_instance
  · infer_instance

end Parts

/-- A node that ends with the present token, which is passed. -/
instance (priority := 1500) lays_finishAtPresent {form : Form} {parts : List Node}
    [hshaping : Shaping source markers h outset start left form parts] {last : Parser Unit}
    [Reads source True 0 0 last] [Steady last] [hlast : PassesOne last] :
    Lays source markers h outset lo left
      (finishAtPresent start form parts >>= fun node => last >>= fun _ => pure node) := by
  refine ⟨fun s node s' hrun => ?_⟩
  obtain ⟨_, s₁, hfinish, hrest⟩ := done_of_bind hrun
  cases hfinish
  obtain ⟨_, s₂, hpass, hpure⟩ := done_of_bind hrest
  cases hpure
  obtain ⟨hfaulty, hmoves⟩ := moves_of_reads source markers hpass
  refine ⟨hfaulty, fun hclean hbefore hreading hlo hleft => ?_⟩
  obtain ⟨hreading', horder⟩ := hmoves hclean hreading
  have hstop := (hleft.trans hreading.sound.order).trans hreading.sound.lexeme.start_le_stop
  obtain ⟨hordered, hfront⟩ := hshaping.imp hbefore _ hstop
  exact ⟨hreading', horder, lies_node_iff.mpr ⟨hordered, hfront, (hlast.stop _ _ hpass).ge⟩⟩

/-- An element, with the token that ends it. -/
theorem lays_markup [AtMost h outset lo] (last : Parser Unit) [Reads source True 0 0 last]
    [Steady last] [PassesOne last] : Lays source markers h outset lo left
      (markup g >>= fun node => last >>= fun _ => pure node) := by
  unfold markup
  simp only [bind_assoc]
  refine .offset fun start => .pass fun _ passed => .skip fun isFragment => ?_
  split
  · simp only [bind_assoc]
    infer_instance
  · simp only [bind_assoc]
    refine .skip fun name => .skip fun types => ?_
    split
    · simp only [bind_assoc]
      refine .step fun arguments lo₁ left₁ => .step fun attributes lo₂ left₂ => .skip fun isEmpty => ?_
      split <;> (simp only [bind_assoc]; infer_instance)
    · simp only [bind_assoc, pure_bind]
      refine .step fun attributes lo₁ left₁ => .skip fun isEmpty => ?_
      split <;> (simp only [bind_assoc]; infer_instance)

section Productions

variable [AtMost h outset lo]

/-! ### Primary expressions -/

instance outset_inParentheses {α : Type} {parser : Parser α} [Outset parser lo outset] :
    Outset (inParentheses parser) lo outset := ⟨⟩

instance lays_inParentheses {α : Type} [Placed α] {parser : Parser α}
    [Lays source markers h outset lo left parser] :
    Lays source markers h outset lo left (inParentheses parser) := by
  unfold inParentheses
  infer_instance

instance lays_spread : Lays source markers h outset lo left (spread g) := by
  unfold spread
  infer_instance

instance lays_arrayElements : Lays source markers h outset lo left (arrayElements g) := by
  unfold arrayElements
  dsimp only
  infer_instance

instance lays_objectMethod [AtMost h outset start] [AtMost h start lo] (marks : FunctionMarks)
    (accessor : Option Accessor) :
    Lays source markers h outset lo left (objectMethod g start marks accessor) := by
  unfold objectMethod
  infer_instance

instance lays_objectProperty : Lays source markers h outset lo left (objectProperty g) := by
  unfold objectProperty
  dsimp only
  refine .offset fun start => .skip fun isSpread => ?_
  split
  · infer_instance
  refine .skip fun isAsync => ?_
  split
  · next hasync =>
    simp only [hasync, Bool.true_or, if_true]
    infer_instance
  refine .skip fun generator => ?_
  split
  · next hmethod =>
    simp only [hmethod, Bool.true_or, if_true]
    infer_instance
  refine .skip fun accessor => ?_
  split
  · infer_instance
  refine .skip fun token => .step fun key lo' left' => .skip fun signature => ?_
  split
  · infer_instance
  refine .skip fun colon => ?_
  split
  · infer_instance
  split <;> infer_instance

instance lays_template (tagged : Bool) : Lays source markers h outset lo left (template g tagged) := by
  unfold template
  refine .offset fun start => .bind (.many fun lo' left' => .skip fun token => ?_)
    fun expressions lo' left' => ?_
  · split <;> infer_instance
  · infer_instance

instance lays_parenthesized : Lays source markers h outset lo left (parenthesized g) := by
  unfold parenthesized
  infer_instance

instance lays_objectLiteral : Lays source markers h outset lo left (objectLiteral g) := by
  unfold objectLiteral
  infer_instance

instance lays_importExpression : Lays source markers h outset lo left (importExpression g) := by
  unfold importExpression
  dsimp only
  refine .offset fun start => .keyword (by decide) fun passed => ?_
  infer_instance

instance lays_arguments : Lays source markers h outset lo left (arguments g) := by
  unfold arguments
  infer_instance

instance lays_construction : Lays source markers h outset lo left (construction g) := by
  unfold construction
  dsimp only
  infer_instance

instance lays_classExpression : Lays source markers h outset lo left (classExpression g) := by
  unfold classExpression
  dsimp only
  infer_instance

instance lays_superExpression : Lays source markers h outset lo left superExpression := by
  unfold superExpression
  infer_instance

instance lays_markupExpression : Lays source markers h outset lo left (markupExpression g) := by
  unfold markupExpression
  infer_instance

instance steady_finish {form : Form} {parts : List Node} : Steady (finish start form parts) := by
  unfold finish
  infer_instance

instance steady_leaf {form : Form} : Steady (leaf form) := by
  unfold leaf
  infer_instance

instance steady_regularExpression : Steady regularExpression := by
  unfold regularExpression
  dsimp only
  refine .step fun state => ?_
  split <;> infer_instance

omit [LaysAll source markers g] [AtMost h outset lo] in
/-- A regular expression covers what is read from its first characters. -/
theorem span_of_regularExpression {s s' : State} {node : Node} (hsound : s.Sound source)
    (hrun : regularExpression s = .done node s') :
    node = .mk ⟨s.lexeme.span.start, s'.previousStop⟩ .literal [] ∧
      s.lexeme.span.start ≤ s'.previousStop := by
  have hread {body : Place} (hbody : s.lexeme.span.start ≤ body.offset) {node : Node} {s' : State}
      (hrun : (do
        replaceToken (readRegex body).1 (readRegex body).2
        Parser.require ((readRegex body).1 == Token.regex)
        leaf .literal) s = .done node s') :
      node = .mk ⟨s.lexeme.span.start, s'.previousStop⟩ .literal [] ∧
        s.lexeme.span.start ≤ s'.previousStop := by
    obtain ⟨_, s₁, hreplace, hrun⟩ := done_of_bind hrun
    cases hreplace
    obtain ⟨_, s₂, hrequire, hrun⟩ := done_of_bind hrun
    obtain ⟨-, rfl⟩ := done_of_require hrequire
    obtain ⟨_, s₃, hoffset, hrun⟩ := done_of_bind hrun
    cases hoffset
    obtain ⟨_, s₄, hadvance, hrun⟩ := done_of_bind hrun
    cases hrun
    refine ⟨rfl, ?_⟩
    rw [previousStop_of_advance hadvance]
    exact hbody.trans (lexesFree_readRegex body).1.offset_le
  unfold regularExpression at hrun
  obtain ⟨state, s₁, hget, hrun⟩ := done_of_bind hrun
  cases hget
  dsimp only at hrun
  obtain ⟨parser, hparser, hrun⟩ : ∃ parser : Parser Node, parser = _ ∧ parser s = .done node s' :=
    ⟨_, rfl, hrun⟩
  split at hparser
  · subst hparser
    exact hread (hsound.lexeme.stop_eq ▸ hsound.lexeme.start_le_stop) hrun
  · subst hparser
    exact hread (Nat.le_succ _) hrun
  · subst hparser
    cases hrun

instance lays_regularExpression : Lays source markers h outset lo left regularExpression := by
  refine ⟨fun s node s' hrun => ?_⟩
  have hreads : Reads source True 0 0 regularExpression := inferInstance
  obtain ⟨hfaulty, hgives⟩ := hreads.run s node s' hrun
  refine ⟨hfaulty, fun hclean hbefore hreading hlo hleft => ?_⟩
  obtain ⟨hsound, horder, -⟩ := hgives hclean trivial hreading.sound (Nat.zero_le _) (Nat.zero_le _)
  obtain ⟨rfl, hle⟩ := span_of_regularExpression hreading.sound hrun
  refine ⟨⟨hsound, by rw [steady_regularExpression.settings _ _ _ hrun, hreading.markers]⟩, horder,
    lies_node_iff.mpr ⟨?_, ?_, Nat.le_refl _⟩⟩
  · exact .mk hle nofun .nil ((arranged_iff_of_isLoose rfl ..).mpr nofun) nofun
  · exact Node.le_front_iff.mpr ⟨(AtMost.imp hbefore).trans hlo, nofun⟩

instance lays_wordExpression (word : String) :
    Lays source markers h outset lo left (wordExpression g word) := by
  unfold wordExpression
  split <;> infer_instance

instance lays_primary : Lays source markers h outset lo left (primary g) := by
  unfold primary
  refine .offset fun start => .skip fun token => ?_
  split <;> infer_instance

/-! ### Members and calls -/

instance : Holding Access := ⟨fun access => [access.node]⟩

instance found_accessNode {access : Access} :
    Found source markers (h ∧ Lies source markers lo hi access) access.node lo hi :=
  ⟨And.right⟩

instance found_access {node : Node} {chained : Bool} [hnode : Found source markers h node lo hi] :
    Found source markers h (Access.mk node chained) lo hi :=
  ⟨hnode.imp⟩

instance given_access {node : Node} {chained : Bool} [hnode : Given source markers h lo node hi] :
    Given source markers h lo (Access.mk node chained) hi :=
  ⟨hnode.imp⟩

instance atMost_access {access : Access} {lower : Nat} [hlower : AtMost h lower lo] :
    AtMost (h ∧ Lies source markers lo hi access) lower hi :=
  ⟨fun hboth => (hlower.imp hboth.1).trans (hboth.2.le_of_mem (List.mem_singleton_self access.node))⟩

instance lays_memberName : Lays source markers h outset lo left memberName := by
  unfold memberName
  refine .skip fun token => ?_
  split <;> infer_instance

instance steady_joinsAngleBracket : Steady joinsAngleBracket := by
  unfold joinsAngleBracket
  refine .step fun state => ?_
  split <;> infer_instance

instance steady_beginsExpression : Steady beginsExpression := by
  unfold beginsExpression
  refine .step fun token => ?_
  split <;> infer_instance

instance steady_isAtBinaryOperator : Steady isAtBinaryOperator := by
  unfold isAtBinaryOperator
  refine .step fun token => ?_
  split <;> infer_instance

instance steady_followsTypeArguments : Steady followsTypeArguments := by
  unfold followsTypeArguments
  refine .step fun token => ?_
  split <;> infer_instance

instance lays_expressionTypeArguments :
    Lays source markers h outset lo left (expressionTypeArguments? g) := by
  unfold expressionTypeArguments?
  infer_instance

instance lays_memberStep {access : Access} [AtMost h outset start] [hstart : AtMost h start left]
    [hleft : AtMost h left lo] [hnode : Given source markers h start access left] (optional : Bool) :
    Lays source markers h outset lo left (memberStep g optional start access) := by
  have hfound : Found source markers h access.node start left := ⟨hnode.imp⟩
  have hstart : AtMost h start lo := ⟨fun hbefore => (hstart.imp hbefore).trans (hleft.imp hbefore)⟩
  unfold memberStep
  dsimp only
  refine .skip fun token => ?_
  split
  case h_6 =>
    refine .step fun arguments? lo' left' => ?_
    split <;> infer_instance
  case h_2 | h_3 =>
    simp only [bind_assoc]
    infer_instance
  all_goals infer_instance

instance outset_memberStep {access : Access} {optional : Bool} :
    Outset (memberStep g optional start access) lo start := ⟨⟩

instance outset_memberSteps {access : Access} {optional : Bool} :
    Outset (Parser.iterate (memberStep g optional start) access) lo start := ⟨⟩

instance lays_member : Lays source markers h outset lo left (member g) := by
  unfold member
  infer_instance

instance lays_callStep {access : Access} [AtMost h outset start] [hstart : AtMost h start left]
    [hleft : AtMost h left lo] [hnode : Given source markers h start access left] :
    Lays source markers h outset lo left (callStep g start access) := by
  have hfound : Found source markers h access.node start left := ⟨hnode.imp⟩
  have hstart : AtMost h start lo := ⟨fun hbefore => (hstart.imp hbefore).trans (hleft.imp hbefore)⟩
  unfold callStep
  refine .step fun access? lo' left' => ?_
  split
  · infer_instance
  · dsimp only
    infer_instance

instance outset_callSteps {access : Access} :
    Outset (Parser.iterate (callStep g start) access) lo start := ⟨⟩

instance lays_leftHandSide : Lays source markers h outset lo left (leftHandSide g) := by
  unfold leftHandSide
  infer_instance

/-! ### Operators -/

instance steady_joinOperator : Steady joinOperator := by
  unfold joinOperator
  infer_instance

omit [LaysAll source markers g] [AtMost h outset lo] in
/-- A target lies where the expression does that spells it. -/
theorem Lays.liftOption {node : Node} {toTarget? : Node → Option Node} {α : Type} [Placed α]
    {next : Node → Parser α} {lo' hi' : Nat}
    (htarget : ∀ target, toTarget? node = some target → node.Spells target)
    [hnode : Found source markers h node lo' hi']
    (hnext : ∀ target, Lays source markers (h ∧ Lies source markers lo' hi' target) outset lo left
      (next target)) :
    Lays source markers h outset lo left (liftOption (toTarget? node) >>= next) := by
  unfold ModuleLinkage.Syntax.liftOption
  split
  · next target hsome =>
    refine ⟨fun s => .of_known (fun hbefore _ _ => ?_) ((hnext target).run s)⟩
    obtain ⟨hordered, hfront, hstop⟩ := lies_node_iff.mp (hnode.imp hbefore)
    have hstands := hordered.of_spells (htarget target hsome)
    exact lies_node_iff.mpr ⟨hstands.ordered, hfront.trans hstands.front, hstands.stop.trans hstop⟩
  · exact ⟨fun s value s' hrun => nomatch hrun⟩

omit [LaysAll source markers g] [AtMost h outset lo] in
theorem Node.spells_of_toSimpleTarget {node target : Node}
    (htarget : node.toSimpleTarget? = some target) : node.Spells target := by
  unfold Node.toSimpleTarget? at htarget
  split at htarget
  · cases htarget
  · exact ⟨_, htarget⟩

instance lays_toSimpleTarget {node : Node} {α : Type} [Placed α] {next : Node → Parser α}
    {lo' hi' : Nat} [Found source markers h node lo' hi']
    [hnext : ∀ target, Lays source markers (h ∧ Lies source markers lo' hi' target) outset lo left
      (next target)] :
    Lays source markers h outset lo left (liftOption node.toSimpleTarget? >>= next) :=
  .liftOption (fun _ htarget => Node.spells_of_toSimpleTarget htarget) hnext

instance lays_toTarget {node : Node} {α : Type} [Placed α] {next : Node → Parser α}
    {lo' hi' : Nat} [Found source markers h node lo' hi']
    [hnext : ∀ target, Lays source markers (h ∧ Lies source markers lo' hi' target) outset lo left
      (next target)] :
    Lays source markers h outset lo left (liftOption node.toTarget? >>= next) :=
  .liftOption (fun _ htarget => ⟨_, htarget⟩) hnext

instance lays_updated : Lays source markers h outset lo left (updated g) := by
  unfold updated
  dsimp only
  infer_instance

instance steady_beginsAwait : Steady beginsAwait := by
  unfold beginsAwait
  infer_instance

instance steady_unaryOperator : Steady unaryOperator? := by
  unfold unaryOperator?
  refine .step fun token => ?_
  split <;> infer_instance

instance lays_unary : Lays source markers h outset lo left (unary g) := by
  unfold unary
  refine .offset fun start => .skip fun operator? => ?_
  split <;> infer_instance

instance steady_binaryOperator : Steady binaryOperator? := by
  unfold binaryOperator?
  refine .step fun _ => .step fun token => ?_
  split <;> infer_instance

instance lays_binaryStep {operand : Node} [AtMost h outset start] [hstart : AtMost h start left]
    [hleft : AtMost h left lo] [hnode : Given source markers h start operand left] (above : Nat)
    (leftEnclosed : Bool) :
    Lays source markers h outset lo left (binaryStep g above start leftEnclosed operand) := by
  have hfound : Found source markers h operand start left := ⟨hnode.imp⟩
  have hstart : AtMost h start lo := ⟨fun hbefore => (hstart.imp hbefore).trans (hleft.imp hbefore)⟩
  unfold binaryStep
  refine .skip fun operator? => ?_
  split
  · infer_instance
  · dsimp only
    infer_instance

instance lays_privateTest (name : String) :
    Lays source markers h outset lo left (privateTest g name) := by
  unfold privateTest
  infer_instance

instance lays_operators (above : Nat) : Lays source markers h outset lo left (operators g above) := by
  unfold operators
  dsimp only
  refine .offset fun start => .skip fun enclosed => .skip fun token => ?_
  split <;> infer_instance

/-! ### Arrow functions -/

instance lays_arrowBody (isAsync resultTypes : Bool) :
    Lays source markers h outset lo left (arrowBody g isAsync resultTypes) := by
  unfold arrowBody
  infer_instance

/-- The parts of an arrow function lie behind where it begins. -/
instance : Placed ArrowHead where
  Lies source markers lo hi head :=
    (lo ≤ head.start ∧ head.start ≤ hi) ∧ InLine source markers head.start hi head.parts
  mono hlo hhi h := ⟨⟨hlo.trans h.1.1, h.1.2.trans hhi⟩, h.2.mono (Nat.le_refl _) hhi⟩

instance given_arrowHead {parts : List Node} {isAsync hasResult : Bool} [houtset : AtMost h lo start]
    [hstart : AtMost h start hi] [hparts : Given source markers h start parts hi] :
    Given source markers h lo (ArrowHead.mk start isAsync parts hasResult) hi :=
  ⟨fun hbefore => ⟨⟨houtset.imp hbefore, hstart.imp hbefore⟩, lies_nodes_iff.mp (hparts.imp hbefore)⟩⟩

instance steady_arrowMark : Steady arrowMark := by
  unfold arrowMark
  infer_instance

instance lays_arrowHead : Lays source markers h outset lo left (arrowHead g) := by
  unfold arrowHead arrowMark
  simp only [bind_assoc]
  infer_instance

instance lays_arrowFunction (resultTypes : Bool) {head : ArrowHead} [hleft : AtMost h left lo]
    [hhead : Given source markers h outset head left] :
    Lays source markers h outset lo left (arrowFunction g resultTypes head) := by
  have hparts : Found source markers h head.parts head.start left :=
    ⟨fun hbefore => lies_nodes_iff.mpr (hhead.imp hbefore).2⟩
  have hfirst : AtMost h outset head.start := ⟨fun hbefore => (hhead.imp hbefore).1.1⟩
  have hlast : AtMost h head.start left := ⟨fun hbefore => (hhead.imp hbefore).1.2⟩
  have hstart : AtMost h head.start lo := ⟨fun hbefore => (hlast.imp hbefore).trans (hleft.imp hbefore)⟩
  unfold arrowFunction
  infer_instance

instance lays_possibleArrow (resultTypes : Bool) :
    Lays source markers h outset lo left (possibleArrow? g resultTypes) := by
  refine ⟨fun s value s' hrun => ?_⟩
  obtain ⟨arrow, rfl, harrow⟩ | ⟨rfl, notArrows, rfl⟩ := cases_possibleArrow hrun
  · have hlays : Lays source markers h outset lo left (arrowHead g >>= arrowFunction g resultTypes) :=
      inferInstance
    obtain ⟨hfaulty, hgives⟩ := hlays.run s arrow s' harrow
    refine ⟨hfaulty, fun hclean hbefore hreading hlo hleft => ?_⟩
    obtain ⟨hreading', horder, hlies⟩ := hgives hclean hbefore hreading hlo hleft
    exact ⟨hreading', horder, lies_some_iff.mpr hlies⟩
  · exact ⟨id, fun _ _ hreading _ _ =>
      ⟨hreading.forgetting notArrows, ⟨Nat.le_refl _, Nat.le_refl _⟩, lies_none⟩⟩

instance lays_parenthesizedArrow (resultTypes : Bool) :
    Lays source markers h outset lo left (parenthesizedArrow? g resultTypes) := by
  unfold parenthesizedArrow?
  dsimp only
  refine .skip fun token => ?_
  split
  all_goals
    refine .skip fun mayBegin => ?_
    split
    · infer_instance
    refine .skip fun answer? => ?_
    split <;> infer_instance

omit [LaysAll source markers g] [AtMost h outset lo] in
/-- The parameter that a name without parentheses is lies where the name does. -/
theorem Node.Ordered.parameters {name : Node} (hname : name.Ordered source markers)
    (binding : String) : (Node.mk name.span .parameters
      [.mk name.span .parameter [.mk name.span (.binding binding) []]]).Ordered source markers ∧
      (Node.mk name.span .parameters [.mk name.span .parameter
        [.mk name.span (.binding binding) []]]).front = name.span.start := by
  have hinner : (Node.mk name.span (.binding binding) []).Ordered source markers ∧
      (Node.mk name.span (.binding binding) []).front = name.span.start :=
    ⟨.mk hname.start_le_stop nofun .nil ((arranged_iff_of_isLoose rfl ..).mpr nofun) nofun,
      Nat.min_self _⟩
  -- What holds of a node over the name holds of one over the name that it is the only part of.
  have houter {form : Form} (hloose : form.isLoose = true) {part : Node} (hspan : part.span = name.span)
      (hpart : part.Ordered source markers ∧ part.front = name.span.start) :
      (Node.mk name.span form [part]).Ordered source markers ∧
        (Node.mk name.span form [part]).front = name.span.start := by
    refine ⟨.mk hname.start_le_stop ?_ (List.pairwise_singleton _ _)
      ((arranged_iff_of_isLoose hloose ..).mpr ?_) ?_, ?_⟩
    · exact List.forall_mem_singleton.mpr (hspan ▸ Nat.le_refl _)
    · exact List.forall_mem_singleton.mpr hpart.2.ge
    · exact List.forall_mem_singleton.mpr hpart.1
    · simp [Node.front, Node.listFront, hpart.2]
  exact houter rfl rfl (houter rfl rfl hinner)

instance lays_simpleArrow {name : Node} [AtMost h outset start] [hstart : AtMost h start left]
    [hleft : AtMost h left lo] [hname : Given source markers h start name left]
    (isAsync resultTypes : Bool) :
    Lays source markers h outset lo left (simpleArrow g start isAsync resultTypes name) := by
  have hstart : AtMost h start lo := ⟨fun hbefore => (hstart.imp hbefore).trans (hleft.imp hbefore)⟩
  have hparameters : Found source markers h (Node.mk name.span .parameters [.mk name.span .parameter
      [.mk name.span (.binding (name.name?.getD "")) []]]) start left := by
    refine ⟨fun hbefore => lies_node_iff.mpr ?_⟩
    obtain ⟨hordered, hfront, hstop⟩ := lies_node_iff.mp (hname.imp hbefore)
    obtain ⟨hordered', hfront'⟩ := hordered.parameters (name.name?.getD "")
    exact ⟨hordered', hfront' ▸ hfront.trans name.front_le_start, hstop⟩
  unfold simpleArrow
  dsimp only
  infer_instance

instance lays_asyncSimpleArrow (resultTypes : Bool) :
    Lays source markers h outset lo left (asyncSimpleArrow? g resultTypes) := by
  unfold asyncSimpleArrow?
  infer_instance

/-! ### Assignments -/

instance steady_endsYield : Steady endsYield := by
  unfold endsYield
  refine .step fun token => ?_
  split <;> infer_instance

instance steady_beginsYield : Steady beginsYield := by
  unfold beginsYield
  infer_instance

instance lays_yieldExpression : Lays source markers h outset lo left (yieldExpression g) := by
  unfold yieldExpression
  infer_instance

instance lays_conditionalRest {condition : Node} [AtMost h outset start]
    [hstart : AtMost h start left] [hleft : AtMost h left lo]
    [hnode : Given source markers h start condition left] (resultTypes : Bool) :
    Lays source markers h outset lo left (conditionalRest g resultTypes start condition) := by
  have hfound : Found source markers h condition start left := ⟨hnode.imp⟩
  have hstart : AtMost h start lo := ⟨fun hbefore => (hstart.imp hbefore).trans (hleft.imp hbefore)⟩
  unfold conditionalRest
  infer_instance

instance lays_assignmentRest {target : Node} [AtMost h outset start]
    [hstart : AtMost h start left] [hleft : AtMost h left lo]
    [hnode : Given source markers h start target left] (resultTypes : Bool) :
    Lays source markers h outset lo left (assignmentRest g resultTypes start target) := by
  have hfound : Found source markers h target start left := ⟨hnode.imp⟩
  have hstart : AtMost h start lo := ⟨fun hbefore => (hstart.imp hbefore).trans (hleft.imp hbefore)⟩
  unfold assignmentRest
  refine .skip fun token => ?_
  split <;> infer_instance

instance lays_assignment (resultTypes : Bool) :
    Lays source markers h outset lo left (assignment g resultTypes) := by
  unfold assignment
  refine .skip fun yields => ?_
  split
  · infer_instance
  refine .step fun arrow? lo₁ left₁ => ?_
  split
  · infer_instance
  refine .step fun arrow? lo₂ left₂ => ?_
  split <;> infer_instance

instance lays_expression : Lays source markers h outset lo left (expression g) := by
  unfold expression commaSequence
  simp only [bind_assoc, pure_bind]
  refine .offset fun start => .step fun first lo₁ left₁ => .step fun rest lo₂ left₂ => ?_
  split
  · next single hitems =>
    obtain ⟨rfl, rfl⟩ : first = single ∧ rest = [] := by simpa using hitems
    infer_instance
  · infer_instance

end Productions

end ModuleLinkage.Syntax
