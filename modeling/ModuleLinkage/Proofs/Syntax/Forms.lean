import ModuleLinkage.Proofs.Syntax.Anchoring.Declarations
import ModuleLinkage.Syntax.Parser

/-!
# The forms of what parsers give

What form a parser gives depends on its last step alone, and the instances of `GivesForm` look at nothing
else. A declaration has one of the forms of declarations, and an expression none of them, nor that of a
decorator.
-/

set_option autoImplicit false
set_option synthInstance.maxSize 100000
set_option synthInstance.maxHeartbeats 200000

namespace ModuleLinkage.Syntax

/-- Whether what a parser gives has a form that passes a test. -/
class GivesForm (test : Form → Bool) (parser : Parser Node) : Prop where
  gives : Gives parser fun node => test node.form = true

section Rules

variable {α : Type} {test : Form → Bool} {parser other : Parser Node} {start : Nat} {form : Form}
  {parts : List Node}

theorem GivesForm.imp {test' : Form → Bool} (h : GivesForm test parser)
    (himp : ∀ form, test form = true → test' form = true) : GivesForm test' parser :=
  ⟨fun s node s' hrun => himp _ (h.gives s node s' hrun)⟩

instance givesForm_bind {first : Parser α} {next : α → Parser Node}
    [hnext : ∀ value, GivesForm test (next value)] : GivesForm test (first >>= next) :=
  ⟨.bind fun value => (hnext value).gives⟩

instance givesForm_ite {condition : Prop} [Decidable condition] [hparser : GivesForm test parser]
    [hother : GivesForm test other] : GivesForm test (if condition then parser else other) := by
  split
  · exact hparser
  · exact hother

instance givesForm_fail : GivesForm test Parser.fail := ⟨gives_fail⟩

instance givesForm_within {change : Context → Context} [hparser : GivesForm test parser] :
    GivesForm test (Parser.within change parser) :=
  ⟨gives_within hparser.gives⟩

instance givesForm_finish [hform : Holds (test form)] : GivesForm test (finish start form parts) :=
  ⟨gives_finish fun _ => hform.eq⟩

instance givesForm_leaf [hform : Holds (test form)] : GivesForm test (leaf form) :=
  ⟨gives_leaf fun _ => hform.eq⟩

instance givesForm_nameLeaf [hform : Holds (test form)] : GivesForm test (nameLeaf form) :=
  ⟨gives_nameLeaf fun _ => hform.eq⟩

instance givesForm_variableName {form : String → Form} [hform : ∀ name, Holds (test (form name))] :
    GivesForm test (variableName form) :=
  ⟨gives_variableName fun _ name => (hform name).eq⟩

end Rules

variable {g : Grammar} {start : Nat} {decorators : List Node}

/-! ### Declarations -/

/-- The forms of declarations that begin with what they begin with, as classes need not. -/
@[reducible] def Form.isPlainDeclaration : Form → Bool
  | .function .declaration _ | .variableDeclaration _ _ | .typeAlias | .interface => true
  | .enumeration _ | .namespaceDeclaration _ | .globalDeclaration | .importAlias => true
  | _ => false

/-- The forms of declarations. -/
@[reducible] def Form.isDeclaration : Form → Bool
  | .classDefinition .declaration _ => true
  | form => form.isPlainDeclaration

instance form_variableDeclaration {kind : VariableKind} {inHead ambient : Bool} :
    GivesForm Form.isPlainDeclaration (variableDeclaration g start kind inHead ambient) := by
  unfold variableDeclaration
  infer_instance

instance form_variableStatement {kind : VariableKind} {ambient : Bool} :
    GivesForm Form.isPlainDeclaration (variableStatement g start kind ambient) := by
  unfold variableStatement
  refine ⟨.bind_of (gives_within form_variableDeclaration.gives) fun node hform => .bind fun _ => ?_⟩
  exact gives_finish fun _ => hform

instance form_usingStatement {kind : VariableKind} :
    GivesForm Form.isPlainDeclaration (usingStatement g start kind) := by
  unfold usingStatement
  refine ⟨.bind_of form_variableDeclaration.gives fun node hform => .bind fun _ => ?_⟩
  exact gives_finish fun _ => hform

instance form_functionDeclaration {isAsync ambient nameOptional : Bool} :
    GivesForm Form.isPlainDeclaration (functionDeclaration g start isAsync ambient nameOptional) := by
  unfold functionDeclaration
  dsimp only
  refine ⟨.bind fun _ => .bind fun _ => .bind fun _ => ?_⟩
  exact .bind_of (gives_finish fun _ => rfl) fun node hform => .bind fun _ => gives_pure hform

instance form_functionStatement {place : StatementPlace} :
    GivesForm Form.isPlainDeclaration (functionStatement g place) := by
  unfold functionStatement
  infer_instance

instance form_classDefinition {modifiers : List String} :
    GivesForm Form.isDeclaration (classDefinition g start decorators modifiers .declaration) := by
  unfold classDefinition
  dsimp only
  infer_instance

instance form_interfaceDeclaration : GivesForm Form.isPlainDeclaration (interfaceDeclaration g start) := by
  unfold interfaceDeclaration
  infer_instance

instance form_namespaceDeclaration {ambient : Bool} :
    GivesForm Form.isPlainDeclaration (namespaceDeclaration g start ambient) := by
  unfold namespaceDeclaration namedModule
  dsimp only
  infer_instance

instance form_importAlias {name : Node} : GivesForm Form.isPlainDeclaration (importAlias start name) := by
  unfold importAlias
  dsimp only
  infer_instance

theorem Form.isDeclaration_of_isPlain {form : Form} (h : form.isPlainDeclaration = true) :
    form.isDeclaration = true := by
  unfold Form.isDeclaration
  split
  · rfl
  · exact h

instance (priority := low) form_plainDeclaration {parser : Parser Node}
    [hform : GivesForm Form.isPlainDeclaration parser] : GivesForm Form.isDeclaration parser :=
  hform.imp fun _ => Form.isDeclaration_of_isPlain

/-- A declaration that does not begin with the word `class` is none. -/
theorem form_of_declarationBody {modifiers : List String} {s s' : State} {node : Node}
    (hrun : declarationBody g start decorators modifiers s = .done node s')
    (hother : ∀ escaped, s.lexeme.token ≠ .word "class" escaped) :
    node.form.isPlainDeclaration = true := by
  unfold declarationBody typeAlias globalDeclaration enumeration aliasDeclaration at hrun
  obtain ⟨types, s₁, htypes, hrun⟩ := done_of_bind hrun
  cases htypes
  obtain ⟨token, s₂, hpresent, hrun⟩ := done_of_bind hrun
  obtain ⟨htoken, rfl⟩ := Outcome.done.inj hpresent
  change s.lexeme.token = token at htoken
  dsimp only at hrun
  split at hrun
  case h_4 => exact absurd htoken (hother _)
  case h_5 =>
    refine (?_ : GivesForm Form.isPlainDeclaration _).gives _ _ _ hrun
    refine ⟨.bind fun isFunction => ?_⟩
    split
    · exact (inferInstance : GivesForm Form.isPlainDeclaration _).gives
    refine .bind fun _ => ?_
    split
    · exact (inferInstance : GivesForm Form.isPlainDeclaration _).gives
    refine .bind fun _ => ?_
    split <;> exact (inferInstance : GivesForm Form.isPlainDeclaration _).gives
  all_goals exact (inferInstance : GivesForm Form.isPlainDeclaration _).gives _ _ _ hrun

/-- One that does is a class. -/
theorem declarationBody_of_class {modifiers : List String} {s : State} {escaped : Bool}
    (htoken : s.lexeme.token = .word "class" escaped) :
    declarationBody g start decorators modifiers s =
      classDefinition g start decorators modifiers .declaration s := by
  obtain ⟨settings, context, ⟨token, span, newline, next⟩, previousStop, total, faulty, notArrows⟩ := s
  cases htoken
  rfl

instance form_declarationBody {modifiers : List String} :
    GivesForm Form.isDeclaration (declarationBody g start decorators modifiers) := by
  refine ⟨fun s node s' hrun => ?_⟩
  by_cases hclass : ∃ escaped, s.lexeme.token = .word "class" escaped
  · obtain ⟨escaped, htoken⟩ := hclass
    rw [declarationBody_of_class htoken] at hrun
    exact form_classDefinition.gives s node s' hrun
  · exact Form.isDeclaration_of_isPlain (form_of_declarationBody hrun (not_exists.mp hclass))

theorem form_declaration {awaits : Bool} :
    Gives (declaration g start decorators awaits) fun pair => pair.1.form.isDeclaration = true := by
  have hbody (modifiers : List String) (change : Context → Context) : Gives (do
      let node ← Parser.within change (declarationBody g start decorators modifiers)
      return (node, modifiers.contains "declare")) fun pair => pair.1.form.isDeclaration = true :=
    .bind_of (gives_within form_declarationBody.gives) fun node hform => gives_pure hform
  unfold declaration
  refine .bind fun types => ?_
  split
  · exact .bind fun modifiers => hbody modifiers _
  · exact .bind fun modifiers => hbody modifiers _

/-! ### Expressions -/

/-- The forms that expressions may have. -/
@[reducible] def Form.isOperand : Form → Bool
  | .function .declaration _ | .classDefinition .declaration _ | .decorator => false
  | .exportDeclaration _ | .exportDefault => false
  | _ => true

/-- The nonterminals that are expressions. -/
@[reducible] def Nonterminal.isOperand : Nonterminal → Bool
  | .expression | .assignment _ | .operators _ | .unary | .leftHandSide | .member | .markup => true
  | _ => false

/-- Whether the expressions of a grammar have forms of expressions. -/
class GivesOperands (g : Grammar) : Prop where
  gives : ∀ nonterminal, nonterminal.isOperand = true →
    GivesForm Form.isOperand (g nonterminal)

instance form_nonterminal [hall : GivesOperands g] {nonterminal : Nonterminal}
    [hoperand : Holds nonterminal.isOperand] : GivesForm Form.isOperand (g nonterminal) :=
  hall.gives nonterminal hoperand.eq

/-! #### Primary expressions -/

instance form_template {tagged : Bool} : GivesForm Form.isOperand (template g tagged) := by
  unfold template
  infer_instance

instance form_regularExpression : GivesForm Form.isOperand regularExpression := by
  unfold regularExpression
  dsimp only
  refine ⟨.bind fun state => ?_⟩
  split <;> exact (inferInstance : GivesForm Form.isOperand _).gives

instance form_classExpression : GivesForm Form.isOperand (classExpression g) := by
  unfold classExpression classDefinition
  dsimp only
  infer_instance

instance form_superExpression : GivesForm Form.isOperand superExpression := by
  unfold superExpression
  exact ⟨.bind_of (gives_leaf fun _ => rfl) fun node hform => .bind fun _ => .bind fun _ =>
    .bind fun _ => .bind fun _ => gives_pure hform⟩

instance form_markup : GivesForm Form.isOperand (markup g) := by
  have hfinish (start : Nat) (parts : List Node) :
      GivesForm Form.isOperand (finishAtPresent start .markup parts) :=
    ⟨.bind fun _ => gives_pure rfl⟩
  unfold markup
  infer_instance

/-! #### Arrow functions -/

instance form_arrowFunction {resultTypes : Bool} {head : ArrowHead} :
    GivesForm Form.isOperand (arrowFunction g resultTypes head) := by
  unfold arrowFunction
  infer_instance

instance form_simpleArrow {isAsync resultTypes : Bool} {name : Node} :
    GivesForm Form.isOperand (simpleArrow g start isAsync resultTypes name) := by
  unfold simpleArrow
  dsimp only
  infer_instance

theorem gives_possibleArrow {resultTypes : Bool} :
    Gives (possibleArrow? g resultTypes) fun arrow? => ∀ arrow ∈ arrow?, arrow.form.isOperand = true := by
  intro s value s' hrun
  obtain ⟨arrow, rfl, harrow⟩ | ⟨rfl, -⟩ := cases_possibleArrow hrun
  · have hform : GivesForm Form.isOperand (arrowHead g >>= arrowFunction g resultTypes) :=
      inferInstance
    exact fun _ hnext => Option.mem_some.mp hnext ▸ hform.gives s arrow s' harrow
  · exact fun _ hnext => absurd hnext (Option.not_mem_none _)

theorem gives_parenthesizedArrow {resultTypes : Bool} :
    Gives (parenthesizedArrow? g resultTypes) fun arrow? =>
      ∀ arrow ∈ arrow?, arrow.form.isOperand = true := by
  unfold parenthesizedArrow?
  dsimp only
  refine .bind fun token => ?_
  split
  all_goals
    refine .bind fun mayBegin => ?_
    split
    · exact gives_none
    refine .bind fun answer? => ?_
    split
    · exact gives_none
    · exact .bind fun head => .bind_of form_arrowFunction.gives fun _ hform => gives_some hform
    · exact gives_possibleArrow

theorem gives_asyncSimpleArrow {resultTypes : Bool} :
    Gives (asyncSimpleArrow? g resultTypes) fun arrow? =>
      ∀ arrow ∈ arrow?, arrow.form.isOperand = true := by
  unfold asyncSimpleArrow?
  refine .bind fun isAsync => ?_
  split
  · exact gives_none
  refine .bind fun begins => ?_
  split
  · exact gives_none
  exact .bind fun start => .bind fun _ => .bind fun name => .bind_of form_simpleArrow.gives
    fun _ hform => gives_some hform

variable [GivesOperands g]

instance form_markupExpression : GivesForm Form.isOperand (markupExpression g) := by
  unfold markupExpression
  exact ⟨.bind fun _ => .bind fun _ => .bind_of form_nonterminal.gives fun node hform =>
    .bind fun _ => gives_pure hform⟩

instance form_wordExpression {word : String} : GivesForm Form.isOperand (wordExpression g word) := by
  unfold wordExpression construction importExpression functionExpression
  dsimp only
  split <;> infer_instance

instance form_primary : GivesForm Form.isOperand (primary g) := by
  unfold primary parenthesized objectLiteral
  refine ⟨.bind fun start => .bind fun token => ?_⟩
  split <;> exact (inferInstance : GivesForm Form.isOperand _).gives

/-! #### Members and calls -/

/-- Whether what a parser reads accesses behind is an expression. -/
class GivesAccess (parser : Parser (Option Access)) : Prop where
  gives : Gives parser fun next? => ∀ next ∈ next?, next.node.form.isOperand = true

instance access_bind {α : Type} {first : Parser α} {next : α → Parser (Option Access)}
    [hnext : ∀ value, GivesAccess (next value)] : GivesAccess (first >>= next) :=
  ⟨.bind fun value => (hnext value).gives⟩

instance (priority := 1100) access_some {parser : Parser Node} {chained : Bool}
    [hparser : GivesForm Form.isOperand parser] :
    GivesAccess (parser >>= fun node => pure (some (Access.mk node chained))) :=
  ⟨.bind_of hparser.gives fun _ hform => gives_pure fun _ hnext => Option.mem_some.mp hnext ▸ hform⟩

instance access_none : GivesAccess (pure none) := ⟨gives_pure nofun⟩

instance access_ite {condition : Prop} [Decidable condition] {first second : Parser (Option Access)}
    [hfirst : GivesAccess first] [hsecond : GivesAccess second] :
    GivesAccess (if condition then first else second) := by
  split
  · exact hfirst
  · exact hsecond

instance access_memberStep {optional : Bool} {access : Access} :
    GivesAccess (memberStep g optional start access) := by
  unfold memberStep
  dsimp only
  refine ⟨.bind fun token => ?_⟩
  split
  case h_6 =>
    refine .bind fun arguments? => ?_
    split <;> exact (inferInstance : GivesAccess _).gives
  all_goals exact (inferInstance : GivesAccess _).gives

instance access_callStep {access : Access} : GivesAccess (callStep g start access) := by
  unfold callStep
  refine ⟨.bind_of access_memberStep.gives fun next? hnext => ?_⟩
  split
  · exact gives_pure hnext
  · dsimp only
    exact (inferInstance : GivesAccess _).gives

/-- Steps that read accesses behind an expression give an expression. -/
theorem gives_accesses {step : Access → Parser (Option Access)} {first : Node}
    [hstep : ∀ access, GivesAccess (step access)] (hfirst : first.form.isOperand = true) :
    Gives (Parser.iterate step { node := first }) fun access => access.node.form.isOperand = true :=
  .bind fun _ => gives_iterateUpTo (fun access _ => (hstep access).gives) _ hfirst

instance form_member : GivesForm Form.isOperand (member g) := by
  unfold member
  exact ⟨.bind fun start => .bind_of form_primary.gives fun first hfirst =>
    .bind_of (gives_accesses hfirst) fun access haccess => gives_pure haccess⟩

instance form_leftHandSide : GivesForm Form.isOperand (leftHandSide g) := by
  unfold leftHandSide
  refine ⟨.bind fun start => .bind_of form_primary.gives fun first hfirst =>
    .bind_of (gives_accesses hfirst) fun access haccess => ?_⟩
  split
  · exact gives_finish fun _ => rfl
  · exact gives_pure haccess

/-! #### Operators -/

instance form_updated : GivesForm Form.isOperand (updated g) := by
  unfold updated
  dsimp only
  refine ⟨.bind fun start => .bind fun _ => .bind fun _ => ?_⟩
  split
  · exact (inferInstance : GivesForm Form.isOperand _).gives
  refine .bind_of form_nonterminal.gives fun operand hoperand => .bind fun _ => .bind fun _ =>
    .bind fun _ => ?_
  split
  · exact (inferInstance : GivesForm Form.isOperand _).gives
  · exact gives_pure hoperand

instance form_unary : GivesForm Form.isOperand (unary g) := by
  unfold unary
  refine ⟨.bind fun start => .bind fun operator? => ?_⟩
  split <;> exact (inferInstance : GivesForm Form.isOperand _).gives

omit [GivesOperands g] in
theorem gives_binaryStep {above : Nat} {leftEnclosed : Bool} {operand : Node} :
    Gives (binaryStep g above start leftEnclosed operand) fun next? =>
      ∀ next ∈ next?, next.form.isOperand = true := by
  have hgiven {form : Form} {parts : List Node} (hform : form.isOperand = true) :
      Gives (finish start form parts >>= fun node => pure (some node)) fun next? =>
        ∀ next ∈ next?, next.form.isOperand = true :=
    .bind_of (gives_finish fun _ => hform) fun _ hform => gives_some hform
  unfold binaryStep
  refine .bind fun operator? => ?_
  split
  · exact gives_none
  dsimp only
  split
  all_goals
    split
    · exact gives_none
    refine .bind fun _ => ?_
    split
    · exact .bind fun _ => hgiven rfl
    · exact .bind fun _ => .bind fun _ => .bind fun _ => hgiven rfl

instance form_operators {above : Nat} : GivesForm Form.isOperand (operators g above) := by
  have hrest {parser : Parser Node} (hparser : GivesForm Form.isOperand parser) (start : Nat)
      (enclosed : Bool) : Gives (do
        let first ← parser
        Parser.iterate (binaryStep g above start enclosed) first) fun node =>
          node.form.isOperand = true :=
    .bind_of hparser.gives fun first hfirst => .bind fun _ =>
      gives_iterateUpTo (fun _ _ => gives_binaryStep) _ hfirst
  unfold operators privateTest
  dsimp only
  refine ⟨.bind fun start => .bind fun enclosed => .bind fun token => ?_⟩
  split
  · exact .bind fun _ => .bind fun _ => hrest inferInstance _ _
  · exact hrest inferInstance _ _

/-! #### Assignments -/

omit [GivesOperands g] in
theorem form_conditionalRest {resultTypes : Bool} {condition : Node}
    (hcondition : condition.form.isOperand = true) :
    GivesForm Form.isOperand (conditionalRest g resultTypes start condition) := by
  unfold conditionalRest
  refine ⟨.bind fun _ => ?_⟩
  split
  · exact (inferInstance : GivesForm Form.isOperand _).gives
  · exact gives_pure hcondition

omit [GivesOperands g] in
theorem form_assignmentRest {resultTypes : Bool} {operand : Node}
    (hoperand : operand.form.isOperand = true) :
    GivesForm Form.isOperand (assignmentRest g resultTypes start operand) := by
  have hrest : GivesForm Form.isOperand (conditionalRest g resultTypes start operand) :=
    form_conditionalRest hoperand
  unfold assignmentRest
  refine ⟨.bind fun token => ?_⟩
  split <;> exact (inferInstance : GivesForm Form.isOperand _).gives

instance form_assignment {resultTypes : Bool} : GivesForm Form.isOperand (assignment g resultTypes) := by
  unfold assignment yieldExpression
  refine ⟨.bind fun yields => ?_⟩
  split
  · exact (inferInstance : GivesForm Form.isOperand _).gives
  refine .bind_of gives_parenthesizedArrow fun arrow? harrow => ?_
  split
  · next arrow => exact gives_pure (harrow arrow rfl)
  refine .bind_of gives_asyncSimpleArrow fun arrow? harrow => ?_
  split
  · next arrow => exact gives_pure (harrow arrow rfl)
  exact .bind fun start => .bind_of form_nonterminal.gives fun operand hoperand =>
    (form_assignmentRest hoperand).gives

instance form_expression : GivesForm Form.isOperand (expression g) := by
  unfold expression commaSequence
  simp only [bind_assoc, pure_bind]
  refine ⟨.bind fun start => .bind_of form_nonterminal.gives fun first hfirst => .bind fun rest => ?_⟩
  split
  · next single hitems =>
    obtain rfl : first = single := (List.cons.inj hitems).1
    exact gives_pure hfirst
  · exact gives_finish fun _ => rfl

/-- The expressions of the whole grammar have forms of expressions, however deep productions nest. -/
instance givesOperands_grammar (depth : Nat) : GivesOperands (grammar depth) := by
  induction depth with
  | zero => exact ⟨fun nonterminal _ => givesForm_fail⟩
  | succ depth ih =>
    refine ⟨fun nonterminal hoperand => ?_⟩
    change GivesForm Form.isOperand (production (grammar depth) nonterminal)
    unfold production
    cases nonterminal <;> first | infer_instance | cases hoperand

end ModuleLinkage.Syntax
