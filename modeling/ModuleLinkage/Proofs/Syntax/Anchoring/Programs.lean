import ModuleLinkage.Proofs.Syntax.Anchoring.Declarations
import ModuleLinkage.Syntax.Parser

/-!
# Programs are anchored in their text

If the productions of a grammar read a text, then so do those of statements. So by induction on how deep
productions may nest, the whole grammar reads every text, and the tree of a program is anchored in the
text that it is read from (`anchored_of_parse`).
-/

set_option autoImplicit false
set_option synthInstance.maxSize 100000
set_option synthInstance.maxHeartbeats 200000

namespace ModuleLinkage.Syntax

open Text

section Statements

variable {source : List Char} {h : Prop} {bound left : Nat} {g : Grammar} [ReadsAll source g]

/-! ### Simple statements -/

instance reads_block : Reads source h bound left (block g) := by
  unfold block
  infer_instance

instance reads_head : Reads source h bound left (head g) := by
  unfold head
  infer_instance

instance reads_governed : Reads source h bound left (governed g) := by
  unfold governed
  infer_instance

instance reads_endExpressionStatement {start : Nat} [Entails h (LiesFrom source bound start)]
    {expression : Node} [Entails h (expression.Anchored source)] :
    Reads source h bound left (endExpressionStatement start expression) := by
  unfold endExpressionStatement
  infer_instance

instance reads_expressionOrLabelled : Reads source h bound left (expressionOrLabelled g) := by
  unfold expressionOrLabelled
  refine .step fun start => .step fun expression => ?_
  split
  · next name hform =>
    have hname : expression.form.identifier? = some name := by rw [hform]; rfl
    have hlabel : Entails ((h ∧ LiesFrom source bound start) ∧ LiesFrom source bound expression)
        ((Node.mk expression.span (.label name) []).Anchored source) :=
      ⟨fun hboth => hboth.2.1.renamed hname rfl⟩
    infer_instance
  · infer_instance

instance reads_ifStatement : Reads source h bound left (ifStatement g) := by
  unfold ifStatement
  dsimp only
  infer_instance

instance reads_doStatement : Reads source h bound left (doStatement g) := by
  unfold doStatement
  infer_instance

instance reads_whileStatement : Reads source h bound left (whileStatement g) := by
  unfold whileStatement
  infer_instance

instance reads_jumpStatement : Reads source h bound left jumpStatement := by
  unfold jumpStatement
  dsimp only
  infer_instance

instance reads_returnStatement : Reads source h bound left (returnStatement g) := by
  unfold returnStatement
  dsimp only
  infer_instance

instance reads_withStatement : Reads source h bound left (withStatement g) := by
  unfold withStatement
  infer_instance

instance reads_throwStatement : Reads source h bound left (throwStatement g) := by
  unfold throwStatement
  infer_instance

/-! ### Loops with heads -/

instance reads_forLoopRest {start : Nat} [Entails h (LiesFrom source bound start)]
    {parts : List Node} [Entails h (AllAnchored source parts)] :
    Reads source h bound left (forLoopRest g start parts) := by
  unfold forLoopRest
  dsimp only
  infer_instance

instance reads_forEachRest {start : Nat} [Entails h (LiesFrom source bound start)]
    {target : Node} [Entails h (target.Anchored source)] :
    Reads source h bound left (forEachRest g start target) := by
  unfold forEachRest
  infer_instance

instance reads_forVariablesRest {start inner : Nat} [Entails h (LiesFrom source bound start)]
    [Entails h (LiesFrom source bound inner)] {declaration : Node}
    [Entails h (declaration.Anchored source)] (kind : VariableKind) (awaits : Bool) :
    Reads source h bound left (forVariablesRest g start inner kind awaits declaration) := by
  unfold forVariablesRest
  infer_instance

instance reads_forVariables {start inner : Nat} [Entails h (LiesFrom source bound start)]
    [Entails h (LiesFrom source bound inner)] (kind : VariableKind) (awaits : Bool) :
    Reads source h bound left (forVariables g start inner kind awaits) := by
  unfold forVariables
  infer_instance

instance reads_beginsAwaitUsing : Reads source h bound left beginsAwaitUsing := by
  unfold beginsAwaitUsing
  infer_instance

instance reads_beginsUsingHead : Reads source h bound left beginsUsingHead := by
  unfold beginsUsingHead
  infer_instance

instance : Plain VariableKind := .of VariableKind

instance reads_forKeyword : Reads source h bound left forKeyword? := by
  unfold forKeyword?
  refine .step fun token => ?_
  split <;> infer_instance

instance reads_forExpression {start : Nat} [Entails h (LiesFrom source bound start)]
    (awaits : Bool) : Reads source h bound left (forExpression g start awaits) := by
  unfold forExpression
  dsimp only
  infer_instance

instance reads_forStatement : Reads source h bound left (forStatement g) := by
  unfold forStatement
  dsimp only
  refine .step fun start => .step fun _ => .step fun awaits => ?_
  split
  · refine .step fun context => .step fun _ => .step fun _ => .step fun _ => .step fun empty => ?_
    split
    · infer_instance
    · refine .step fun inner => .step fun kind? => ?_
      split <;> infer_instance
  · refine .step fun _ => .step fun empty => ?_
    split
    · infer_instance
    · refine .step fun inner => .step fun kind? => ?_
      split <;> infer_instance

/-! ### Statements with blocks -/

instance reads_caseStatements : Reads source h bound left (caseStatements g) := by
  unfold caseStatements
  refine .step fun _ => .bind (.many (.step fun token => ?_)) fun items => ?_
  · split <;> infer_instance
  · infer_instance

instance reads_switchCase : Reads source h bound left (switchCase g) := by
  unfold switchCase
  infer_instance

instance reads_switchStatement : Reads source h bound left (switchStatement g) := by
  unfold switchStatement
  infer_instance

instance reads_catchClause : Reads source h bound left (catchClause g) := by
  unfold catchClause
  dsimp only
  infer_instance

instance reads_tryStatement : Reads source h bound left (tryStatement g) := by
  unfold tryStatement
  dsimp only
  infer_instance

/-! ### Declarations as statements -/

instance : Plain LetReading := .of LetReading

instance reads_letStatement (place : StatementPlace) :
    Reads source h bound left (letStatement g place) := by
  unfold letStatement
  refine .step fun start => .step fun reading? => ?_
  split <;> infer_instance

instance reads_usingStatement {start : Nat} [Entails h (LiesFrom source bound start)]
    (kind : VariableKind) : Reads source h bound left (usingStatement g start kind) := by
  unfold usingStatement
  exact .bind_of gives_variableDeclaration inferInstance fun node => inferInstance

instance reads_decoratedStatement (place : StatementPlace) :
    Reads source h bound left (decoratedStatement g place) := by
  unfold decoratedStatement
  refine .step fun start => .step fun decorators => ⟨fun s => ?_⟩
  refine (Reads.run s).bind fun isExport s' hword => ?_
  obtain ⟨rfl, htoken⟩ := token_of_isAtWord hword
  split
  · next hexport =>
    refine (reads_offset.run s').bind fun start s'' hoffset => ?_
    cases hoffset
    exact .behindKeyword (by decide) (fun _ _ _ => inferInstance)
      (fun _ hrun => ⟨htoken hexport, hrun⟩) (refuses_exportBody g _ _) inferInstance
  · exact Reads.run s'

instance reads_classStatement (place : StatementPlace) :
    Reads source h bound left (classStatement g place) := by
  unfold classStatement
  infer_instance

/-- A statement is read as an import where its keyword stands. -/
theorem ReadsAt.importStatement {s : State} {escaped : Bool}
    (htoken : s.lexeme.token = .word "import" escaped) :
    ReadsAt source h bound left s (importStatement g) := by
  unfold Syntax.importStatement
  refine (reads_offset.run s).bind fun start s' hoffset => ?_
  cases hoffset
  refine ((reads_nextSees _).run s).bind fun isExpression s' hsees => ?_
  obtain ⟨notArrows, rfl⟩ := still_of_nextSees hsees
  split
  · exact Reads.run _
  · exact .behindKeyword (by decide) (fun _ _ _ => inferInstance)
      (fun _ hrun => ⟨⟨escaped, htoken⟩, hrun⟩) (refuses_importBody _) inferInstance

instance reads_otherStatement (place : StatementPlace) :
    Reads source h bound left (otherStatement g place) := by
  unfold otherStatement
  infer_instance

instance reads_constStatement (place : StatementPlace) :
    Reads source h bound left (constStatement g place) := by
  unfold constStatement
  infer_instance

/-! ### Statements -/

/-- A statement begins with the word that is the present token. -/
theorem ReadsAt.wordStatement (place : StatementPlace) {s : State} {word : String} {escaped : Bool}
    (htoken : s.lexeme.token = .word word escaped) :
    ReadsAt source h bound left s (wordStatement g place word escaped) := by
  unfold Syntax.wordStatement
  refine (reads_offset.run s).bind fun start s' hoffset => ?_
  cases hoffset
  split
  case h_17 => exact .importStatement htoken
  case h_18 =>
    exact .behindKeyword (by decide) (fun _ _ _ => inferInstance)
      (fun _ hrun => ⟨⟨escaped, htoken⟩, hrun⟩) (refuses_exportBody g _ _) inferInstance
  all_goals exact Reads.run s

instance reads_statement (place : StatementPlace) :
    Reads source h bound left (statement g place) := by
  unfold statement
  refine ⟨fun s => .present ?_⟩
  split
  case h_4 => next htoken => exact .wordStatement place htoken
  all_goals exact Reads.run s

end Statements

/-! ### Programs -/

variable {source : List Char}

instance readsAll_production {g : Grammar} [ReadsAll source g] : ReadsAll source (production g) := by
  refine ⟨fun h bound left nonterminal => ?_⟩
  cases nonterminal
  all_goals
    unfold production
    infer_instance

/-- The grammar reads every text, however deep its productions may nest. -/
instance readsAll_grammar (depth : Nat) : ReadsAll source (grammar depth) := by
  induction depth with
  | zero => exact ⟨fun h bound left nonterminal => reads_fail⟩
  | succ depth ih =>
    refine ⟨fun h bound left nonterminal => ?_⟩
    exact (readsAll_production).reads h bound left nonterminal

theorem anchored_of_program {g : Grammar} [ReadsAll source g] {s s' : State} {node : Node}
    (hsound : s.Sound source) (hrun : program g s = .done node s') : node.Anchored source := by
  obtain ⟨start, s₀, hget, hrest⟩ := done_of_bind hrun
  cases hget
  obtain ⟨items, s₁, hitems, hbehind⟩ := done_of_bind hrest
  obtain ⟨token, s₂, hpresent, hjudging⟩ := done_of_bind hbehind
  cases hpresent
  obtain ⟨_, s₂, hend, hlast⟩ := done_of_bind hjudging
  obtain rfl := (done_of_require hend).2
  obtain ⟨state, s₃, hget, hgiving⟩ := done_of_bind hlast
  cases hget
  obtain ⟨_, s₃, hsoundness, hpure⟩ := done_of_bind hgiving
  cases hpure
  have hclean : s₂.faulty = false := by
    have hboth := (done_of_require hsoundness).1
    simp only [Bool.and_eq_true, Bool.not_eq_true'] at hboth
    exact hboth.1
  obtain ⟨-, hgives⟩ := (inferInstance : Reads source True 0 0 (statements g)).run s items s₂ hitems
  obtain ⟨-, -, hlies⟩ := hgives hclean trivial hsound (Nat.zero_le _) (Nat.zero_le _)
  have hitems : AllAnchored source items := fun item hitem => (hlies item hitem).1
  have hstart : isBoundary source 0 = true := isBoundary_of_append (List.nil_append source).symm
  have hstop : isBoundary source s.total = true := by
    rw [hsound.total]
    exact isBoundary_of_append (List.append_nil source).symm
  exact .mk hstart hstop trivial (anchored_withDirectives hitems)

/-- The tree of a program is anchored in the text that it is read from. -/
theorem anchored_of_parse {settings : Settings} {text : List Char} {program : Node}
    (hparse : parse settings text = .ok program) : program.Anchored text := by
  unfold parse at hparse
  dsimp only at hparse
  split at hparse
  · next hrun =>
    cases hparse
    refine anchored_of_program
      ⟨rfl, stands_readLexeme _ _ Place.Apart.start, ?_, Nat.zero_le _,
        Lexeme.isNext_readLexeme Place.Apart.start id _⟩ hrun
    exact Place.Apart.start.isIn.isBoundary
  · cases hparse

end ModuleLinkage.Syntax
