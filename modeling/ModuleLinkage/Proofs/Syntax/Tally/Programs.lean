import ModuleLinkage.Proofs.Syntax.Tally.Declarations
import ModuleLinkage.Syntax.Parser

/-!
# At most one declaration begins at an offset

If the productions of a grammar keep within their budgets, then so do those of statements. So by
induction on how deep productions may nest, the whole grammar keeps within its budget. A program
goes past an offset once, so that at most one declaration that may request a module begins there
(`tally_le_one_of_parse`).
-/

set_option autoImplicit false
set_option synthInstance.maxSize 100000
set_option synthInstance.maxHeartbeats 200000

namespace ModuleLinkage.Syntax

section Statements

variable {offset budget left : Nat} {g : Grammar} [AffordsAll offset g]

/-! ### Simple statements -/

instance leaves_block : Leaves offset budget (block g) budget := by
  unfold block
  infer_instance

instance leaves_head : Leaves offset budget (head g) budget := by
  unfold head
  infer_instance

instance leaves_governed : Leaves offset budget (governed g) budget := by
  unfold governed
  infer_instance

instance leaves_endExpressionStatement (start : Nat) {expression : Node}
    [Takes offset budget expression left] :
    Leaves offset budget (endExpressionStatement start expression) left := by
  refine .of_takes expression ?_
  unfold endExpressionStatement
  infer_instance

instance leaves_expressionOrLabelled : Leaves offset budget (expressionOrLabelled g) budget := by
  unfold expressionOrLabelled
  refine .of_affords (.step fun start => .step fun expression => ?_)
  split <;> infer_instance

instance leaves_ifStatement : Leaves offset budget (ifStatement g) budget := by
  unfold ifStatement
  dsimp only
  infer_instance

instance leaves_doStatement : Leaves offset budget (doStatement g) budget := by
  unfold doStatement
  infer_instance

instance leaves_whileStatement : Leaves offset budget (whileStatement g) budget := by
  unfold whileStatement
  infer_instance

instance leaves_jumpStatement : Leaves offset budget jumpStatement budget := by
  unfold jumpStatement
  dsimp only
  infer_instance

instance leaves_returnStatement : Leaves offset budget (returnStatement g) budget := by
  unfold returnStatement
  dsimp only
  infer_instance

instance leaves_withStatement : Leaves offset budget (withStatement g) budget := by
  unfold withStatement
  infer_instance

instance leaves_throwStatement : Leaves offset budget (throwStatement g) budget := by
  unfold throwStatement
  infer_instance

/-! ### Loops with heads -/

instance leaves_forLoopRest (start : Nat) {parts : List Node} [Takes offset budget parts left] :
    Leaves offset budget (forLoopRest g start parts) left := by
  refine .of_takes parts ?_
  unfold forLoopRest
  dsimp only
  infer_instance

instance leaves_forEachRest (start : Nat) {target : Node} [Takes offset budget target left] :
    Leaves offset budget (forEachRest g start target) left := by
  refine .of_takes target ?_
  unfold forEachRest
  infer_instance

instance leaves_forVariablesRest (start inner : Nat) {declaration : Node}
    [Takes offset budget declaration left] (kind : VariableKind) (awaits : Bool) :
    Leaves offset budget (forVariablesRest g start inner kind awaits declaration) left := by
  refine .of_takes declaration ?_
  unfold forVariablesRest
  infer_instance

instance leaves_forVariables (start inner : Nat) (kind : VariableKind) (awaits : Bool) :
    Leaves offset budget (forVariables g start inner kind awaits) budget := by
  unfold forVariables
  infer_instance

instance leaves_beginsAwaitUsing : Leaves offset budget beginsAwaitUsing budget := by
  unfold beginsAwaitUsing
  infer_instance

instance leaves_beginsUsingHead : Leaves offset budget beginsUsingHead budget := by
  unfold beginsUsingHead
  infer_instance

instance : Tallyless VariableKind := .of VariableKind

instance leaves_forKeyword : Leaves offset budget forKeyword? budget := by
  unfold forKeyword?
  refine .of_affords (.step fun token => ?_)
  split <;> infer_instance

instance leaves_forExpression (start : Nat) (awaits : Bool) :
    Leaves offset budget (forExpression g start awaits) budget := by
  unfold forExpression
  dsimp only
  infer_instance

instance leaves_forStatement : Leaves offset budget (forStatement g) budget := by
  unfold forStatement
  dsimp only
  refine .of_affords (.step fun start => .step fun _ => .step fun awaits => ?_)
  split
  · refine .step fun context => .step fun _ => .step fun _ => .step fun _ => .step fun empty => ?_
    split
    · infer_instance
    · refine .step fun inner => .step fun kind? => ?_
      split <;> infer_instance
  · refine .step fun _ => .step fun empty => ?_
    split
    · infer_instance
    · refine .step fun inner => .step fun kind? => ?_
      split <;> infer_instance

/-! ### Statements with blocks -/

instance leaves_caseStatements : Leaves offset budget (caseStatements g) budget := by
  unfold caseStatements
  refine .of_affords (.step fun _ => .bind (.many (.step fun token => ?_)) fun items => ?_)
  · split <;> infer_instance
  · infer_instance

instance leaves_switchCase : Leaves offset budget (switchCase g) budget := by
  unfold switchCase
  infer_instance

instance leaves_switchStatement : Leaves offset budget (switchStatement g) budget := by
  unfold switchStatement
  infer_instance

instance leaves_catchClause : Leaves offset budget (catchClause g) budget := by
  unfold catchClause
  dsimp only
  infer_instance

instance leaves_tryStatement : Leaves offset budget (tryStatement g) budget := by
  unfold tryStatement
  dsimp only
  infer_instance

/-! ### Declarations as statements -/

instance : Tallyless LetReading := .of LetReading

instance leaves_letStatement (place : StatementPlace) :
    Leaves offset budget (letStatement g place) budget := by
  unfold letStatement
  refine .of_affords (.step fun start => .step fun reading? => ?_)
  split <;> infer_instance

instance leaves_usingStatement (start : Nat) (kind : VariableKind) :
    Leaves offset budget (usingStatement g start kind) budget := by
  unfold usingStatement
  exact .of_affords (.step_of denies_variableDeclaration fun node _ => inferInstance)

/-- An export behind decorators begins behind them. -/
instance leaves_decoratedStatement (place : StatementPlace) :
    Leaves offset budget (decoratedStatement g place) budget := by
  unfold decoratedStatement
  refine .of_affords (.step fun start => .step fun decorators => ⟨fun s => ?_⟩)
  refine LeavesAt.bind ((leaves_isAtWord _).run s) fun isExport s' hword => ?_
  obtain ⟨rfl, htoken⟩ := token_of_isAtWord hword
  split
  · next hexport =>
    refine LeavesAt.bind (leaves_offset.run s') fun start s'' hoffset => ?_
    cases hoffset
    exact .behindWord (fun _ hrun => ⟨htoken hexport, hrun⟩) affords_of_leaves
  · exact Affords.run s'

instance leaves_classStatement (place : StatementPlace) :
    Leaves offset budget (classStatement g place) budget := by
  unfold classStatement
  infer_instance

/-- A statement is read as an import where its keyword stands. -/
theorem LeavesAt.importStatement {s : State} {escaped : Bool}
    (htoken : s.lexeme.token = .word "import" escaped) :
    LeavesAt offset 0 0 s (importStatement g) := by
  unfold Syntax.importStatement
  refine LeavesAt.bind (leaves_offset.run s) fun start s' hoffset => ?_
  cases hoffset
  refine LeavesAt.bind ((leaves_nextSees _).run s) fun isExpression s' hsees => ?_
  obtain ⟨notArrows, rfl⟩ := still_of_nextSees hsees
  split
  · exact Affords.run _
  · exact .behindWord (fun _ hrun => ⟨⟨escaped, htoken⟩, hrun⟩) affords_of_leaves

instance leaves_otherStatement (place : StatementPlace) :
    Leaves offset budget (otherStatement g place) budget := by
  unfold otherStatement
  infer_instance

instance leaves_constStatement (place : StatementPlace) :
    Leaves offset budget (constStatement g place) budget := by
  unfold constStatement
  infer_instance

/-! ### Statements -/

/-- A statement begins with the word that is the present token. -/
theorem LeavesAt.wordStatement (place : StatementPlace) {s : State} {word : String} {escaped : Bool}
    (htoken : s.lexeme.token = .word word escaped) :
    LeavesAt offset 0 0 s (wordStatement g place word escaped) := by
  unfold Syntax.wordStatement
  refine LeavesAt.bind (leaves_offset.run s) fun start s' hoffset => ?_
  cases hoffset
  split
  -- Behind `import` and `export` the word itself has gained what the declaration takes.
  case h_17 => exact .importStatement htoken
  case h_18 => exact .behindWord (fun _ hrun => ⟨⟨escaped, htoken⟩, hrun⟩) affords_of_leaves
  all_goals exact Affords.run s

instance leaves_statement (place : StatementPlace) :
    Leaves offset budget (statement g place) budget := by
  unfold statement
  refine .of_affords ⟨fun s => LeavesAt.bind (leaves_present.run s) fun token s' hpresent => ?_⟩
  cases hpresent
  split
  case h_4 => next htoken => exact .wordStatement place htoken
  all_goals exact Affords.run s

end Statements

/-! ### Programs -/

variable {offset : Nat}

instance affordsAll_production {g : Grammar} [AffordsAll offset g] : AffordsAll offset (production g) := by
  refine ⟨fun nonterminal => ?_⟩
  cases nonterminal
  all_goals
    unfold production
    infer_instance

/-- The grammar keeps within its budget, however deep its productions may nest. -/
instance affordsAll_grammar (depth : Nat) : AffordsAll offset (grammar depth) := by
  induction depth with
  | zero => exact ⟨fun nonterminal => affords_fail⟩
  | succ depth ih => exact ⟨fun nonterminal => (affordsAll_production).affords nonterminal⟩

theorem tally_le_one_of_program {g : Grammar} [AffordsAll offset g] {s s' : State} {node : Node}
    (hextends : s.lexeme.Extends) (hrun : program g s = .done node s') : tally offset node ≤ 1 := by
  obtain ⟨start, s₀, hget, hrest⟩ := done_of_bind hrun
  cases hget
  obtain ⟨items, s₁, hitems, hbehind⟩ := done_of_bind hrest
  obtain ⟨token, s₂, hpresent, hjudging⟩ := done_of_bind hbehind
  cases hpresent
  obtain ⟨_, s₂, hend, hlast⟩ := done_of_bind hjudging
  obtain ⟨state, s₃, hget, hgiving⟩ := done_of_bind hlast
  cases hget
  obtain ⟨_, s₃, hsoundness, hpure⟩ := done_of_bind hgiving
  cases hpure
  have hleaves : Leaves offset 0 (statements g) 0 := leaves_statements
  obtain ⟨-, -, hle⟩ := hleaves.run s items s₁ hitems hextends
  -- The budget of a program is nothing, and going past the offset gains one at most.
  have hpassed : s₁.passed offset ≤ 1 := by
    unfold State.passed
    split_ifs <;> omega
  rw [tally_mk, tally_withDirectives]
  simp only [Bool.false_eq_true, if_false]
  omega

/-- At most one declaration that may request a module begins at an offset. -/
theorem tally_le_one_of_parse {settings : Settings} {text : List Char} {program : Node}
    (hparse : parse settings text = .ok program) (offset : Nat) : tally offset program ≤ 1 := by
  unfold parse at hparse
  dsimp only at hparse
  split at hparse
  · next hrun =>
    cases hparse
    exact tally_le_one_of_program (extends_readLexeme _ _ _) hrun
  · cases hparse

end ModuleLinkage.Syntax
