import ModuleLinkage.Proofs.Syntax.Anchoring.Programs
import ModuleLinkage.Proofs.Syntax.Ordering.Exports

/-!
# Programs lie in the order of their text

If the productions of a grammar lay their nodes in the order of the text, then so do those of statements.
So by induction on how deep productions may nest, the whole grammar lays what it reads, and the tree of a
program is ordered (`ordered_of_parse`).
-/

set_option autoImplicit false
set_option synthInstance.maxSize 1000000000
set_option synthInstance.maxHeartbeats 200000

namespace ModuleLinkage.Syntax

open Text

section Statements

variable {source : List Char} {markers : Bool} {h : Prop} {outset lo left start inner : Nat} {g : Grammar}
  [LaysAll source markers g] [AtMost h outset lo]

/-! ### Simple statements -/

instance lays_block : Lays source markers h outset lo left (block g) := by
  unfold block
  infer_instance

instance lays_head : Lays source markers h outset lo left (head g) := by
  unfold head
  infer_instance

instance lays_governed : Lays source markers h outset lo left (governed g) := by
  unfold governed
  infer_instance

omit [LaysAll source markers g] [AtMost h outset lo] in
instance lays_endExpressionStatement {expression : Node} [AtMost h outset start]
    [AtMost h start left] [AtMost h left lo]
    [hexpression : Given source markers h start expression left] :
    Lays source markers h outset lo left (endExpressionStatement start expression) := by
  have hfound : Found source markers h expression start left := ⟨hexpression.imp⟩
  unfold endExpressionStatement
  infer_instance

instance lays_expressionOrLabelled : Lays source markers h outset lo left (expressionOrLabelled g) := by
  unfold expressionOrLabelled
  refine .offset fun start => .step fun expression lo' left' => ?_
  split
  · next name hform =>
    refine .skip fun isLabel => ?_
    split
    · exact .of_imp (fun hboth => And.intro hboth
        (lies_renamed (rfl : (Form.label name).isLoose = true) hboth.2)) inferInstance
    · infer_instance
  · infer_instance

instance lays_ifStatement : Lays source markers h outset lo left (ifStatement g) := by
  unfold ifStatement
  dsimp only
  infer_instance

instance lays_doStatement : Lays source markers h outset lo left (doStatement g) := by
  unfold doStatement
  infer_instance

instance lays_whileStatement : Lays source markers h outset lo left (whileStatement g) := by
  unfold whileStatement
  infer_instance

omit [LaysAll source markers g] in
instance lays_jumpStatement : Lays source markers h outset lo left jumpStatement := by
  unfold jumpStatement
  dsimp only
  infer_instance

instance lays_returnStatement : Lays source markers h outset lo left (returnStatement g) := by
  unfold returnStatement
  dsimp only
  infer_instance

instance lays_withStatement : Lays source markers h outset lo left (withStatement g) := by
  unfold withStatement
  infer_instance

instance lays_throwStatement : Lays source markers h outset lo left (throwStatement g) := by
  unfold throwStatement
  infer_instance

/-! ### Loops with heads -/

instance lays_forLoopRest {parts : List Node} [AtMost h outset start] [hstart : AtMost h start left]
    [hleft : AtMost h left lo] [hparts : Given source markers h start parts left] :
    Lays source markers h outset lo left (forLoopRest g start parts) := by
  have hfound : Found source markers h parts start left := ⟨hparts.imp⟩
  have hlo : AtMost h start lo := @atMost_lo h lo left start _ _
  unfold forLoopRest
  dsimp only
  infer_instance

instance lays_forEachRest {target : Node} [AtMost h outset start] [hstart : AtMost h start left]
    [hleft : AtMost h left lo] [htarget : Given source markers h start target left] :
    Lays source markers h outset lo left (forEachRest g start target) := by
  have hfound : Found source markers h target start left := ⟨htarget.imp⟩
  have hlo : AtMost h start lo := @atMost_lo h lo left start _ _
  unfold forEachRest
  infer_instance

instance lays_forVariablesRest {declaration : Node} [AtMost h outset start] [hstart : AtMost h start inner]
    [hinner : AtMost h inner left] [hleft : AtMost h left lo]
    [hdeclaration : Given source markers h inner declaration left] (kind : VariableKind) (awaits : Bool) :
    Lays source markers h outset lo left (forVariablesRest g start inner kind awaits declaration) := by
  have hfound : Found source markers h declaration inner left := ⟨hdeclaration.imp⟩
  have hleft' : AtMost h start left := ⟨fun hbefore => (hstart.imp hbefore).trans (hinner.imp hbefore)⟩
  unfold forVariablesRest
  infer_instance

instance lays_forVariables [AtMost h outset start] [hstart : AtMost h start inner]
    [hinner : AtMost h inner lo] (kind : VariableKind) (awaits : Bool) :
    Lays source markers h outset lo left (forVariables g start inner kind awaits) := by
  unfold forVariables
  infer_instance

omit [LaysAll source markers g] [AtMost h outset lo]

instance steady_beginsResource : Steady beginsResource := by
  unfold beginsResource
  infer_instance

instance steady_beginsAwaitUsing : Steady beginsAwaitUsing := by
  unfold beginsAwaitUsing
  infer_instance

instance steady_beginsUsingHead : Steady beginsUsingHead := by
  unfold beginsUsingHead
  infer_instance

instance steady_forKeyword : Steady forKeyword? := by
  unfold forKeyword?
  refine .step fun token => ?_
  split <;> infer_instance

end Statements

section Statements

variable {source : List Char} {markers : Bool} {h : Prop} {outset lo left start inner : Nat} {g : Grammar}
  [LaysAll source markers g] [houtset : AtMost h outset lo]

omit houtset in
instance lays_forExpression [AtMost h outset start] [hstart : AtMost h start left]
    [hleft : AtMost h left lo] (awaits : Bool) :
    Lays source markers h outset lo left (forExpression g start awaits) := by
  have hlo : AtMost h start lo := @atMost_lo h lo left start _ _
  unfold forExpression
  dsimp only
  infer_instance

instance lays_forStatement : Lays source markers h outset lo left (forStatement g) := by
  unfold forStatement
  dsimp only
  refine .offset fun start => .pass fun _ passed => .skip fun awaits => ?_
  split
  · refine .skip fun context => .skip fun _ => .pass fun _ passed => .pass fun _ passed =>
      .skip fun empty => ?_
    split
    · infer_instance
    · refine .offset fun inner => .skip fun kind? => ?_
      split <;> infer_instance
  · refine .pass fun _ passed => .skip fun empty => ?_
    split
    · infer_instance
    · refine .offset fun inner => .skip fun kind? => ?_
      split <;> infer_instance

/-! ### Statements with blocks -/

instance lays_switchCase : Lays source markers h outset lo left (switchCase g) := by
  unfold switchCase caseStatements
  simp only [bind_assoc, pure_bind]
  refine .offset fun start => .skip fun isDefault => ?_
  split
  · refine .pass fun _ passed =>
      .bind (.many fun lo' left' => .skip fun token => ?_) fun items lo' left' => ?_
    · split <;> infer_instance
    · infer_instance
  · refine .pass fun _ passed => .step fun test lo' left' => .pass fun _ passed =>
      .bind (.many fun lo' left' => .skip fun token => ?_) fun items lo' left' => ?_
    · split <;> infer_instance
    · infer_instance

instance lays_switchStatement : Lays source markers h outset lo left (switchStatement g) := by
  unfold switchStatement
  infer_instance

instance lays_catchClause : Lays source markers h outset lo left (catchClause g) := by
  unfold catchClause
  dsimp only
  infer_instance

instance lays_tryStatement : Lays source markers h outset lo left (tryStatement g) := by
  unfold tryStatement
  dsimp only
  infer_instance

/-! ### Declarations as statements -/

instance lays_letStatement (place : StatementPlace) :
    Lays source markers h outset lo left (letStatement g place) := by
  unfold letStatement
  refine .offset fun start => .skip fun reading? => ?_
  split <;> infer_instance

instance lays_usingStatement [AtMost h outset start] [AtMost h start lo] (kind : VariableKind) :
    Lays source markers h outset lo left (usingStatement g start kind) := by
  unfold usingStatement
  infer_instance

instance lays_classStatement (place : StatementPlace) :
    Lays source markers h outset lo left (classStatement g place) := by
  unfold classStatement
  infer_instance

instance lays_importStatement : Lays source markers h outset lo left (importStatement g) := by
  unfold importStatement
  infer_instance

instance lays_otherStatement (place : StatementPlace) :
    Lays source markers h outset lo left (otherStatement g place) := by
  unfold otherStatement
  infer_instance

instance lays_constStatement (place : StatementPlace) :
    Lays source markers h outset lo left (constStatement g place) := by
  unfold constStatement
  infer_instance

instance lays_decoratedStatement [GivesOperands g] (place : StatementPlace) :
    Lays source markers h outset lo left (decoratedStatement g place) := by
  unfold decoratedStatement
  refine .offset fun start => ?_
  have hdecorators : Lays source markers (h ∧ Step lo left start left) start start left (decorators g) :=
    inferInstance
  have hgives : Gives (decorators g) AllDecorators := gives_decorators
  refine .bind_of hgives hdecorators fun decorators lo' left' => .skip fun isExport => ?_
  split
  · refine .offset fun start' => .pass fun _ passed => ?_
    infer_instance
  · infer_instance

/-! ### Statements -/

instance lays_wordStatement [GivesOperands g] (place : StatementPlace) (word : String) (escaped : Bool) :
    Lays source markers h outset lo left (wordStatement g place word escaped) := by
  unfold wordStatement
  refine .offset fun start => ?_
  split <;> infer_instance

instance lays_statement [GivesOperands g] (place : StatementPlace) :
    Lays source markers h outset lo left (statement g place) := by
  unfold statement
  refine .skip fun token => ?_
  split <;> infer_instance

end Statements

/-! ### Programs -/

variable {source : List Char} {markers : Bool}

instance laysAll_production {g : Grammar} [LaysAll source markers g] [GivesOperands g] :
    LaysAll source markers (production g) := by
  refine ⟨fun h lo left nonterminal hplain => ?_, fun h lo left last => lays_markup last⟩
  unfold production
  cases nonterminal
  case markup => cases hplain
  all_goals infer_instance

/-- The grammar lays what it reads in every text, however deep its productions may nest. -/
instance laysAll_grammar (depth : Nat) : LaysAll source markers (grammar depth) := by
  induction depth with
  | zero =>
    have hfail : grammar 0 = fun _ => Parser.fail := funext fun nonterminal => by rw [grammar]
    have hreads : ReadsAll source fun _ => Parser.fail := ⟨fun h bound left nonterminal => reads_fail⟩
    rw [hfail]
    refine ⟨fun h lo left nonterminal _ => lays_fail, fun h lo left last => ⟨fun s node s' hrun => ?_⟩⟩
    obtain ⟨_, _, hnone, -⟩ := done_of_bind hrun
    cases hnone
  | succ depth ih =>
    have hnext : grammar (depth + 1) = production (grammar depth) :=
      funext fun nonterminal => by rw [grammar]
    rw [hnext]
    exact laysAll_production

theorem ordered_of_program {g : Grammar} [LaysAll source markers g] {s s' : State} {node : Node}
    (hreading : s.Reading source markers) (hrun : program g s = .done node s') :
    node.Ordered source markers := by
  obtain ⟨start, s₀, hget, hrest⟩ := done_of_bind hrun
  cases hget
  obtain ⟨items, s₁, hitems, hbehind⟩ := done_of_bind hrest
  obtain ⟨token, s₂, hpresent, hjudging⟩ := done_of_bind hbehind
  cases hpresent
  obtain ⟨_, s₂, hend, hlast⟩ := done_of_bind hjudging
  obtain rfl := (done_of_require hend).2
  obtain ⟨state, s₃, hget, hgiving⟩ := done_of_bind hlast
  cases hget
  obtain ⟨_, s₃, hsoundness, hpure⟩ := done_of_bind hgiving
  cases hpure
  have hclean : s₂.faulty = false := by
    have hboth := (done_of_require hsoundness).1
    simp only [Bool.and_eq_true, Bool.not_eq_true'] at hboth
    exact hboth.1
  have hlays : Lays source markers True 0 0 0 (statements g) := inferInstance
  obtain ⟨hreading', -, hlies⟩ :=
    (hlays.run s items s₂ hitems).2 hclean trivial hreading (Nat.zero_le _) (Nat.zero_le _)
  have hline := (lies_nodes_iff.mp hlies).withDirectives
  have hstop : s₂.previousStop ≤ s.total := by
    obtain ⟨before, after, rfl, hwidth⟩ := exists_of_isBoundary hreading'.sound.previous
    rw [hreading.sound.total, ← hwidth, width_append]
    exact Nat.le_add_right _ _
  refine .mk (Nat.zero_le _) (fun part hpart => (hline.stop part hpart).trans hstop)
    (hline.chain.imp fun hbehind => .inr (.inr (.inl hbehind))) (fun _ _ => Nat.zero_le _) hline.ordered

/-- **The order of programs.** The nodes of a program lie in the order of the text that it is read
from. -/
theorem ordered_of_parse {settings : Settings} {text : List Char} {program : Node}
    (hparse : parse settings text = .ok program) : program.Ordered text (!settings.module) := by
  unfold parse at hparse
  dsimp only at hparse
  split at hparse
  · next hrun =>
    cases hparse
    refine ordered_of_program
      ⟨⟨rfl, stands_readLexeme _ _ Place.Apart.start, ?_, Nat.zero_le _,
        Lexeme.isNext_readLexeme Place.Apart.start id _⟩, rfl⟩ hrun
    exact Place.Apart.start.isIn.isBoundary
  · cases hparse

end ModuleLinkage.Syntax
