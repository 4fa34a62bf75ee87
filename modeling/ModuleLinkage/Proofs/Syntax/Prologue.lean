import ModuleLinkage.Compile
import ModuleLinkage.Proofs.Syntax.Forms

/-!
# The prologue of a program

A statement is never read as a directive; only strings among the first statements of a program are
turned into directives afterwards. So the directives of a program are what it begins with
(`exists_prologue_of_parse`).
-/

set_option autoImplicit false
set_option synthInstance.maxSize 100000
set_option synthInstance.maxHeartbeats 200000

namespace ModuleLinkage.Syntax

/-- The forms that statements may have when they are read. -/
@[reducible] def Form.isUnmarked : Form → Bool
  | .directive => false
  | _ => true

theorem isDirective_eq (node : Node) : isDirective node = !node.form.isUnmarked := by
  cases hform : node.form <;> simp [isDirective, hform]

variable {g : Grammar}

/-! ### Declarations -/

theorem Form.isUnmarked_of_isDeclaration {form : Form} (h : form.isDeclaration = true) :
    form.isUnmarked = true := by
  cases form
  case directive => cases h
  all_goals rfl

instance (priority := low) unmarked_declared {parser : Parser Node}
    [hform : GivesForm Form.isDeclaration parser] : GivesForm Form.isUnmarked parser :=
  hform.imp fun _ => Form.isUnmarked_of_isDeclaration

/-! ### Imports and exports -/

instance unmarked_importBody {start : Nat} : GivesForm Form.isUnmarked (importBody start) := by
  unfold importBody
  dsimp only
  refine ⟨.bind fun isSource => ?_⟩
  split
  · exact (inferInstance : GivesForm Form.isUnmarked _).gives
  refine .bind fun _ => .bind fun typeOnly => .bind fun isName => ?_
  split
  · refine .bind fun inner => .bind fun binding => .bind fun name => .bind fun default => ?_
    split <;> exact (inferInstance : GivesForm Form.isUnmarked _).gives
  · refine .bind fun default => ?_
    split <;> exact (inferInstance : GivesForm Form.isUnmarked _).gives

instance unmarked_exportList {start : Nat} {typeOnly : Bool} :
    GivesForm Form.isUnmarked (exportList start typeOnly) := by
  unfold exportList
  infer_instance

instance unmarked_exportStar {start : Nat} {typeOnly : Bool} :
    GivesForm Form.isUnmarked (exportStar start typeOnly) := by
  unfold exportStar
  dsimp only
  infer_instance

instance unmarked_exportDeclaration {start : Nat} {before : List Node} :
    GivesForm Form.isUnmarked (exportDeclaration g start before) := by
  unfold exportDeclaration
  dsimp only
  infer_instance

instance unmarked_exportImport {start : Nat} : GivesForm Form.isUnmarked (exportImport start) := by
  unfold exportImport
  refine ⟨.bind fun inner => .bind fun _ => .bind fun node => ?_⟩
  split <;> exact (inferInstance : GivesForm Form.isUnmarked _).gives

instance unmarked_exportBody {start : Nat} {before : List Node} :
    GivesForm Form.isUnmarked (exportBody g start before) := by
  unfold exportBody exportDefault exportAssignment exportGlobalName exportOfTypes
  refine ⟨.bind fun token => ?_⟩
  split
  case h_4 =>
    refine .bind fun types => ?_
    split
    · exact (inferInstance : GivesForm Form.isUnmarked _).gives
    · split <;> exact (inferInstance : GivesForm Form.isUnmarked _).gives
  all_goals exact (inferInstance : GivesForm Form.isUnmarked _).gives

/-! ### Statements -/

instance unmarked_expressionOrLabelled : GivesForm Form.isUnmarked (expressionOrLabelled g) := by
  unfold expressionOrLabelled endExpressionStatement
  refine ⟨.bind fun start => .bind fun expression => ?_⟩
  split <;> exact (inferInstance : GivesForm Form.isUnmarked _).gives

instance unmarked_forEachRest {start : Nat} {target : Node} :
    GivesForm Form.isUnmarked (forEachRest g start target) := by
  unfold forEachRest
  infer_instance

instance unmarked_forLoopRest {start : Nat} {parts : List Node} :
    GivesForm Form.isUnmarked (forLoopRest g start parts) := by
  unfold forLoopRest
  dsimp only
  infer_instance

instance unmarked_forStatement : GivesForm Form.isUnmarked (forStatement g) := by
  have hkeyword (start inner : Nat) (awaits : Bool) (kind? : Option VariableKind) :
      GivesForm Form.isUnmarked (match kind? with
        | some kind => forVariables g start inner kind awaits
        | none => forExpression g start awaits) := by
    unfold forVariables forVariablesRest forExpression
    dsimp only
    split <;> infer_instance
  unfold forStatement
  dsimp only
  infer_instance

instance unmarked_letStatement {place : StatementPlace} :
    GivesForm Form.isUnmarked (letStatement g place) := by
  unfold letStatement endExpressionStatement
  refine ⟨.bind fun start => .bind fun reading? => ?_⟩
  split <;> exact (inferInstance : GivesForm Form.isUnmarked _).gives

instance unmarked_otherStatement {place : StatementPlace} :
    GivesForm Form.isUnmarked (otherStatement g place) := by
  have hdeclared (start : Nat) : GivesForm Form.isUnmarked (do
      let (node, _) ← declaration g start [] false
      return node) :=
    ⟨.bind_of form_declaration fun pair hform =>
      gives_pure (Form.isUnmarked_of_isDeclaration hform)⟩
  unfold otherStatement
  infer_instance

instance unmarked_wordStatement {place : StatementPlace} {word : String} {escaped : Bool} :
    GivesForm Form.isUnmarked (wordStatement g place word escaped) := by
  unfold wordStatement ifStatement doStatement whileStatement jumpStatement withStatement
    switchStatement throwStatement tryStatement returnStatement constStatement classStatement
    importStatement
  refine ⟨.bind fun start => ?_⟩
  split <;> exact (inferInstance : GivesForm Form.isUnmarked _).gives

instance unmarked_statement {place : StatementPlace} :
    GivesForm Form.isUnmarked (statement g place) := by
  unfold statement block decoratedStatement
  refine ⟨.bind fun token => ?_⟩
  split <;> exact (inferInstance : GivesForm Form.isUnmarked _).gives

/-- However deep productions may nest, a statement is no directive. -/
instance unmarked_grammar {depth : Nat} {place : StatementPlace} :
    GivesForm Form.isUnmarked (grammar depth (.statement place)) := by
  cases depth with
  | zero => exact givesForm_fail
  | succ depth =>
    exact (unmarked_statement : GivesForm Form.isUnmarked (statement (grammar depth) place))

/-! ### Programs -/

/-- No statement that is read is a directive. -/
theorem gives_statements [hunmarked : GivesForm Form.isUnmarked (g (.statement .list))] :
    Gives (statements g) fun items => ∀ item ∈ items, item.form.isUnmarked = true := by
  unfold statements
  refine gives_many (.bind fun token => ?_)
  split
  · exact gives_none
  · exact gives_none
  · exact .bind_of hunmarked.gives fun item hitem => gives_some hitem

/-- Only the first statements are turned into directives. -/
theorem exists_prologue {statements : List Node}
    (hstatements : ∀ statement ∈ statements, statement.form.isUnmarked = true) :
    ∃ prologue rest, withDirectives statements = prologue ++ rest ∧
      (∀ statement ∈ prologue, isDirective statement = true) ∧
        ∀ statement ∈ rest, isDirective statement = false := by
  induction statements with
  | nil => exact ⟨[], [], rfl, List.forall_mem_nil _, List.forall_mem_nil _⟩
  | cons statement rest ih =>
    rw [withDirectives]
    split
    · next directive hdirective =>
      obtain ⟨prologue, others, hrest, hmarked, hplain⟩ :=
        ih fun other hother => hstatements other (List.mem_cons_of_mem _ hother)
      have hform : isDirective directive = true := by
        unfold asDirective? at hdirective
        split at hdirective
        · split at hdirective
          · cases hdirective
            rfl
          · cases hdirective
        · cases hdirective
      exact ⟨directive :: prologue, others, congrArg (directive :: ·) hrest,
        List.forall_mem_cons.mpr ⟨hform, hmarked⟩, hplain⟩
    · refine ⟨[], statement :: rest, rfl, List.forall_mem_nil _, fun other hother => ?_⟩
      rw [isDirective_eq, hstatements other hother]
      rfl

/-- The directives of a program are what it begins with. -/
theorem exists_prologue_of_parse {settings : Settings} {text : List Char} {program : Node}
    (hparse : parse settings text = .ok program) :
    ∃ prologue rest, program.parts = prologue ++ rest ∧
      (∀ statement ∈ prologue, isDirective statement = true) ∧
        ∀ statement ∈ rest, isDirective statement = false := by
  unfold parse at hparse
  dsimp only at hparse
  split at hparse
  · next hrun =>
    cases hparse
    obtain ⟨start, s₀, hget, hrest⟩ := done_of_bind hrun
    obtain ⟨items, s₁, hitems, hbehind⟩ := done_of_bind hrest
    obtain ⟨token, s₂, -, hjudging⟩ := done_of_bind hbehind
    obtain ⟨_, s₃, -, hlast⟩ := done_of_bind hjudging
    obtain ⟨state, s₄, -, hgiving⟩ := done_of_bind hlast
    obtain ⟨_, s₅, -, hpure⟩ := done_of_bind hgiving
    cases hpure
    -- What is read between has no bearing on the form of the statements.
    exact exists_prologue (gives_statements s₀ items s₁ hitems)
  · cases hparse

end ModuleLinkage.Syntax
