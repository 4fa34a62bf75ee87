import ModuleLinkage.Proofs.Scope.Resolution

/-!
# What a list of statements declares

A statement consists of expressions and of other statements, each of its parts being one or the other
(`Consists`). A `var` declaration belongs to the function around it from wherever it stands among the
statements that a statement consists of (`VarScoped`); no expression holds one, since the statements in
a function, arrow function or class belong to that (`IsExpression`). The names collected for a block
are those that its own statements declare, and the names collected for the body of a function are these
and those of the `var` declarations in its statements (`declaredNames_exact`).
-/

set_option autoImplicit false

namespace ModuleLinkage.Scope

open Syntax
open Text (Span)

/-! ### The grammar of statements -/

/-- The forms that stand in a program, body or statement, but never in an expression. -/
def isStatementForm : Form → Bool
  | .function .declaration _ | .classDefinition .declaration _ | .body | .classBody | .staticBlock => true
  | .block | .variableDeclaration _ _ | .expressionStatement | .directive => true
  | .conditionalStatement | .forLoop | .loopStart | .forInLoop | .forOfLoop | .whileLoop | .doLoop => true
  | .returnStatement | .jump | .throwStatement | .tryStatement | .catchClause => true
  | .switchStatement | .switchCase | .defaultCase | .labelled | .emptyStatement => true
  | .debuggerStatement | .withStatement | .program => true
  | .importDeclaration _ | .exportDeclaration _ | .exportNames _ | .exportDefault | .exportAll _ => true
  | .exportAssignment | .exportGlobalName | .interface | .typeAlias | .enumeration _ => true
  | .namespaceDeclaration _ | .namespaceBody | .globalDeclaration | .importAlias => true
  | _ => false

/-- The forms of expressions that have statements of their own. -/
def isDefinitionForm : Form → Bool
  | .function .expression _ | .arrow | .classDefinition .expression _ => true
  | _ => false

/-- An expression, pattern or name: no statement stands in it, but in functions and classes. -/
inductive IsExpression : Node → Prop
  | definition {node : Node} (hform : isDefinitionForm node.form = true) : IsExpression node
  | compound {node : Node} (hform : isStatementForm node.form = false)
      (hparts : ∀ part ∈ node.parts, IsExpression part) : IsExpression node

/-- The forms of statements that consist of expressions only. -/
def isSimpleForm : Form → Bool
  | .variableDeclaration _ _ | .expressionStatement | .directive | .returnStatement | .jump => true
  | .throwStatement | .emptyStatement | .debuggerStatement => true
  | _ => false

/-- The expressions and the statements that a statement, or a clause of one, consists of. The parts of
a function or class are its own affair. -/
inductive Consists : Form → List Node → List Node → List Node → Prop
  | simple {form : Form} (hform : isSimpleForm form = true) (parts : List Node) :
      Consists form parts parts []
  | function (ambient : Bool) (parts : List Node) : Consists (.function .declaration ambient) parts [] []
  | classDefinition (ambient : Bool) (parts : List Node) :
      Consists (.classDefinition .declaration ambient) parts [] []
  | block (statements : List Node) : Consists .block statements [] statements
  | conditional (condition : Node) (branches : List Node) :
      Consists .conditionalStatement (condition :: branches) [condition] branches
  | forLoop (start expressions : List Node) (body : Node) :
      Consists .forLoop (start ++ expressions ++ [body]) expressions (start ++ [body])
  | startVariables (declaration : Node) : Consists .loopStart [declaration] [] [declaration]
  | startExpression (expression : Node) : Consists .loopStart [expression] [expression] []
  | forInVariables (declaration object body : Node) :
      Consists .forInLoop [declaration, object, body] [object] [declaration, body]
  | forInTarget (target object body : Node) :
      Consists .forInLoop [target, object, body] [target, object] [body]
  | forOfVariables (declaration iterable body : Node) :
      Consists .forOfLoop [declaration, iterable, body] [iterable] [declaration, body]
  | forOfTarget (target iterable body : Node) :
      Consists .forOfLoop [target, iterable, body] [target, iterable] [body]
  | whileLoop (condition body : Node) : Consists .whileLoop [condition, body] [condition] [body]
  | doLoop (body condition : Node) : Consists .doLoop [body, condition] [condition] [body]
  | tryStatement (clauses : List Node) : Consists .tryStatement clauses [] clauses
  | catchClause (parameters : List Node) (block : Node) :
      Consists .catchClause (parameters ++ [block]) parameters [block]
  | switchStatement (subject : Node) (cases : List Node) :
      Consists .switchStatement (subject :: cases) [subject] cases
  | switchCase (test : Node) (statements : List Node) :
      Consists .switchCase (test :: statements) [test] statements
  | defaultCase (statements : List Node) : Consists .defaultCase statements [] statements
  | labelled (label statement : Node) : Consists .labelled [label, statement] [label] [statement]
  | withStatement (object body : Node) : Consists .withStatement [object, body] [object] [body]

/-- A statement, or a clause of one. -/
inductive IsStatement : Node → Prop
  | mk {span : Span} {form : Form} {parts expressions statements : List Node}
      (hconsists : Consists form parts expressions statements)
      (hexpressions : ∀ expression ∈ expressions, IsExpression expression)
      (hstatements : ∀ statement ∈ statements, IsStatement statement) :
      IsStatement (.mk span form parts)

/-! ### Variables of the function around -/

/-- A statement declares a variable of the function around it: it is a `var` declaration that binds
the name, or one of the statements that it consists of declares it. -/
inductive VarScoped (name : String) : Node → Prop
  | declared {node : Node} {ambient : Bool} (hform : node.form = .variableDeclaration .var ambient)
      (hbinds : VariableBinds name node) : VarScoped name node
  | inside {node statement : Node} {expressions statements : List Node}
      (hconsists : Consists node.form node.parts expressions statements)
      (hmem : statement ∈ statements) (hscoped : VarScoped name statement) : VarScoped name node

variable {name : String} {node : Node}

/-- The statements that a statement consists of are parts of it, and it keeps none of their
variables. -/
theorem Consists.mem_parts {form : Form} {parts expressions statements : List Node} {statement : Node}
    (h : Consists form parts expressions statements) (hmem : statement ∈ statements) :
    statement ∈ parts ∧ keepsVariables form = false := by
  cases h <;> simp_all [keepsVariables] <;> tauto

/-- A part of a statement is one of the expressions or statements that it consists of, unless the
statement keeps its variables. -/
theorem Consists.mem_or_mem {form : Form} {parts expressions statements : List Node} {part : Node}
    (h : Consists form parts expressions statements) (hform : keepsVariables form = false)
    (hpart : part ∈ parts) : part ∈ expressions ∨ part ∈ statements := by
  cases h <;> simp_all [keepsVariables] <;> tauto

/-- No variable of the function around an expression is declared in it. -/
theorem IsExpression.not_varDeclares (h : IsExpression node) : ¬ VarDeclares name node := by
  intro hdeclares
  induction hdeclares with
  | declared hform hbinds =>
    cases h with
    | definition hdefinition => rw [hform] at hdefinition; cases hdefinition
    | compound hcompound hparts => rw [hform] at hcompound; cases hcompound
  | inside hform hpart _ ih =>
    cases h with
    | definition hdefinition =>
      unfold isDefinitionForm at hdefinition
      split at hdefinition <;> simp_all [keepsVariables]
    | compound hcompound hparts => exact ih (hparts _ hpart)

theorem VarScoped.varDeclares (h : VarScoped name node) : VarDeclares name node := by
  induction h with
  | declared hform hbinds => exact .declared hform hbinds
  | inside hconsists hmem _ ih =>
    obtain ⟨hpart, hform⟩ := hconsists.mem_parts hmem
    exact .inside hform hpart ih

theorem IsStatement.varScoped (h : IsStatement node) (hdeclares : VarDeclares name node) :
    VarScoped name node := by
  induction h with
  | @mk span form parts expressions statements hconsists hexpressions _ ih =>
    cases hdeclares with
    | declared hform hbinds => exact .declared hform hbinds
    | inside hform hpart hinside =>
      rcases hconsists.mem_or_mem hform hpart with hexpression | hstatement
      · exact absurd hinside (hexpressions _ hexpression).not_varDeclares
      · exact .inside hconsists hstatement (ih _ hstatement hinside)

/-! ### Declared names are collected exactly -/

/-- **Declared names.** The names collected for a block are those that its statements declare in it: the
variables of `let`, `const` and `using` declarations, the functions and the classes. The names collected
for the body of a function are these and those of the `var` declarations anywhere among the statements
that its statements consist of. -/
theorem declaredNames_exact {statements : List Node}
    (hstatements : ∀ statement ∈ statements, IsStatement statement) (name : String) :
    (name ∈ blockNames statements ↔ ∃ statement ∈ statements, LexicallyDeclares name statement) ∧
      (name ∈ functionNames statements ↔
        (∃ statement ∈ statements, LexicallyDeclares name statement) ∨
          ∃ statement ∈ statements, VarScoped name statement) := by
  refine ⟨mem_blockNames_iff, ?_⟩
  rw [mem_functionNames_iff]
  constructor
  · rintro ⟨statement, hmem, hdeclares | hdeclares⟩
    · exact .inl ⟨statement, hmem, hdeclares⟩
    · exact .inr ⟨statement, hmem, (hstatements statement hmem).varScoped hdeclares⟩
  · rintro (⟨statement, hmem, hdeclares⟩ | ⟨statement, hmem, hscoped⟩)
    · exact ⟨statement, hmem, .inl hdeclares⟩
    · exact ⟨statement, hmem, .inr hscoped.varDeclares⟩

/-- The statements in `let a; if (b) { var {c = d} = e; class f {} } for (var g of () => { var h; })
try { i: var j; } catch (k) { let l; } function m() { var n; }`. -/
def nestedStatements : List Node :=
  [.mk ⟨0, 6⟩ (.variableDeclaration .let false)
      [.mk ⟨4, 5⟩ .declarator [.mk ⟨4, 5⟩ (.binding "a") []]],
    .mk ⟨7, 45⟩ .conditionalStatement
      [.mk ⟨11, 12⟩ (.reference "b") [],
        .mk ⟨14, 45⟩ .block
          [.mk ⟨16, 32⟩ (.variableDeclaration .var false)
              [.mk ⟨20, 31⟩ .declarator
                [.mk ⟨20, 27⟩ .objectPattern
                    [.mk ⟨21, 26⟩ .propertyPattern
                      [.mk ⟨21, 22⟩ (.propertyName "c") [],
                        .mk ⟨21, 26⟩ .defaultPattern
                          [.mk ⟨21, 22⟩ (.binding "c") [], .mk ⟨25, 26⟩ (.reference "d") []]]],
                  .mk ⟨30, 31⟩ (.reference "e") []]],
            .mk ⟨33, 43⟩ (.classDefinition .declaration false)
              [.mk ⟨39, 40⟩ (.binding "f") [], .mk ⟨41, 43⟩ .classBody []]]],
    .mk ⟨46, 116⟩ .forOfLoop
      [.mk ⟨51, 56⟩ (.variableDeclaration .var false)
          [.mk ⟨55, 56⟩ .declarator [.mk ⟨55, 56⟩ (.binding "g") []]],
        .mk ⟨60, 76⟩ .arrow
          [.mk ⟨60, 62⟩ .parameters [],
            .mk ⟨66, 76⟩ .body
              [.mk ⟨68, 74⟩ (.variableDeclaration .var false)
                [.mk ⟨72, 73⟩ .declarator [.mk ⟨72, 73⟩ (.binding "h") []]]]],
        .mk ⟨78, 116⟩ .tryStatement
          [.mk ⟨82, 95⟩ .block
              [.mk ⟨84, 93⟩ .labelled
                [.mk ⟨84, 85⟩ (.label "i") [],
                  .mk ⟨87, 93⟩ (.variableDeclaration .var false)
                    [.mk ⟨91, 92⟩ .declarator [.mk ⟨91, 92⟩ (.binding "j") []]]]],
            .mk ⟨96, 116⟩ .catchClause
              [.mk ⟨103, 104⟩ .catchParameter [.mk ⟨103, 104⟩ (.binding "k") []],
                .mk ⟨106, 116⟩ .block
                  [.mk ⟨108, 114⟩ (.variableDeclaration .let false)
                    [.mk ⟨112, 113⟩ .declarator [.mk ⟨112, 113⟩ (.binding "l") []]]]]]],
    .mk ⟨117, 140⟩ (.function .declaration false)
      [.mk ⟨126, 127⟩ (.binding "m") [],
        .mk ⟨127, 129⟩ .parameters [],
        .mk ⟨130, 140⟩ .body
          [.mk ⟨132, 138⟩ (.variableDeclaration .var false)
            [.mk ⟨136, 137⟩ .declarator [.mk ⟨136, 137⟩ (.binding "n") []]]]]]

theorem isStatement_nestedStatements : ∀ statement ∈ nestedStatements, IsStatement statement := by
  have hname (span : Span) (form : Form) (h : isStatementForm form = false) :
      IsExpression (.mk span form []) := .compound h (List.forall_mem_nil _)
  have hvariable (span inner target : Span) (kind : VariableKind) (name : String) :
      IsStatement (.mk span (.variableDeclaration kind false)
        [.mk inner .declarator [.mk target (.binding name) []]]) :=
    .mk (.simple rfl _) (List.forall_mem_singleton.mpr
      (.compound rfl (List.forall_mem_singleton.mpr (hname _ _ rfl)))) (List.forall_mem_nil _)
  have hblock (span : Span) (statement : Node) (h : IsStatement statement) :
      IsStatement (.mk span .block [statement]) :=
    .mk (.block _) (List.forall_mem_nil _) (List.forall_mem_singleton.mpr h)
  have hpattern : IsStatement (.mk ⟨16, 32⟩ (.variableDeclaration .var false)
      [.mk ⟨20, 31⟩ .declarator
        [.mk ⟨20, 27⟩ .objectPattern
            [.mk ⟨21, 26⟩ .propertyPattern
              [.mk ⟨21, 22⟩ (.propertyName "c") [],
                .mk ⟨21, 26⟩ .defaultPattern
                  [.mk ⟨21, 22⟩ (.binding "c") [], .mk ⟨25, 26⟩ (.reference "d") []]]],
          .mk ⟨30, 31⟩ (.reference "e") []]]) := by
    refine .mk (.simple rfl _) (List.forall_mem_singleton.mpr (.compound rfl
      (List.forall_mem_cons.mpr ⟨?_, List.forall_mem_singleton.mpr (hname _ _ rfl)⟩)))
      (List.forall_mem_nil _)
    refine .compound rfl (List.forall_mem_singleton.mpr (.compound rfl
      (List.forall_mem_cons.mpr ⟨hname _ _ rfl, List.forall_mem_singleton.mpr (.compound rfl ?_)⟩)))
    exact List.forall_mem_cons.mpr ⟨hname _ _ rfl, List.forall_mem_singleton.mpr (hname _ _ rfl)⟩
  refine List.forall_mem_cons.mpr ⟨hvariable _ _ _ _ _, List.forall_mem_cons.mpr ⟨?_,
    List.forall_mem_cons.mpr ⟨?_, List.forall_mem_singleton.mpr ?_⟩⟩⟩
  · refine .mk (.conditional _ _) (List.forall_mem_singleton.mpr (hname _ _ rfl))
      (List.forall_mem_singleton.mpr (.mk (.block _) (List.forall_mem_nil _)
        (List.forall_mem_cons.mpr ⟨hpattern, List.forall_mem_singleton.mpr ?_⟩)))
    exact .mk (.classDefinition _ _) (List.forall_mem_nil _) (List.forall_mem_nil _)
  · refine .mk (.forOfVariables _ _ _) (List.forall_mem_singleton.mpr (.definition rfl))
      (List.forall_mem_cons.mpr ⟨hvariable _ _ _ _ _, List.forall_mem_singleton.mpr
        (.mk (.tryStatement _) (List.forall_mem_nil _) (List.forall_mem_cons.mpr ⟨?_,
          List.forall_mem_singleton.mpr ?_⟩))⟩)
    · exact hblock _ _ (.mk (.labelled _ _) (List.forall_mem_singleton.mpr (hname _ _ rfl))
        (List.forall_mem_singleton.mpr (hvariable _ _ _ _ _)))
    · exact .mk (.catchClause [_] _) (List.forall_mem_singleton.mpr
        (.compound rfl (List.forall_mem_singleton.mpr (hname _ _ rfl))))
        (List.forall_mem_singleton.mpr (hblock _ _ (hvariable _ _ _ _ _)))
  · exact .mk (.function _ _) (List.forall_mem_nil _) (List.forall_mem_nil _)

/-- The lexical declarations of nested blocks, what a catch clause binds, and the variables of nested
functions are not collected. -/
theorem declaredNames_exact_nested :
    (∀ statement ∈ nestedStatements, IsStatement statement) ∧
      (∀ name, name ∈ blockNames nestedStatements ↔ name ∈ ["a", "m"]) ∧
      (∀ name, (∃ statement ∈ nestedStatements, VarScoped name statement) →
        name ∈ ["a", "m", "c", "g", "j"]) ∧
      ∀ name ∈ ["c", "g", "j"], ∃ statement ∈ nestedStatements, VarScoped name statement := by
  have hexact := declaredNames_exact isStatement_nestedStatements
  have hblock : blockNames nestedStatements = ["a", "m"] := by decide
  have hfunction : functionNames nestedStatements = ["a", "m", "c", "g", "j"] := by decide
  refine ⟨isStatement_nestedStatements, fun name => by rw [hblock], fun name hscoped => ?_,
    fun name hmem => ?_⟩
  · rw [← hfunction]
    exact (hexact name).2.mpr (.inr hscoped)
  · have hcollected : name ∈ functionNames nestedStatements := by
      rw [hfunction]
      exact List.mem_append_right ["a", "m"] hmem
    rcases (hexact name).2.mp hcollected with hlexical | hscoped
    · have hdeclared := (hexact name).1.mpr hlexical
      rw [hblock] at hdeclared
      simp only [List.mem_cons, List.not_mem_nil, or_false] at hmem hdeclared
      rcases hmem with rfl | rfl | rfl <;> simp at hdeclared
    · exact hscoped

end ModuleLinkage.Scope
