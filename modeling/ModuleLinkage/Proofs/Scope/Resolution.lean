import ModuleLinkage.Proofs.Lowering.Exports

/-!
# What a name means at a place

A name means what the innermost scope around it binds (`Resolves`). Scopes are opened by functions,
for their own name, their parameters and the declarations of their body, by blocks, loops, switches
and catch clauses, and by classes and their static blocks (`scopesAt`). What a scope binds is told
by its declarations (`Binds`): a block binds what its statements declare lexically, and the body of
a function and a static block bind besides each `var` inside that no nested function or class takes.

The names that the pass over writes takes for bound in a construct hold all that the scopes of the
construct bind (`mem_scopeNames_of_binds`), unless the construct is a class or a static block, for
which the pass takes none.
-/

set_option autoImplicit false

namespace ModuleLinkage.Scope

open Syntax

variable {name : String} {node part : Node}

/-! ### Declarations -/

/-- A statement declares a name in the block that it stands in. -/
inductive LexicallyDeclares (name : String) (statement : Node) : Prop
  | variables {kind : VariableKind} {ambient : Bool}
      (hform : statement.form = .variableDeclaration kind ambient) (hkind : kind ≠ .var)
      (hbinds : VariableBinds name statement)
  | function {ambient : Bool} (hform : statement.form = .function .declaration ambient)
      (hname : statement.ownName? = some name)
  | classDefinition {ambient : Bool} (hform : statement.form = .classDefinition .declaration ambient)
      (hname : statement.ownName? = some name)

/-- Whether no `var` declaration inside a form belongs to the function around it. -/
def keepsVariables : Form → Bool
  | .function _ _ | .arrow | .classDefinition _ _ | .namespaceDeclaration _ | .variableDeclaration _ _ => true
  | _ => false

/-- A `var` declaration in a node declares a name in the function around it. -/
inductive VarDeclares (name : String) : Node → Prop
  | declared {node : Node} {ambient : Bool} (hform : node.form = .variableDeclaration .var ambient)
      (hbinds : VariableBinds name node) : VarDeclares name node
  | inside {node part : Node} (hform : keepsVariables node.form = false) (hpart : part ∈ node.parts)
      (hdeclares : VarDeclares name part) : VarDeclares name node

/-- The statements of a body declare a name in it. -/
def BodyDeclares (name : String) (statements : List Node) : Prop :=
  ∃ statement ∈ statements, LexicallyDeclares name statement ∨ VarDeclares name statement

theorem mem_lexicalNames_iff {statement : Node} :
    name ∈ lexicalNames statement ↔ LexicallyDeclares name statement := by
  constructor
  · intro hmem
    unfold lexicalNames at hmem
    split at hmem
    · cases hmem
    · next kind ambient hkind hform =>
      exact .variables hform hkind (mem_variableNames_iff.mp hmem)
    · next hform => exact .function hform (Option.mem_toList.mp hmem)
    · next hform => exact .classDefinition hform (Option.mem_toList.mp hmem)
    · cases hmem
  · rintro (⟨hform, hkind, hbinds⟩ | ⟨hform, hname⟩ | ⟨hform, hname⟩)
    · have hmem := mem_variableNames_iff.mpr hbinds
      unfold lexicalNames
      rw [hform]
      split <;> simp_all
    · simp [lexicalNames, hform, hname]
    · simp [lexicalNames, hform, hname]

theorem listVarNames_eq (nodes : List Node) : listVarNames nodes = nodes.flatMap varNames := by
  induction nodes with
  | nil => rfl
  | cons node rest ih => rw [listVarNames, ih, List.flatMap_cons]

theorem mem_varNames_iff : name ∈ varNames node ↔ VarDeclares name node := by
  constructor
  · intro hmem
    induction node using Node.induction with
    | step span form parts ih =>
      unfold varNames at hmem
      split at hmem
      · exact .declared rfl (mem_variableNames_iff.mp hmem)
      · cases hmem
      · cases hmem
      · cases hmem
      · cases hmem
      · cases hmem
      · rw [listVarNames_eq, List.mem_flatMap] at hmem
        obtain ⟨part, hpart, hname⟩ := hmem
        refine .inside ?_ hpart (ih part hpart hname)
        unfold keepsVariables
        split <;> simp_all
  · intro hdeclares
    induction hdeclares with
    | @declared node ambient hform hbinds =>
      obtain ⟨span, form, parts⟩ := node
      obtain rfl : form = _ := hform
      rw [varNames]
      exact mem_variableNames_iff.mpr hbinds
    | @inside node part hform hpart _ ih =>
      obtain ⟨span, form, parts⟩ := node
      have hparts : name ∈ listVarNames parts := by
        rw [listVarNames_eq]
        exact List.mem_flatMap.mpr ⟨part, hpart, ih⟩
      unfold varNames
      split <;> simp_all [keepsVariables]

theorem mem_blockNames_iff {statements : List Node} :
    name ∈ blockNames statements ↔ ∃ statement ∈ statements, LexicallyDeclares name statement := by
  simp only [blockNames, List.mem_flatMap, mem_lexicalNames_iff]

theorem mem_functionNames_iff {statements : List Node} :
    name ∈ functionNames statements ↔ BodyDeclares name statements := by
  rw [functionNames, List.mem_append, mem_blockNames_iff, listVarNames_eq, List.mem_flatMap]
  simp only [mem_varNames_iff, BodyDeclares]
  constructor
  · rintro (⟨statement, hmem, hdeclares⟩ | ⟨statement, hmem, hdeclares⟩)
    · exact ⟨statement, hmem, .inl hdeclares⟩
    · exact ⟨statement, hmem, .inr hdeclares⟩
  · rintro ⟨statement, hmem, hdeclares | hdeclares⟩
    · exact .inl ⟨statement, hmem, hdeclares⟩
    · exact .inr ⟨statement, hmem, hdeclares⟩

/-! ### Scopes -/

/-- What a scope is opened for. -/
inductive ScopeKind where
  /-- The name by which a function expression knows itself. -/
  | functionName
  | parameters
  | functionBody
  | block
  | loop
  | switch
  | catchClause
  | classDefinition
  | staticBlock
  deriving Repr, DecidableEq

/-- Whether a scope is that of a class or of a static block in one. -/
def ScopeKind.isOfClass : ScopeKind → Bool
  | classDefinition | staticBlock => true
  | _ => false

/-- The statements of a case of a switch. -/
def caseStatements (clause : Node) : List Node :=
  match clause.form with
  | .switchCase => clause.parts.tail
  | .defaultCase => clause.parts
  | _ => []

/-- The declaration in the head of a loop. -/
inductive HeadDeclares (name : String) (head : Node) : Prop
  | start {declaration : Node} (hform : head.form = .loopStart) (hparts : head.parts = [declaration])
      (hdeclares : LexicallyDeclares name declaration)
  | each {kind : VariableKind} {ambient : Bool} (hform : head.form = .variableDeclaration kind ambient)
      (hdeclares : LexicallyDeclares name head)

/-- The scope of one kind that a node opens binds a name. -/
inductive Binds (name : String) (node : Node) : ScopeKind → Prop
  | functionName (hname : node.ownName? = some name) : Binds name node .functionName
  | parameters {list parameter pattern : Node} (hlist : list ∈ node.parts) (hform : list.form = .parameters)
      (hparameter : parameter ∈ list.parts) (hform' : parameter.form = .parameter)
      (hpattern : pattern ∈ parameter.parts) (hbinds : PatternBinds name pattern) :
      Binds name node .parameters
  | functionBody {body : Node} (hbody : body ∈ node.parts) (hform : body.form = .body)
      (hdeclares : BodyDeclares name body.parts) : Binds name node .functionBody
  | block {statement : Node} (hstatement : statement ∈ node.parts)
      (hdeclares : LexicallyDeclares name statement) : Binds name node .block
  | loop {head : Node} (hhead : node.parts.head? = some head) (hdeclares : HeadDeclares name head) :
      Binds name node .loop
  | switch {clause statement : Node} (hclause : clause ∈ node.parts)
      (hstatement : statement ∈ caseStatements clause) (hdeclares : LexicallyDeclares name statement) :
      Binds name node .switch
  | catchClause {parameter pattern : Node} (hparameter : node.parts.head? = some parameter)
      (hform : parameter.form = .catchParameter) (hpattern : parameter.parts.head? = some pattern)
      (hbinds : PatternBinds name pattern) : Binds name node .catchClause
  | classDefinition (hname : node.ownName? = some name) : Binds name node .classDefinition
  | staticBlock (hdeclares : BodyDeclares name node.parts) : Binds name node .staticBlock

/-- The scopes that a function opens around a part of it, innermost first. -/
def functionScopes (part : Node) : List ScopeKind :=
  match part.form with
  | .parameters => [.parameters]
  | .body => [.functionBody, .parameters]
  | _ => []

/-- The scopes that a node opens around a part of it, innermost first. The subject of a switch
stands outside of the block of its cases, and the decorators of a class outside of the class. -/
def scopesAt (node part : Node) : List ScopeKind :=
  match node.form with
  | .function .expression _ => functionScopes part ++ [.functionName]
  | .function .declaration _ => functionScopes part
  | .arrow => functionScopes part
  | .block => [.block]
  | .forLoop | .forInLoop | .forOfLoop => [.loop]
  | .switchStatement =>
    match part.form with
    | .switchCase | .defaultCase => [.switch]
    | _ => []
  | .catchClause => [.catchClause]
  | .classDefinition _ _ =>
    match part.form with
    | .decorator => []
    | _ => [.classDefinition]
  | .staticBlock => [.staticBlock]
  | _ => []

/-- A node of a tree and the steps that lead to it, the last one first: each from a node to a part
of it, none into an ambient namespace. -/
inductive Reaches (root : Node) : List (Node × Node) → Node → Prop
  | root : Reaches root [] root
  | step {steps : List (Node × Node)} {node part : Node} (hreaches : Reaches root steps node)
      (hpart : part ∈ node.parts) (hambient : node.form ≠ .namespaceDeclaration true) :
      Reaches root ((node, part) :: steps) part

mutual

/-- The nodes of a tree that `steps` lead to, with the steps that lead to each. -/
def reachedFrom (steps : List (Node × Node)) : Node → List (List (Node × Node) × Node)
  | .mk span form parts =>
    (steps, .mk span form parts) ::
      match form with
      | .namespaceDeclaration true => []
      | _ => listReachedFrom (.mk span form parts) steps parts

def listReachedFrom (node : Node) (steps : List (Node × Node)) : List Node → List (List (Node × Node) × Node)
  | [] => []
  | part :: rest => reachedFrom ((node, part) :: steps) part ++ listReachedFrom node steps rest

end

theorem listReachedFrom_eq (node : Node) (steps : List (Node × Node)) (parts : List Node) :
    listReachedFrom node steps parts =
      parts.flatMap fun part => reachedFrom ((node, part) :: steps) part := by
  induction parts with
  | nil => rfl
  | cons part rest ih => rw [listReachedFrom, ih, List.flatMap_cons]

theorem reaches_of_mem {root start : Node} {before steps : List (Node × Node)}
    (hstart : Reaches root before start)
    (hmem : (steps, node) ∈ reachedFrom before start) : Reaches root steps node := by
  induction start using Node.induction generalizing before with
  | step span form parts ih =>
    unfold reachedFrom at hmem
    rcases List.mem_cons.mp hmem with hself | hmem
    · cases hself
      exact hstart
    split at hmem
    · cases hmem
    · next hambient =>
      rw [listReachedFrom_eq, List.mem_flatMap] at hmem
      obtain ⟨part, hpart, hinner⟩ := hmem
      exact ih part hpart (hstart.step hpart hambient) hinner

/-- A scope around a place. -/
structure Frame where
  kind : ScopeKind
  /-- What opens the scope. -/
  node : Node

/-- The scopes around a place that is reached by `steps`, innermost first. -/
def framesAround (steps : List (Node × Node)) : List Frame :=
  steps.flatMap fun (node, part) => (scopesAt node part).map (⟨·, node⟩)

/-- A name means what a scope of some kind binds: of the scopes around, innermost first, that is the
first one that binds the name. -/
inductive Resolves (name : String) : List Frame → ScopeKind → Prop
  | here {frame : Frame} {outer : List Frame} (hbinds : Binds name frame.node frame.kind) :
      Resolves name (frame :: outer) frame.kind
  | outer {frame : Frame} {outer : List Frame} {kind : ScopeKind} (hfree : ¬ Binds name frame.node frame.kind)
      (houter : Resolves name outer kind) : Resolves name (frame :: outer) kind

/-- What a name means is bound by one of the scopes. -/
theorem Resolves.exists_frame {frames : List Frame} {kind : ScopeKind} (h : Resolves name frames kind) :
    ∃ frame ∈ frames, frame.kind = kind ∧ Binds name frame.node kind := by
  induction h with
  | @here frame outer hbinds => exact ⟨frame, List.mem_cons_self, rfl, hbinds⟩
  | outer _ _ ih =>
    obtain ⟨frame, hmem, hframe⟩ := ih
    exact ⟨frame, List.mem_cons_of_mem _ hmem, hframe⟩

/-! ### What the pass takes for bound -/

/-- The parameters of a function and what its body declares are among the names that the pass takes
for bound in the parts of the function. -/
theorem mem_functionPartNames_of_binds {kind : ScopeKind} (hkind : kind ∈ functionScopes part)
    (hbinds : Binds name node kind) : name ∈ node.parts.flatMap functionPartNames := by
  rw [mem_functionPartNames]
  have hkinds : kind = .parameters ∨ kind = .functionBody := by
    unfold functionScopes at hkind
    split at hkind <;> simp_all
    tauto
  rcases hkinds with rfl | rfl
  · cases hbinds with
    | parameters hlist hform hparameter hform' hpattern hbinds =>
      refine .inl (List.mem_flatMap.mpr ⟨_, hlist, ?_⟩)
      rw [partParameterNames, hform]
      refine List.mem_flatMap.mpr ⟨_, hparameter, ?_⟩
      rw [parameterNames, hform']
      exact List.mem_flatMap.mpr ⟨_, hpattern, mem_patternNames_iff.mpr hbinds⟩
  · cases hbinds with
    | functionBody hbody hform hdeclares =>
      refine .inr (.inr (List.mem_flatMap.mpr ⟨_, hbody, ?_⟩))
      rw [partBodyNames, hform]
      exact mem_functionNames_iff.mpr hdeclares

theorem mem_loopNames_of_binds (hbinds : Binds name node .loop) : name ∈ loopNames node.parts := by
  cases hbinds with
  | @loop head hhead hdeclares =>
    have hnames : name ∈ headNames head := by
      cases hdeclares with
      | start hform hparts hdeclares =>
        simp only [headNames, hform, hparts]
        exact mem_lexicalNames_iff.mpr hdeclares
      | each hform hdeclares =>
        simp only [headNames, hform]
        exact mem_lexicalNames_iff.mpr hdeclares
    cases hparts : node.parts with
    | nil =>
      rw [hparts] at hhead
      cases hhead
    | cons first rest =>
      rw [hparts] at hhead
      obtain rfl := Option.some.inj hhead
      exact hnames

theorem mem_caseNames_of_binds (hbinds : Binds name node .switch) : name ∈ node.parts.flatMap caseNames := by
  cases hbinds with
  | @switch clause statement hclause hstatement hdeclares =>
    refine List.mem_flatMap.mpr ⟨clause, hclause, ?_⟩
    unfold caseStatements at hstatement
    split at hstatement
    · next hform =>
      cases hparts : clause.parts with
      | nil =>
        rw [hparts] at hstatement
        cases hstatement
      | cons test statements =>
        rw [hparts, List.tail_cons] at hstatement
        simp only [caseNames, hform, hparts]
        exact mem_blockNames_iff.mpr ⟨statement, hstatement, hdeclares⟩
    · next hform =>
      simp only [caseNames, hform]
      exact mem_blockNames_iff.mpr ⟨statement, hstatement, hdeclares⟩
    · cases hstatement

theorem mem_scopeNames_of_catches (hform : node.form = .catchClause) (hbinds : Binds name node .catchClause) :
    name ∈ scopeNames node := by
  cases hbinds with
  | @catchClause parameter pattern hparameter hform' hpattern hbinds =>
    obtain ⟨rest, hparts⟩ := List.head?_eq_some_iff.mp hparameter
    obtain ⟨rest', hparts'⟩ := List.head?_eq_some_iff.mp hpattern
    simp only [scopeNames, hform, hparts, hform', hparts']
    exact mem_patternNames_iff.mpr hbinds

/-- What the scopes around a part bind, other than those of classes, the pass takes for bound there. -/
theorem mem_scopeNames_of_binds {kind : ScopeKind} (hkind : kind ∈ scopesAt node part)
    (hbinds : Binds name node kind) (hclass : kind.isOfClass = false) : name ∈ scopeNames node := by
  unfold scopesAt at hkind
  split at hkind
  · next hform =>
    rw [scopeNames, hform]
    rcases List.mem_append.mp hkind with hkind | hkind
    · exact List.mem_append_right _ (mem_functionPartNames_of_binds hkind hbinds)
    · obtain rfl := List.mem_singleton.mp hkind
      cases hbinds with
      | functionName hname => exact List.mem_append_left _ (Option.mem_toList.mpr hname)
  · next hform =>
    rw [scopeNames, hform]
    exact mem_functionPartNames_of_binds hkind hbinds
  · next hform =>
    rw [scopeNames, hform]
    exact mem_functionPartNames_of_binds hkind hbinds
  · next hform =>
    obtain rfl := List.mem_singleton.mp hkind
    cases hbinds with
    | block hstatement hdeclares =>
      rw [scopeNames, hform]
      exact mem_blockNames_iff.mpr ⟨_, hstatement, hdeclares⟩
  iterate 3
    · next hform =>
      obtain rfl := List.mem_singleton.mp hkind
      rw [scopeNames, hform]
      exact mem_loopNames_of_binds hbinds
  · next hform =>
    have hswitch : kind = .switch := by
      split at hkind <;> simp_all
    subst hswitch
    rw [scopeNames, hform]
    exact mem_caseNames_of_binds hbinds
  · next hform =>
    obtain rfl := List.mem_singleton.mp hkind
    exact mem_scopeNames_of_catches hform hbinds
  · have hdefinition : kind = .classDefinition := by
      split at hkind <;> simp_all
    rw [hdefinition] at hclass
    cases hclass
  · obtain rfl := List.mem_singleton.mp hkind
    cases hclass
  · cases hkind

end ModuleLinkage.Scope
