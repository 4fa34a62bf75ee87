import ModuleLinkage.Proofs.Syntax.Anchoring.Declarations
import ModuleLinkage.Proofs.Syntax.Tally.Expressions
import ModuleLinkage.Syntax.Parser.ModuleItem

/-!
# Declarations within their budgets

If the productions of a grammar keep within their budgets, then so do those of declarations. What
stands behind the words `import` and `export` takes its own beginning from the budget, which passing
the word has gained (`LeavesAt.behindWord`).
-/

set_option autoImplicit false
set_option synthInstance.maxSize 100000
set_option synthInstance.maxHeartbeats 200000

namespace ModuleLinkage.Syntax

variable {offset budget middle left : Nat} {g : Grammar}

theorem denies_variableDeclaration {start : Nat} {kind : VariableKind} {inHead ambient : Bool} :
    Gives (variableDeclaration g start kind inHead ambient) fun node =>
      Denies node.form.mayRequest := by
  unfold variableDeclaration
  exact .bind fun declarators => gives_finish fun _ => ⟨rfl⟩

variable [AffordsAll offset g]

/-! ### Variables -/

instance leaves_declarator (kind : VariableKind) (inHead : Bool) :
    Leaves offset budget (declarator g kind inHead) budget := by
  unfold declarator
  dsimp only
  infer_instance

instance leaves_variableDeclaration (start : Nat) (kind : VariableKind) (inHead ambient : Bool) :
    Leaves offset budget (variableDeclaration g start kind inHead ambient) budget := by
  unfold variableDeclaration
  infer_instance

instance leaves_variableStatement (start : Nat) (kind : VariableKind) (ambient : Bool) :
    Leaves offset budget (variableStatement g start kind ambient) budget := by
  unfold variableStatement
  exact .of_affords (.step_of (gives_within denies_variableDeclaration) fun node _ => inferInstance)

/-! ### Types and namespaces -/

instance leaves_aliasedType : Leaves offset budget (aliasedType g) budget := by
  unfold aliasedType
  infer_instance

instance leaves_typeAlias (start : Nat) : Leaves offset budget (typeAlias g start) budget := by
  unfold typeAlias
  infer_instance

instance leaves_interfaceDeclaration (start : Nat) :
    Leaves offset budget (interfaceDeclaration g start) budget := by
  unfold interfaceDeclaration
  infer_instance

instance leaves_enumMember : Leaves offset budget (enumMember g) budget := by
  unfold enumMember
  dsimp only
  refine .of_affords (.step fun start => .step fun token => ?_)
  split
  case h_3 =>
    refine .step fun _ => .step fun token => ?_
    split <;> infer_instance
  all_goals infer_instance

instance leaves_enumeration (start : Nat) (ambient : Bool) :
    Leaves offset budget (enumeration g start ambient) budget := by
  unfold enumeration
  infer_instance

instance leaves_namespaceBody : Leaves offset budget (namespaceBody g) budget := by
  unfold namespaceBody
  infer_instance

instance leaves_namespaceRest : Leaves offset budget (namespaceRest g) budget := by
  unfold namespaceRest
  dsimp only
  infer_instance

instance leaves_namedModule (start : Nat) (ambient : Bool) :
    Leaves offset budget (namedModule g start ambient) budget := by
  unfold namedModule
  dsimp only
  infer_instance

instance leaves_namespaceDeclaration (start : Nat) (ambient : Bool) :
    Leaves offset budget (namespaceDeclaration g start ambient) budget := by
  unfold namespaceDeclaration
  infer_instance

instance leaves_globalDeclaration (start : Nat) :
    Leaves offset budget (globalDeclaration g start) budget := by
  unfold globalDeclaration
  infer_instance

instance leaves_importAlias (start : Nat) {name : Node} [Takes offset budget name left] :
    Leaves offset budget (importAlias start name) left := by
  refine .of_takes name ?_
  unfold importAlias
  dsimp only
  infer_instance

instance leaves_aliasDeclaration (start : Nat) :
    Leaves offset budget (aliasDeclaration start) budget := by
  unfold aliasDeclaration
  dsimp only
  infer_instance

/-! ### Any declaration -/

instance leaves_declarationBody (start : Nat) {decorators : List Node}
    [Takes offset budget decorators left] (modifiers : List String) :
    Leaves offset budget (declarationBody g start decorators modifiers) left := by
  refine .of_takes decorators ?_
  unfold declarationBody
  dsimp only
  refine .step fun types => .step fun token => ?_
  split
  case h_5 =>
    refine .step fun isFunction => ?_
    split
    · infer_instance
    refine .step fun _ => ?_
    split
    · infer_instance
    refine .step fun _ => ?_
    split <;> infer_instance
  all_goals infer_instance

instance leaves_declaration (start : Nat) {decorators : List Node}
    [Takes offset budget decorators left] (awaits : Bool) :
    Leaves offset budget (declaration g start decorators awaits) left := by
  refine .of_takes decorators ?_
  unfold declaration
  dsimp only
  infer_instance

/-! ### Names of imports and exports -/

/-- A node in which nothing is counted at any offset. -/
def Uncounted (node : Node) : Prop :=
  ∀ offset, tally offset node = 0

theorem Uncounted.takes {node : Node} (h : Uncounted node) : Takes offset budget node budget :=
  ⟨by rw [h offset, Nat.zero_add]⟩

theorem uncounted_leaf (span : Text.Span) {form : Form} (hform : form.mayRequest = false) :
    Uncounted (.mk span form []) := by
  intro offset
  rw [tally_mk, hform]
  rfl

theorem uncounted_of_isKey {node : Node} (h : node.isKey = true) : Uncounted node := by
  obtain ⟨span, form, parts⟩ := node
  unfold Node.isKey at h
  dsimp only [Node.form_mk, Node.parts_mk] at h
  split at h
  · exact uncounted_leaf span rfl
  · exact uncounted_leaf span rfl
  · cases h

/-- What is counted in the two names of a pair is known from elsewhere (`gives_namePair`). -/
instance : Tallyless NamePair := .of NamePair

instance leaves_exportedName : Leaves offset budget exportedName budget := by
  unfold exportedName
  refine .of_affords (.step fun token => ?_)
  split <;> infer_instance

instance leaves_isAtExportedName : Leaves offset budget isAtExportedName budget := by
  unfold isAtExportedName
  infer_instance

instance leaves_renamed (first : Node) (typeOnly : Bool) :
    Leaves offset budget (renamed first typeOnly) budget := by
  unfold renamed
  infer_instance

instance leaves_typeNamePair (type : Node) : Leaves offset budget (typeNamePair type) budget := by
  unfold typeNamePair
  infer_instance

instance leaves_namePair (typeOnly : Bool) : Leaves offset budget (namePair typeOnly) budget := by
  unfold namePair
  dsimp only
  infer_instance

instance leaves_localBinding (node : Node) : Leaves offset budget (localBinding node) budget := by
  unfold localBinding
  split <;> infer_instance

/-! ### Imports -/

instance leaves_importSpecifier (typeOnly : Bool) :
    Leaves offset budget (importSpecifier typeOnly) budget := by
  unfold importSpecifier
  refine .of_affords (.step fun start => .step_of (gives_namePair typeOnly) fun pair hpair => ?_)
  refine .step fun name => ?_
  have hfirst {budget : Nat} : Takes offset budget pair.first budget := (uncounted_of_isKey hpair.1).takes
  infer_instance

instance leaves_exportSpecifier (typeOnly : Bool) :
    Leaves offset budget (exportSpecifier typeOnly) budget := by
  unfold exportSpecifier
  refine .of_affords (.step fun start => .step_of (gives_namePair typeOnly) fun pair hpair => ?_)
  have hfirst {budget : Nat} : Takes offset budget pair.first budget := (uncounted_of_isKey hpair.1).takes
  have hsecond {budget : Nat} : Takes offset budget pair.second budget := (uncounted_of_isKey hpair.2).takes
  infer_instance

instance leaves_importAttribute : Leaves offset budget importAttribute budget := by
  unfold importAttribute
  dsimp only
  refine .of_affords (.step fun start => .step fun token => ?_)
  split <;> infer_instance

instance leaves_attributes : Leaves offset budget attributes? budget := by
  unfold attributes?
  infer_instance

instance leaves_moduleSource : Leaves offset budget moduleSource budget := by
  unfold moduleSource
  infer_instance

instance leaves_namespaceSpecifier : Leaves offset budget namespaceSpecifier budget := by
  unfold namespaceSpecifier
  infer_instance

instance leaves_importSpecifiers (typeOnly : Bool) :
    Leaves offset budget (importSpecifiers typeOnly) budget := by
  unfold importSpecifiers
  infer_instance

instance leaves_importRest (typeOnly : Bool) {default : List Node}
    [Takes offset budget default left] :
    Leaves offset budget (importRest typeOnly default) left := by
  refine .of_takes default ?_
  unfold importRest
  dsimp only
  infer_instance

instance leaves_importPhase : Leaves offset budget importPhase budget := by
  unfold importPhase
  dsimp only
  infer_instance

instance leaves_importOfTypes : Leaves offset budget importOfTypes budget := by
  unfold importOfTypes
  infer_instance

/-- The first part of a node, if it has one, counts no more than the node. -/
instance takes_headD {node : Node} [htakes : Takes offset budget node left] :
    Takes offset budget (node.parts.headD node) left := by
  have hle : tally offset (node.parts.headD node) ≤ tally offset node := by
    have hparts := tally_parts_le offset node
    cases hnode : node.parts with
    | nil => exact Nat.le_refl _
    | cons part rest =>
      rw [hnode, tally_cons] at hparts
      exact (Nat.le_add_right _ _).trans hparts
  exact ⟨(Nat.add_le_add_right hle _).trans htakes.le⟩

instance takes_single {node : Node} [htakes : Takes offset budget [node] left] :
    Takes offset budget node left :=
  ⟨by simpa using htakes.le⟩

instance leaves_importBody {start : Nat} [Takes offset budget (Beginning.mk start) left] :
    Leaves offset budget (importBody start) left := by
  refine .of_takes (Beginning.mk start) ?_
  unfold importBody
  dsimp only
  refine .step fun isSource => ?_
  split
  · infer_instance
  refine .step fun _ => .step fun typeOnly => .step fun isName => ?_
  split
  · refine .step fun inner => .step fun binding => .step fun name => .step fun default => ?_
    split <;> infer_instance
  · refine .step fun default => ?_
    split <;> infer_instance

/-! ### Exports -/

instance leaves_exportSource : Leaves offset budget exportSource? budget := by
  unfold exportSource?
  refine .of_affords (.step fun word => ?_)
  split
  · infer_instance
  refine .step fun token => ?_
  split <;> infer_instance

instance leaves_exportList {start : Nat} [Takes offset budget (Beginning.mk start) left]
    (typeOnly : Bool) : Leaves offset budget (exportList start typeOnly) left := by
  refine .of_takes (Beginning.mk start) ?_
  unfold exportList
  infer_instance

instance leaves_exportStar {start : Nat} [Takes offset budget (Beginning.mk start) left]
    (typeOnly : Bool) : Leaves offset budget (exportStar start typeOnly) left := by
  refine .of_takes (Beginning.mk start) ?_
  unfold exportStar
  dsimp only
  infer_instance

instance leaves_exportedDecorators {before : List Node} [Takes offset budget before left] :
    Leaves offset budget (exportedDecorators g before) left := by
  refine .of_takes before ?_
  unfold exportedDecorators
  infer_instance

instance leaves_beginsClass : Leaves offset budget beginsClass budget := by
  unfold beginsClass
  infer_instance

instance leaves_defaultBody (inner : Nat) {decorators : List Node}
    [Takes offset budget decorators left] :
    Leaves offset budget (defaultBody g inner decorators) left := by
  refine .of_takes decorators ?_
  unfold defaultBody
  infer_instance

instance leaves_exportDefault (start : Nat) {before : List Node}
    [Takes offset budget before left] :
    Leaves offset budget (exportDefault g start before) left := by
  refine .of_takes before ?_
  unfold exportDefault
  infer_instance

instance leaves_exportDeclaration (start : Nat) {before : List Node}
    [Takes offset budget before left] :
    Leaves offset budget (exportDeclaration g start before) left := by
  refine .of_takes before ?_
  unfold exportDeclaration
  dsimp only
  infer_instance

instance leaves_exportImport (start : Nat) : Leaves offset budget (exportImport start) budget := by
  unfold exportImport
  refine .of_affords ⟨fun s => LeavesAt.bind (leaves_offset.run s) fun inner s' hoffset => ?_⟩
  cases hoffset
  refine .behindWord (fun s' hrun => advance_of_expectWord hrun) (.step fun node => ?_)
  split <;> infer_instance

instance leaves_exportAssignment (start : Nat) :
    Leaves offset budget (exportAssignment g start) budget := by
  unfold exportAssignment
  infer_instance

instance leaves_exportGlobalName (start : Nat) :
    Leaves offset budget (exportGlobalName start) budget := by
  unfold exportGlobalName
  infer_instance

instance leaves_exportOfTypes {start : Nat} [hstart : Takes offset budget (Beginning.mk start) middle]
    {before : List Node} [hbefore : Takes offset middle before left] :
    Leaves offset budget (exportOfTypes g start before) left := by
  refine .of_takes (Beginning.mk start, before) ?_
  rw [tally_pair, ← Nat.add_assoc]
  unfold exportOfTypes
  infer_instance

instance leaves_exportBody {start : Nat} [hstart : Takes offset budget (Beginning.mk start) middle]
    {before : List Node} [hbefore : Takes offset middle before left] :
    Leaves offset budget (exportBody g start before) left := by
  refine .of_takes (Beginning.mk start, before) ?_
  rw [tally_pair, ← Nat.add_assoc]
  unfold exportBody
  refine .step fun token => ?_
  split
  case h_4 =>
    refine .step fun types => ?_
    split
    · infer_instance
    · split <;> infer_instance
  all_goals infer_instance

end ModuleLinkage.Syntax
