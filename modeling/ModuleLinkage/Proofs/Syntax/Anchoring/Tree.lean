import ModuleLinkage.Proofs.Syntax.Anchoring.Boundaries
import ModuleLinkage.Syntax.Parser

/-!
# Trees anchored in a text

A tree is `Anchored` in a text if every node of it begins and ends between two characters of the
text and has the shape that reading it guarantees (`Shaped`): names are identifiers that stand where
their nodes begin, a declaration that is removed does not end before it begins, behind `export`
stands one declaration or expression that does not begin before the `export`, the keyword of an
`import` or `export` stands where it begins, and a list of exports that is from no other module
exports variables only. A target is made from the expression that spells it
(`Node.Spells.retargets`); turning an expression into one and strings into directives keeps a tree
anchored (`Node.Anchored.toTarget`, `anchored_withDirectives`).
-/

set_option autoImplicit false

namespace ModuleLinkage.Syntax

open Text (Span isBoundary)

/-- Whether a name may be that of an identifier which begins at an offset of a text. -/
def Named (source : List Char) (offset : Nat) (name : String) : Prop :=
  isIdentifier name.toList = true ∧ NamedAt source offset name.toList

theorem Lexeme.Stands.named {source : List Char} {lexeme : Lexeme} {name : String} {escaped : Bool}
    (h : lexeme.Stands source) (htoken : lexeme.token = .word name escaped) :
    Named source lexeme.span.start name :=
  ⟨h.isIdentifier htoken, h.namedAt htoken⟩

/-- Whether a token, if it is a word, may be an identifier that begins at an offset of a text. -/
def TokenNamed (source : List Char) (offset : Nat) (token : Token) : Prop :=
  ∀ name escaped, token = .word name escaped → Named source offset name

/-- The name of an identifier. -/
def Form.identifier? : Form → Option String
  | .binding name | .reference name | .propertyName name | .label name => some name
  | _ => none

/-- Whether a node is the specifier of a module. -/
def isModuleSource (node : Node) : Bool :=
  match node.form with
  | .moduleSource _ => true
  | _ => false

/-- Whether a node is the name of a property or of an export, which may name a variable too. -/
def Node.isKey (node : Node) : Bool :=
  match node.form, node.parts with
  | .propertyName _, [] | .string _, [] => true
  | _, _ => false

/-- What reading a node guarantees of its form, apart from where the node lies. -/
def Shaped (source : List Char) (span : Span) (form : Form) (parts : List Node) : Prop :=
  match form, parts with
  | .binding name, _ | .reference name, _ | .propertyName name, _ | .label name, _ =>
    Named source span.start name
  | .importDeclaration _, _ =>
    span.start ≤ span.stop ∧ KeywordAt source span.start "import".toList
  | .exportAll _, _ => span.start ≤ span.stop ∧ KeywordAt source span.start "export".toList
  | .exportNames _, parts =>
    (span.start ≤ span.stop ∧ (parts.any isModuleSource || parts.all isExportable) = true) ∧
      KeywordAt source span.start "export".toList
  | .exportDeclaration _, [inner] | .exportDefault, [inner] =>
    span.start ≤ inner.span.start ∧ KeywordAt source span.start "export".toList
  | .exportDeclaration _, _ | .exportDefault, _ => False
  | .exportAssignment, _ | .exportGlobalName, _ => KeywordAt source span.start "export".toList
  | .importDefault, [binding] | .importNamespace, [binding] | .importName _, [_, binding] =>
    isBinding binding = true
  | .importCall, _ => KeywordAt source span.start "import".toList
  | _, _ => True

/-- A tree whose nodes begin and end between characters of a text and have the shape that reading them
guarantees. -/
inductive Node.Anchored (source : List Char) : Node → Prop
  | mk {span : Span} {form : Form} {parts : List Node} (hstart : isBoundary source span.start = true)
      (hstop : isBoundary source span.stop = true) (hshape : Shaped source span form parts)
      (hparts : ∀ part ∈ parts, Node.Anchored source part) : Node.Anchored source (.mk span form parts)

/-- Whether all of some trees are anchored in a text. -/
def AllAnchored (source : List Char) (nodes : List Node) : Prop :=
  ∀ node ∈ nodes, node.Anchored source

variable {source : List Char}

namespace Node.Anchored

variable {node : Node}

theorem start (h : node.Anchored source) : isBoundary source node.span.start = true := by
  cases h with
  | mk hstart hstop hshape hparts => exact hstart

theorem stop (h : node.Anchored source) : isBoundary source node.span.stop = true := by
  cases h with
  | mk hstart hstop hshape hparts => exact hstop

theorem shape (h : node.Anchored source) : Shaped source node.span node.form node.parts := by
  cases h with
  | mk hstart hstop hshape hparts => exact hshape

theorem parts (h : node.Anchored source) : AllAnchored source node.parts := by
  cases h with
  | mk hstart hstop hshape hparts => exact hparts

end Node.Anchored

namespace AllAnchored

variable {node : Node} {first second : List Node}

@[simp] theorem nil : AllAnchored source [] := by
  simp [AllAnchored]

@[simp] theorem cons_iff :
    AllAnchored source (node :: first) ↔ node.Anchored source ∧ AllAnchored source first := by
  simp [AllAnchored]

@[simp] theorem append_iff :
    AllAnchored source (first ++ second) ↔ AllAnchored source first ∧ AllAnchored source second := by
  simp [AllAnchored, or_imp, forall_and]

end AllAnchored

/-- A node is a tree or a node of a part of it. -/
inductive Node.Within (node : Node) : Node → Prop
  | self : Within node node
  | part {outer part : Node} (hpart : part ∈ outer.parts) (h : Within node part) : Within node outer

/-- The nodes of an anchored tree are anchored. -/
theorem Node.Within.anchored {node root : Node} (hwithin : node.Within root)
    (h : root.Anchored source) : node.Anchored source := by
  induction hwithin with
  | self => exact h
  | part hpart hinner ih => exact ih (h.parts _ hpart)

/-! ### Other forms over the same text -/

/-- Whether reading a node guarantees nothing of its form. -/
@[reducible] def Form.isFree : Form → Bool
  | .binding _ | .reference _ | .propertyName _ | .label _ | .importDeclaration _ | .exportAll _
  | .exportNames _ | .exportDeclaration _ | .exportDefault | .exportAssignment | .exportGlobalName
  | .importDefault | .importNamespace | .importName _ | .importCall => false
  | _ => true

theorem shaped_iff_named {form : Form} {name : String} (hform : form.identifier? = some name)
    (source : List Char) (span : Span) (parts : List Node) :
    Shaped source span form parts ↔ Named source span.start name := by
  unfold Form.identifier? at hform
  split at hform
  · obtain rfl := Option.some.inj hform
    exact Iff.rfl
  · obtain rfl := Option.some.inj hform
    exact Iff.rfl
  · obtain rfl := Option.some.inj hform
    exact Iff.rfl
  · obtain rfl := Option.some.inj hform
    exact Iff.rfl
  · cases hform

theorem shaped_of_isFree {form : Form} (hfree : form.isFree = true) (span : Span)
    (parts : List Node) : Shaped source span form parts := by
  cases form <;> trivial

/-- A node of another form in the place of an anchored one. -/
theorem Node.Anchored.reform {span : Span} {form : Form} {parts parts' : List Node}
    (h : Node.Anchored source (.mk span form parts)) {form' : Form} (hfree : form'.isFree = true)
    (hparts : AllAnchored source parts') : Node.Anchored source (.mk span form' parts') :=
  .mk h.start h.stop (shaped_of_isFree hfree _ _) hparts

/-- An identifier in the place of another one of the same name. -/
theorem Node.Anchored.renamed {node : Node} {form : Form} {name : String} (h : node.Anchored source)
    (hnode : node.form.identifier? = some name) (hform : form.identifier? = some name) :
    Node.Anchored source (.mk node.span form []) :=
  .mk h.start h.stop ((shaped_iff_named hform ..).mpr ((shaped_iff_named hnode ..).mp h.shape))
    AllAnchored.nil

/-! ### Targets -/

/-- Whether an expression, or a part of one, spells a target. -/
def Node.Spells (node target : Node) : Prop :=
  ∃ role, node.toTargetAs? role = some target

/-- Each element of an array spells one of its targets. -/
theorem spells_of_elementTargets? {elements targets : List Node}
    (htargets : Node.elementTargets? elements = some targets) :
    List.Forall₂ Node.Spells elements targets := by
  induction elements generalizing targets with
  | nil =>
    obtain rfl : [] = targets := by simpa [Node.elementTargets?] using htargets
    exact .nil
  | cons element rest ih =>
    rw [Node.elementTargets?] at htargets
    split at htargets
    · next target others htarget hothers =>
      obtain rfl := Option.some.inj htargets
      exact .cons ⟨_, htarget⟩ (ih hothers)
    · cases htargets

/-- So does each property of an object. -/
theorem spells_of_propertyTargets? {properties targets : List Node}
    (htargets : Node.propertyTargets? properties = some targets) :
    List.Forall₂ Node.Spells properties targets := by
  induction properties generalizing targets with
  | nil =>
    obtain rfl : [] = targets := by simpa [Node.propertyTargets?] using htargets
    exact .nil
  | cons property rest ih =>
    rw [Node.propertyTargets?] at htargets
    split at htargets
    · next target others htarget hothers =>
      obtain rfl := Option.some.inj htargets
      exact .cons ⟨_, htarget⟩ (ih hothers)
    · cases htargets

/-- How a target is made from an expression: it is the expression, it is what stands in parentheses
spells, or it stands over the same text, and each part of it is one of the expression or spelled by
one. -/
inductive Node.Retargets : Node → Node → Prop
  | same {node : Node} : Node.Retargets node node
  | inside {span : Span} {form : Form} {inner target : Node} (hspells : inner.Spells target) :
    Node.Retargets (.mk span form [inner]) target
  | rebuilt {span : Span} {form form' : Form} {parts targets : List Node} (hfree : form'.isFree = true)
      (hparts : List.Forall₂ (fun part target => target = part ∨ part.Spells target) parts targets) :
    Node.Retargets (.mk span form parts) (.mk span form' targets)

/-- **Targets.** Each target is made from the expression that spells it. -/
theorem Node.Spells.retargets {node target : Node} (h : node.Spells target) :
    node.Retargets target := by
  obtain ⟨span, form, parts⟩ := node
  obtain ⟨role, htarget⟩ := h
  have hsame {result : Node} (hresult : some (Node.mk span form parts) = some result) :
      Node.Retargets (.mk span form parts) result := Option.some.inj hresult ▸ .same
  have hkept : List.Forall₂ (fun part target => target = part ∨ part.Spells target) parts parts :=
    List.forall₂_same.mpr fun _ _ => .inl rfl
  have hall {targets : List Node} (hspells : List.Forall₂ Node.Spells parts targets) :
      List.Forall₂ (fun part target => target = part ∨ part.Spells target) parts targets :=
    hspells.imp fun _ _ => .inr
  unfold Node.toTargetAs? at htarget
  split at htarget
  · exact hsame htarget
  · exact hsame htarget
  · exact hsame htarget
  · split at htarget
    · exact hsame htarget
    · cases htarget
  · split at htarget
    · exact hsame htarget
    · cases htarget
  · split at htarget
    · cases htarget
    · exact .inside ⟨_, htarget⟩
  · obtain ⟨targets, htargets, rfl⟩ := Option.map_eq_some_iff.mp htarget
    exact .rebuilt rfl (hall (spells_of_elementTargets? htargets))
  · obtain ⟨targets, htargets, rfl⟩ := Option.map_eq_some_iff.mp htarget
    exact .rebuilt rfl (hall (spells_of_propertyTargets? htargets))
  · split at htarget
    · obtain rfl := Option.some.inj htarget
      exact .rebuilt rfl hkept
    · cases htarget
  · split at htarget
    · obtain ⟨inner, hinner, rfl⟩ := Option.map_eq_some_iff.mp htarget
      exact .rebuilt rfl (.cons (.inr ⟨_, hinner⟩) .nil)
    · split at htarget
      · cases htarget
      · obtain ⟨inner, hinner, rfl⟩ := Option.map_eq_some_iff.mp htarget
        exact .rebuilt rfl (.cons (.inr ⟨_, hinner⟩) .nil)
    · cases htarget
  · obtain ⟨inner, hinner, rfl⟩ := Option.map_eq_some_iff.mp htarget
    exact .rebuilt rfl (.cons (.inl rfl) (.cons (.inr ⟨_, hinner⟩) .nil))
  · obtain rfl := Option.some.inj htarget
    exact .rebuilt rfl hkept
  · obtain rfl := Option.some.inj htarget
    exact .rebuilt rfl hkept
  · cases htarget

/-- The target that an anchored expression spells is anchored. -/
theorem Node.Anchored.of_spells {node target : Node} (h : node.Anchored source)
    (hspells : node.Spells target) : target.Anchored source := by
  induction node using Node.induction generalizing target with
  | step span form parts ih =>
    have hparts : AllAnchored source parts := h.parts
    cases hspells.retargets with
    | same => exact h
    | inside hinner => exact ih _ (by simp) (hparts _ (by simp)) hinner
    | rebuilt hfree hmade =>
      refine h.reform hfree ?_
      -- Each part of the target comes from one part of the expression, in the same order.
      clear h hspells hfree
      induction hmade with
      | nil => exact AllAnchored.nil
      | @cons part target parts targets hpart hrest ihRest =>
        obtain ⟨hfirst, hothers⟩ := AllAnchored.cons_iff.mp hparts
        refine AllAnchored.cons_iff.mpr
          ⟨?_, ihRest (fun other hother => ih other (by simp [hother])) hothers⟩
        rcases hpart with rfl | hpart
        · exact hfirst
        · exact ih part (by simp) hfirst hpart

theorem Node.Anchored.toTarget {node target : Node} (h : node.Anchored source)
    (htarget : node.toTarget? = some target) : target.Anchored source :=
  h.of_spells ⟨_, htarget⟩

theorem Node.Anchored.toSimpleTarget {node target : Node} (h : node.Anchored source)
    (htarget : node.toSimpleTarget? = some target) : target.Anchored source := by
  unfold Node.toSimpleTarget? at htarget
  split at htarget
  · cases htarget
  · exact h.toTarget htarget

/-! ### Directives -/

theorem Node.Anchored.asDirective {statement directive : Node} (h : statement.Anchored source)
    (hdirective : asDirective? statement = some directive) : directive.Anchored source := by
  unfold asDirective? at hdirective
  split at hdirective
  · split at hdirective
    · obtain rfl := Option.some.inj hdirective
      exact h.reform rfl h.parts
    · cases hdirective
  · cases hdirective

/-- Strings at the beginning of a body may be turned into directives. -/
theorem anchored_withDirectives {statements : List Node} (h : AllAnchored source statements) :
    AllAnchored source (withDirectives statements) := by
  induction statements with
  | nil => exact AllAnchored.nil
  | cons statement rest ih =>
    obtain ⟨hstatement, hrest⟩ := AllAnchored.cons_iff.mp h
    rw [withDirectives]
    split
    · next directive hdirective =>
      exact AllAnchored.cons_iff.mpr ⟨hstatement.asDirective hdirective, ih hrest⟩
    · exact h

end ModuleLinkage.Syntax
