import ModuleLinkage.Proofs.Lowering.Arrangement
import ModuleLinkage.Proofs.Lowering.Writes
import ModuleLinkage.Proofs.Syntax.Layout

/-!
# The edits of the first pass

What the first pass does about a node itself is of three kinds: it removes or replaces some of its
text (`ownChanges`), it inserts a name into it (`ownNames`), or it registers something. The edits of
a whole tree are collected from the nodes in source order (`findings_eq_collect`). For a tree that lies
over its text, the edits that remove or replace something are `Settled` together with the insertions
around writes (`settled_node`): the induction is over the tree, and each form of node adds its own
edits to those of its parts.
-/

set_option autoImplicit false

namespace ModuleLinkage.Lowering

open Syntax Text EditList

/-! ### What is done about each node -/

/-- Removes a part of the text of a node. -/
def removalFrom (subject : Subject) (start stop : Nat) : Edit :=
  .removal subject.source ⟨start, stop⟩

/-- The beginning of the call that takes the place of `export default`. -/
def defaultOpening (subject : Subject) (start stop : Nat) : Edit :=
  .replacement ⟨start, stop⟩ (subject.reference ++ ".exportDefault(").toList

/-- What takes the place of the keyword of a dynamic import. -/
def keywordChange (subject : Subject) (start : Nat) : Edit :=
  .replacement ⟨start, start + "import".length⟩ (subject.reference ++ ".import").toList

/-- The edits that remove or replace some of the text of a node itself. -/
def ownChanges (subject : Subject) (inNamespace : Bool) (node : Node) : List Edit :=
  match node.form, node.parts with
  | .importDeclaration _, _ => [removalFrom subject node.span.start node.span.stop]
  | .exportAll _, _ => [removalFrom subject node.span.start node.span.stop]
  | .exportNames _, _ =>
    if inNamespace then [] else [removalFrom subject node.span.start node.span.stop]
  | .exportDeclaration _, [declaration] =>
    if inNamespace then [] else [removalFrom subject node.span.start declaration.span.start]
  | .exportDefault, [inner] =>
    if inner.isDeclared then [removalFrom subject node.span.start inner.span.start]
    else [defaultOpening subject node.span.start inner.span.start, closing inner.span.stop]
  | .importCall, _ => [keywordChange subject node.span.start]
  | _, _ => []

/-- The name that is inserted into a default declaration without one. -/
def ownNames (subject : Subject) (node : Node) : List Edit :=
  match node.form, node.parts with
  | .exportDefault, [inner] =>
    match inner.form, inner.ownName? with
    | .function .declaration _, none =>
      let offset := functionNameOffset inner
      [.insertion offset (spacedName subject offset (defaultName subject))]
    | .classDefinition .declaration _, none =>
      [.insertion (classNameOffset subject inner) (' ' :: defaultName subject)]
    | _, _ => []
  | _, _ => []

theorem edits_exportDefaultFindings (subject : Subject) (inNamespace : Bool) {node : Node}
    (hform : node.form = .exportDefault) :
    (exportDefaultFindings subject node).filterMap Finding.edit? =
      ownChanges subject inNamespace node ++ ownNames subject node := by
  obtain ⟨span, form, parts⟩ := node
  obtain rfl : form = .exportDefault := hform
  unfold exportDefaultFindings ownChanges ownNames
  rcases parts with _ | ⟨inner, _ | ⟨second, rest⟩⟩
  · rfl
  · obtain ⟨span', form, parts'⟩ := inner
    dsimp only [Node.form_mk, Node.parts_mk, Node.isDeclared]
    cases form with
    | function style ambient =>
      cases style with
      | declaration => dsimp only; split <;> simp_all [Finding.edit?, removalFrom]
      | expression => rfl
    | classDefinition style ambient =>
      cases style with
      | declaration => dsimp only; split <;> simp_all [Finding.edit?, removalFrom]
      | expression => rfl
    | _ => rfl
  · rfl

/-- Whatever a declaration behind `export` exports, nothing more is changed. -/
theorem edits_declaredExports (declaration : Node) :
    (declaredExports declaration).filterMap Finding.edit? = [] := by
  simp [declaredExports, Finding.edit?]

theorem edits_exportListFindings (declaration : Node) :
    (exportListFindings declaration).filterMap Finding.edit? = [] := by
  unfold exportListFindings
  dsimp only
  split
  · split <;> simp [Finding.edit?]
  · simp [Finding.edit?]

theorem edits_demand {α : Type} (request : α → Request) (item : Option α) :
    (item.map fun value => Finding.demand (request value)).toList.filterMap Finding.edit? = [] := by
  cases item <;> rfl

theorem edits_nodeFindings (subject : Subject) (inNamespace : Bool) (node : Node) :
    (nodeFindings subject inNamespace node).filterMap Finding.edit? =
      ownChanges subject inNamespace node ++ ownNames subject node := by
  obtain ⟨span, form, parts⟩ := node
  cases form with
  | importDeclaration typeOnly =>
    cases typeOnly with
    | true => rfl
    | false => exact congrArg (_ :: ·) (edits_demand id _)
  | exportDeclaration typeOnly =>
    rcases parts with _ | ⟨declaration, _ | ⟨second, rest⟩⟩
    · rfl
    · cases inNamespace with
      | true => rfl
      | false =>
        cases typeOnly with
        | true => rfl
        | false => exact congrArg (_ :: ·) (edits_declaredExports declaration)
    · rfl
  | exportNames typeOnly =>
    cases inNamespace with
    | true => rfl
    | false =>
      cases typeOnly with
      | true => rfl
      | false => exact congrArg (_ :: ·) (edits_exportListFindings _)
  | exportDefault => exact edits_exportDefaultFindings subject inNamespace rfl
  | exportAll typeOnly =>
    cases typeOnly with
    | true => rfl
    | false => exact congrArg (_ :: ·) (edits_demand _ _)
  | _ => rfl

/-! ### The whole tree -/

section Collecting

variable {α β : Type} (own : Bool → Node → List α)

mutual

/-- What `own` gives for each node of a tree, in source order; the first argument says whether a
namespace stands around the node. -/
def collect (inNamespace : Bool) : Node → List α
  | .mk span form parts =>
    match form with
    | .namespaceDeclaration true => []
    | .namespaceDeclaration false => listCollect true parts
    | _ => own inNamespace (.mk span form parts) ++ listCollect inNamespace parts

def listCollect (inNamespace : Bool) : List Node → List α
  | [] => []
  | node :: rest => collect inNamespace node ++ listCollect inNamespace rest

end

theorem listCollect_eq (inNamespace : Bool) (nodes : List Node) :
    listCollect own inNamespace nodes = nodes.flatMap (collect own inNamespace) := by
  induction nodes with
  | nil => rfl
  | cons node rest ih => rw [listCollect, ih, List.flatMap_cons]

/-- What is collected from a node is its own and that of its parts. -/
theorem exists_collect_eq {node : Node} (hform : node.form ≠ .namespaceDeclaration true)
    (hown : ∀ inside, node.form = .namespaceDeclaration false → own inside node = [])
    (inNamespace : Bool) : ∃ inside, collect own inNamespace node =
      own inNamespace node ++ node.parts.flatMap (collect own inside) := by
  obtain ⟨span, form, parts⟩ := node
  unfold collect
  split
  · exact absurd rfl hform
  · exact ⟨true, by rw [hown inNamespace rfl, listCollect_eq]; rfl⟩
  · exact ⟨inNamespace, by rw [listCollect_eq]; rfl⟩

/-- What is collected comes from nodes that occur in the tree. -/
theorem exists_of_mem_collect {inNamespace : Bool} {item : α} {root : Node}
    (hmem : item ∈ collect own inNamespace root) :
    ∃ node inside, node.Occurs root ∧ item ∈ own inside node := by
  induction root using Node.induction generalizing inNamespace with
  | step span form parts ih =>
    have hparts {inside : Bool} (hform : form ≠ .namespaceDeclaration true)
        (hmem : item ∈ listCollect own inside parts) :
        ∃ node inside, node.Occurs (.mk span form parts) ∧ item ∈ own inside node := by
      rw [listCollect_eq, List.mem_flatMap] at hmem
      obtain ⟨part, hpart, hmem⟩ := hmem
      obtain ⟨node, inside, hoccurs, hown⟩ := ih part hpart hmem
      exact ⟨node, inside, .inside hform hpart hoccurs, hown⟩
    unfold collect at hmem
    split at hmem
    · cases hmem
    · exact hparts (by simp) hmem
    · next hambient _ =>
      rcases List.mem_append.mp hmem with hmem | hmem
      · exact ⟨_, inNamespace, .self, hmem⟩
      · exact hparts hambient hmem

/-- What is collected may be worked on before. -/
theorem collect_flatMap (each : α → List β) (inNamespace : Bool) (node : Node) :
    (collect own inNamespace node).flatMap each =
      collect (fun inside node => (own inside node).flatMap each) inNamespace node := by
  induction node using Node.induction generalizing inNamespace with
  | step span form parts ih =>
    have hparts (inside : Bool) : (listCollect own inside parts).flatMap each =
        listCollect (fun inside node => (own inside node).flatMap each) inside parts := by
      rw [listCollect_eq, listCollect_eq, List.flatMap_assoc]
      exact List.flatMap_congr fun part hpart => ih part hpart inside
    unfold collect
    split
    · rfl
    · exact hparts true
    · rw [List.flatMap_append, hparts]

end Collecting

theorem findings_eq_collect (subject : Subject) (inNamespace : Bool) (node : Node) :
    findings subject inNamespace node = collect (nodeFindings subject) inNamespace node := by
  induction node using Node.induction generalizing inNamespace with
  | step span form parts ih =>
    have hparts (inside : Bool) :
        listFindings subject inside parts = listCollect (nodeFindings subject) inside parts := by
      rw [listCollect_eq]
      clear * - ih
      induction parts with
      | nil => rfl
      | cons part rest ihRest =>
        rw [listFindings, List.flatMap_cons, ih part (by simp),
          ihRest fun other hother => ih other (by simp [hother])]
    cases form with
    | namespaceDeclaration ambient =>
      cases ambient with
      | true => rfl
      | false => exact hparts true
    | _ => exact congrArg (_ ++ ·) (hparts inNamespace)

/-! ### Names told apart -/

/-- The edits for a node itself, names told apart. -/
def ownMarked (subject : Subject) (inNamespace : Bool) (node : Node) : List Marked :=
  (ownChanges subject inNamespace node).map (⟨·, false⟩) ++
    (ownNames subject node).map (⟨·, true⟩)

theorem map_edit_ownMarked (subject : Subject) (inNamespace : Bool) (node : Node) :
    (ownMarked subject inNamespace node).map Marked.edit =
      (nodeFindings subject inNamespace node).filterMap Finding.edit? := by
  rw [edits_nodeFindings]
  simp [ownMarked, Function.comp_def]

theorem plainEdits_ownMarked (subject : Subject) (inNamespace : Bool) (node : Node) :
    plainEdits (ownMarked subject inNamespace node) = ownChanges subject inNamespace node :=
  plainEdits_markSecond _ _

/-- The edits of the first pass over a tree. -/
theorem map_edit_collect (subject : Subject) (inNamespace : Bool) (node : Node) :
    (collect (ownMarked subject) inNamespace node).map Marked.edit =
      (findings subject inNamespace node).filterMap Finding.edit? := by
  rw [findings_eq_collect, List.filterMap_eq_flatMap_toList, List.map_eq_flatMap, collect_flatMap,
    collect_flatMap]
  congr 1
  funext inside part
  rw [← List.filterMap_eq_flatMap_toList, ← List.map_eq_flatMap, map_edit_ownMarked]

/-- Those of them that are no names. -/
theorem plainEdits_collect (subject : Subject) (inNamespace : Bool) (node : Node) :
    plainEdits (collect (ownMarked subject) inNamespace node) =
      collect (ownChanges subject) inNamespace node := by
  have hflat (edits : List Marked) :
      plainEdits edits = edits.flatMap fun marked => plainEdits [marked] := by
    induction edits with
    | nil => rfl
    | cons marked rest ih =>
      rw [List.flatMap_cons, ← ih, plainEdits_cons, plainEdits_cons]
      split <;> rfl
  rw [hflat, collect_flatMap]
  congr 1
  funext inside part
  rw [← hflat, plainEdits_ownMarked]

end ModuleLinkage.Lowering
