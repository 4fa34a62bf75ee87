import ModuleLinkage.Proofs.Lowering.Exports
import ModuleLinkage.Proofs.Lowering.Requests

/-!
# Where declarations stand

Imports and exports are found wherever they stand in a program (`Stands`), not only among its own
statements. What is found is then a matter of what stands where (`mem_collect_iff`): a program
registers what its declarations export (`mem_programExports_iff`), where in a namespace only a
default is exported, and it requests what its imports request (`mem_programRequests`).
-/

set_option autoImplicit false

namespace ModuleLinkage.Lowering

open Syntax Text

/-- A node stands in a tree, outside of ambient namespaces. The first truth value says whether a
namespace is around the tree, the second one whether one is around the node. -/
inductive Stands (node : Node) : Bool → Bool → Node → Prop
  | self (inNamespace : Bool) : Stands node inNamespace inNamespace node
  | inside {inNamespace around : Bool} {outer part : Node}
      (hform : ∀ ambient, outer.form ≠ .namespaceDeclaration ambient) (hpart : part ∈ outer.parts)
      (h : Stands node inNamespace around part) : Stands node inNamespace around outer
  | member {inNamespace around : Bool} {outer part : Node}
      (hform : outer.form = .namespaceDeclaration false) (hpart : part ∈ outer.parts)
      (h : Stands node true around part) : Stands node inNamespace around outer

/-- A part of a program stands in it. -/
theorem stands_of_mem_parts {program statement : Node} (hprogram : program.form = .program)
    (hmem : statement ∈ program.parts) : Stands statement false false program :=
  .inside (by simp [hprogram]) hmem (.self false)

/-- What occurs in a tree stands in it. -/
theorem exists_stands_of_occurs {node root : Node} (h : node.Occurs root) (inNamespace : Bool) :
    ∃ around, Stands node inNamespace around root := by
  induction h generalizing inNamespace with
  | self => exact ⟨inNamespace, .self inNamespace⟩
  | @inside outer part hform hpart _ ih =>
    by_cases hmember : outer.form = .namespaceDeclaration false
    · obtain ⟨around, hstands⟩ := ih true
      exact ⟨around, .member hmember hpart hstands⟩
    · obtain ⟨around, hstands⟩ := ih inNamespace
      refine ⟨around, .inside (fun ambient => ?_) hpart hstands⟩
      cases ambient with
      | true => exact hform
      | false => exact hmember

section Collecting

variable {α : Type} {own : Bool → Node → List α} {inNamespace : Bool} {item : α} {root : Node}

theorem exists_stands_of_mem_collect (hmem : item ∈ collect own inNamespace root) :
    ∃ node inside, Stands node inNamespace inside root ∧ item ∈ own inside node := by
  induction root using Node.induction generalizing inNamespace with
  | step span form parts ih =>
    unfold collect at hmem
    split at hmem
    · cases hmem
    · rw [listCollect_eq, List.mem_flatMap] at hmem
      obtain ⟨part, hpart, hmem⟩ := hmem
      obtain ⟨node, inside, hstands, hitem⟩ := ih part hpart hmem
      exact ⟨node, inside, .member rfl hpart hstands, hitem⟩
    · next hambient hplain =>
      rw [listCollect_eq, List.mem_append, List.mem_flatMap] at hmem
      rcases hmem with hmem | ⟨part, hpart, hmem⟩
      · exact ⟨_, inNamespace, .self inNamespace, hmem⟩
      · obtain ⟨node, inside, hstands, hitem⟩ := ih part hpart hmem
        refine ⟨node, inside, .inside (fun ambient hform => ?_) hpart hstands, hitem⟩
        cases ambient with
        | true => exact hambient hform
        | false => exact hplain hform

theorem mem_collect_of_stands
    (hown : ∀ {inside node ambient}, node.form = .namespaceDeclaration ambient → own inside node = [])
    {node : Node} {inside : Bool} (hstands : Stands node inNamespace inside root)
    (hitem : item ∈ own inside node) : item ∈ collect own inNamespace root := by
  induction hstands with
  | self inNamespace =>
    have hform (ambient : Bool) : node.form ≠ .namespaceDeclaration ambient := by
      intro hform
      rw [hown hform] at hitem
      cases hitem
    obtain ⟨inside, hcollect⟩ := exists_collect_eq own (hform true)
      (fun _ h => absurd h (hform false)) inNamespace
    rw [hcollect]
    exact List.mem_append_left _ hitem
  | @inside inNamespace around outer part hform hpart _ ih =>
    obtain ⟨span, form, parts⟩ := outer
    unfold collect
    split
    · exact absurd rfl (hform true)
    · exact absurd rfl (hform false)
    · rw [listCollect_eq]
      exact List.mem_append_right _ (List.mem_flatMap.mpr ⟨part, hpart, ih hitem⟩)
  | @member inNamespace around outer part hform hpart _ ih =>
    obtain ⟨span, form, parts⟩ := outer
    obtain rfl : form = .namespaceDeclaration false := hform
    rw [collect.eq_def]
    dsimp only
    rw [listCollect_eq]
    exact List.mem_flatMap.mpr ⟨part, hpart, ih hitem⟩

/-- **Anywhere.** What is collected is what the nodes give that stand in the tree. -/
theorem mem_collect_iff
    (hown : ∀ {inside node ambient}, node.form = .namespaceDeclaration ambient → own inside node = []) :
    item ∈ collect own inNamespace root ↔
      ∃ node inside, Stands node inNamespace inside root ∧ item ∈ own inside node := by
  constructor
  · exact exists_stands_of_mem_collect
  · rintro ⟨node, inside, hstands, hitem⟩
    exact mem_collect_of_stands hown hstands hitem

end Collecting

variable {subject : Subject}

/-- What is selected from what is found in a program. -/
theorem mem_programFindings_filterMap {α : Type} {select : Finding → Option α} {item : α}
    {program : Node} : item ∈ (programFindings subject program).filterMap select ↔
      ∃ node inside, Stands node false inside program ∧
        item ∈ (nodeFindings subject inside node).filterMap select := by
  rw [programFindings_filterMap]
  refine mem_collect_iff fun {inside node ambient} hform => ?_
  obtain ⟨span, form, parts⟩ := node
  obtain rfl : form = .namespaceDeclaration ambient := hform
  rfl

/-- In a namespace only a default is exported. -/
theorem exports_inside {node : Node} (hform : node.form ≠ .exportDefault) :
    (nodeFindings subject true node).filterMap Finding.export? = [] := by
  obtain ⟨span, form, parts⟩ := node
  cases form with
  | importDeclaration typeOnly =>
    cases typeOnly with
    | true => rfl
    | false => exact exports_demand id _
  | exportDeclaration typeOnly =>
    rcases parts with _ | ⟨declaration, _ | ⟨second, rest⟩⟩ <;> rfl
  | exportDefault => exact absurd rfl hform
  | exportAll typeOnly =>
    cases typeOnly with
    | true => rfl
    | false => exact exports_demand _ _
  | _ => rfl

/-- **Exports anywhere.** A program registers what its declarations export, wherever they stand. -/
theorem mem_programExports_iff {program : Node} {item : Export} :
    item ∈ programExports subject program ↔ ∃ statement inside,
      Stands statement false inside program ∧ (inside = true → statement.form = .exportDefault) ∧
        Exports subject statement item := by
  rw [programExports, mem_programFindings_filterMap]
  refine exists_congr fun statement => exists_congr fun inside => and_congr_right fun _ => ?_
  rw [← mem_ownExports_iff]
  cases inside with
  | false => simp [ownExports]
  | true =>
    by_cases hform : statement.form = .exportDefault
    · have hown : (nodeFindings subject true statement).filterMap Finding.export? =
          ownExports subject statement := by
        obtain ⟨span, form, parts⟩ := statement
        obtain rfl : form = .exportDefault := hform
        rfl
      rw [hown]
      exact (and_iff_right fun _ => hform).symm
    · rw [exports_inside hform]
      constructor
      · intro hmem
        cases hmem
      · exact fun h => absurd (h.1 rfl) hform

/-- The exported variables of a program are those that its declarations export. -/
theorem mem_exportedVariables_iff {program : Node} {target : String} :
    target ∈ exportedVariables subject program ↔ ∃ statement inside name,
      Stands statement false inside program ∧ (inside = true → statement.form = .exportDefault) ∧
        Exports subject statement ⟨name, target⟩ := by
  change target ∈ (programExports subject program).map Export.localName ↔ _
  simp only [List.mem_map, mem_programExports_iff]
  constructor
  · rintro ⟨item, ⟨statement, inside, hstands, hinside, hexports⟩, rfl⟩
    exact ⟨statement, inside, item.exported, hstands, hinside, hexports⟩
  · rintro ⟨statement, inside, name, hstands, hinside, hexports⟩
    exact ⟨⟨name, target⟩, ⟨statement, inside, hstands, hinside, hexports⟩, rfl⟩

/-- **Imports anywhere.** A program makes the request of each import that stands in it. -/
theorem mem_programRequests {program declaration : Node} {inside : Bool}
    (hstands : Stands declaration false inside program)
    (hform : declaration.form = .importDeclaration false) {request : Request}
    (hrequest : importRequest? declaration = some request) :
    request ∈ programRequests subject program := by
  refine mem_programFindings_filterMap.mpr ⟨declaration, inside, hstands, ?_⟩
  have hown : (nodeFindings subject inside declaration).filterMap Finding.request? =
      ownRequests subject declaration := by
    obtain ⟨span, form, parts⟩ := declaration
    obtain rfl : form = .importDeclaration false := hform
    rfl
  rw [hown, ownRequests_eq, statementRequest?, hform, Option.mem_toList]
  exact hrequest

end ModuleLinkage.Lowering
