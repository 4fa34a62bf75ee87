import ModuleLinkage.Proofs.Lowering.Changes

/-!
# Texts that compilation leaves alone

Compilation leaves a text alone if nothing in it is to be rewritten (`IsSettled`): the grammar that
the options choose for the text reads it, and where that is the grammar of modules, the program has
no module items. What is compiled is left alone, or it has module items
(`settled_or_hasModuleItems`).
-/

set_option autoImplicit false

namespace ModuleLinkage

open Text Syntax Lowering

namespace Lowering

/-! ### Module items -/

/-- Whether a node is one of those that are rewritten: module declarations, where an `export` inside
a namespace makes a member, and dynamic imports. -/
def isModuleItem (inNamespace : Bool) (node : Node) : Bool :=
  match node.form, node.parts with
  | .importDeclaration _, _ | .exportAll _, _ | .importCall, _ => true
  | .exportNames _, _ => !inNamespace
  | .exportDeclaration _, [_] => !inNamespace
  | .exportDefault, [_] => true
  | _, _ => false

/-- The module items of a program, in source order. -/
def moduleItems (program : Node) : List Node :=
  collect (fun inside node => if isModuleItem inside node then [node] else []) false program

section Emptiness

variable {α β : Type} {own : Bool → Node → List α} {other : Bool → Node → List β}

/-- Nothing is collected from the same trees if nothing is collected from the same nodes. -/
theorem collect_eq_nil_congr
    (hown : ∀ inside node, own inside node = [] ↔ other inside node = [])
    (inNamespace : Bool) (node : Node) :
    collect own inNamespace node = [] ↔ collect other inNamespace node = [] := by
  induction node using Node.induction generalizing inNamespace with
  | step span form parts ih =>
    have hparts (inside : Bool) :
        listCollect own inside parts = [] ↔ listCollect other inside parts = [] := by
      rw [listCollect_eq, listCollect_eq, List.flatMap_eq_nil_iff, List.flatMap_eq_nil_iff]
      exact forall₂_congr fun part hpart => ih part hpart inside
    unfold collect
    split
    · exact iff_of_true rfl rfl
    · exact hparts true
    · rw [List.append_eq_nil_iff, List.append_eq_nil_iff, hown, hparts]

end Emptiness

/-- The module items are the nodes that the first pass has edits for. -/
theorem edits_nodeFindings_eq_nil_iff (subject : Subject) (inNamespace : Bool) (node : Node) :
    (nodeFindings subject inNamespace node).filterMap Finding.edit? = [] ↔
      isModuleItem inNamespace node = false := by
  rw [edits_nodeFindings, List.append_eq_nil_iff]
  obtain ⟨span, form, parts⟩ := node
  cases form with
  | exportDeclaration typeOnly =>
    rcases parts with _ | ⟨declaration, _ | ⟨second, rest⟩⟩ <;>
      cases inNamespace <;> simp [ownChanges, ownNames, isModuleItem]
  | exportNames typeOnly => cases inNamespace <;> simp [ownChanges, ownNames, isModuleItem]
  | exportDefault =>
    rcases parts with _ | ⟨inner, _ | ⟨second, rest⟩⟩
    · simp [ownChanges, ownNames, isModuleItem]
    · by_cases hdeclared : inner.isDeclared = true <;>
        simp [ownChanges, hdeclared, isModuleItem]
    · simp [ownChanges, ownNames, isModuleItem]
  | _ => simp [ownChanges, ownNames, isModuleItem]

/-- The first pass changes exactly the programs that have module items. -/
theorem filterMap_edit_eq_nil_iff (subject : Subject) (program : Node) :
    (programFindings subject program).filterMap Finding.edit? = [] ↔ moduleItems program = [] := by
  unfold programFindings moduleItems
  rw [findings_eq_collect, List.filterMap_eq_flatMap_toList, collect_flatMap]
  refine collect_eq_nil_congr (fun inside node => ?_) _ _
  rw [← List.filterMap_eq_flatMap_toList, edits_nodeFindings_eq_nil_iff]
  split <;> simp_all

/-- A program is changed exactly if it has module items: without them, writes stay unwrapped and
nothing is put ahead. -/
theorem loweringEdits_eq_nil_iff (subject : Subject) (program : Node) :
    loweringEdits subject program = [] ↔ moduleItems program = [] := by
  rw [← filterMap_edit_eq_nil_iff subject]
  unfold loweringEdits
  simp only [List.isEmpty_iff]
  split
  · next hnil => exact iff_of_true rfl hnil
  · next hedits => simp [hedits]

end Lowering

/-! ### Settled texts -/

/-- A text that compilation has nothing to do in, and what it is to be run as. -/
inductive IsSettled (options : CompileOptions) (text : List Char) : SourceKind → Prop
  /-- A script. -/
  | script (hgoal : options.wantsModule text = false)
      (hread : (parse (options.settings false) text).isOk = true) : IsSettled options text .script
  /-- A program without module items that is read as a module. -/
  | module (hgoal : options.wantsModule text = true) {program : Node}
      (hread : parse (options.settings true) text = .ok program)
      (hitems : moduleItems program = []) :
      IsSettled options text (if options.isUnambiguous then .script else .module)
  /-- No module after all. -/
  | fallback (hgoal : options.wantsModule text = true) (hfree : options.isUnambiguous = true)
      (hmodule : (parse (options.settings true) text).isOk = false)
      (hread : (parse (options.settings false) text).isOk = true) : IsSettled options text .script

theorem lowerModule_of_moduleItems_eq_nil (options : CompileOptions) (text : List Char)
    {program : Node} (hitems : moduleItems program = []) :
    lowerModule options text program =
      ⟨text, if options.isUnambiguous then .script else .module⟩ := by
  unfold lowerModule
  simp only [(loweringEdits_eq_nil_iff _ _).mpr hitems]
  simp [EditList.recordAll]

theorem compile_of_validate {options : CompileOptions} (hvalid : options.validate = .ok ())
    (source : List Char) :
    compile options source = compileText options (withoutInterpreterLine source) := by
  simp [compile, hvalid]

theorem validate_of_compile {options : CompileOptions} {source : List Char} {out : CompileOutput}
    (hcompile : compile options source = .ok out) : options.validate = .ok () := by
  unfold compile at hcompile
  split at hcompile
  · assumption
  · cases hcompile
  · cases hcompile

/-! ### A module that is compiled -/

/-- A module that exports a variable and writes it. -/
def writtenExport : List Char :=
  "export let x = 0; x = 1;".toList

/-- Its compiled text, which is a script. -/
def writtenExportCompiled : List Char :=
  "module.export(\x7bx:()=>x\x7d);let x = 0; module.runSetters(x = 1);".toList

theorem compile_writtenExport :
    compile {} writtenExport = .ok ⟨writtenExportCompiled, .module⟩ := by
  unfold compile compileText lowerModule
  simp only [EditList.render_recordAll_ofSource]
  decide +kernel

end ModuleLinkage
