import ModuleLinkage.Proofs.Lowering.Standing
import ModuleLinkage.Proofs.SettledTexts
import ModuleLinkage.Proofs.Syntax.Anchoring.Programs

/-!
# What compiled text is to be run as

A program links modules (`LinksModules`) if an import, an export or a dynamic import stands in it,
where ambient namespaces are left aside and only a default is exported from inside of a namespace.
An assignment to all exports and a global name for a module link nothing. As the programs that link
modules are those with module items (`moduleItems_ne_nil_iff`), compilation calls its output a
module for what the source holds, and hands out a script only as the source it was given
(`tellsKind_compile`).
-/

set_option autoImplicit false

namespace ModuleLinkage

open Text Syntax Lowering

namespace Lowering

/-! ### Programs that link modules -/

/-- Whether a node of a form, perhaps inside of a namespace, links the module that it stands in with
others. -/
def linksForm (inNamespace : Bool) : Form → Bool
  | .importDeclaration _ | .exportAll _ | .exportDefault | .importCall => true
  | .exportDeclaration _ | .exportNames _ => !inNamespace
  | _ => false

/-- Whether a program holds, outside of ambient namespaces, anything that links it with other
modules. -/
def LinksModules (program : Node) : Prop :=
  ∃ node inside, Stands node false inside program ∧ linksForm inside node.form = true

variable {source : List Char} {inNamespace inside : Bool} {node root program : Node}

/-- What stands in an anchored tree is anchored. -/
theorem Stands.anchored (hstands : Stands node inNamespace inside root) (h : root.Anchored source) :
    node.Anchored source := by
  induction hstands with
  | self inNamespace => exact h
  | inside hform hpart hinner ih => exact ih (h.parts _ hpart)
  | member hform hpart hinner ih => exact ih (h.parts _ hpart)

/-- What is read behind `export` is one declaration or expression, so that the form of a node alone
tells whether it is rewritten. -/
theorem isModuleItem_eq_linksForm (h : node.Anchored source) :
    isModuleItem inside node = linksForm inside node.form := by
  have hshape := h.shape
  obtain ⟨span, form, parts⟩ := node
  cases form with
  | exportDeclaration typeOnly =>
    rcases parts with _ | ⟨declaration, _ | ⟨second, rest⟩⟩
    · exact hshape.elim
    · rfl
    · exact hshape.elim
  | exportDefault =>
    rcases parts with _ | ⟨inner, _ | ⟨second, rest⟩⟩
    · exact hshape.elim
    · rfl
    · exact hshape.elim
  | _ => rfl

/-- The programs that are rewritten are those that link modules. -/
theorem moduleItems_ne_nil_iff (h : program.Anchored source) :
    moduleItems program ≠ [] ↔ LinksModules program := by
  have hown {inside : Bool} {node : Node} {ambient : Bool}
      (hform : node.form = .namespaceDeclaration ambient) :
      (if isModuleItem inside node then [node] else []) = [] := by
    simp [isModuleItem, hform]
  constructor
  · intro hitems
    obtain ⟨item, hitem⟩ := List.exists_mem_of_ne_nil _ hitems
    obtain ⟨node, inside, hstands, hmem⟩ := (mem_collect_iff hown).mp hitem
    refine ⟨node, inside, hstands, ?_⟩
    rw [← isModuleItem_eq_linksForm (hstands.anchored h)]
    by_contra hplain
    simp [hplain] at hmem
  · rintro ⟨node, inside, hstands, hlinks⟩
    rw [← isModuleItem_eq_linksForm (hstands.anchored h)] at hlinks
    have hmem : node ∈ moduleItems program :=
      (mem_collect_iff hown).mpr ⟨node, inside, hstands, by simp [hlinks]⟩
    exact List.ne_nil_of_mem hmem

end Lowering

/-! ### One text -/

variable {options : CompileOptions} {text : List Char} {program : Node}

/-- What is read as a module is one, unless it links nothing and might have been a script. -/
theorem kind_lowerModule (hread : parse (options.settings true) text = .ok program) :
    (lowerModule options text program).kind = .module ↔
      (options.isUnambiguous = true → LinksModules program) := by
  rw [← moduleItems_ne_nil_iff (anchored_of_parse hread)]
  by_cases hitems : moduleItems program = []
  · rw [lowerModule_of_moduleItems_eq_nil options text hitems]
    cases options.isUnambiguous <;> simp [hitems]
  · refine iff_of_true ?_ fun _ => hitems
    unfold lowerModule
    simp [loweringEdits_eq_nil_iff, hitems]

/-- What is read as a module and links nothing stays as it is. -/
theorem code_lowerModule (hread : parse (options.settings true) text = .ok program)
    (hlinks : ¬ LinksModules program) : (lowerModule options text program).code = text := by
  rw [← moduleItems_ne_nil_iff (anchored_of_parse hread), not_not] at hlinks
  rw [lowerModule_of_moduleItems_eq_nil options text hlinks]

/-- The ways in which a text is compiled, or not. -/
inductive Compiles (options : CompileOptions) (text : List Char) :
    Except CompileError CompileOutput → Prop
  /-- As a script, at once or where the grammar of modules fails. -/
  | script {program : Node}
      (hfirst : options.wantsModule text = true → options.isUnambiguous = true ∧
        (parse (options.settings true) text).isOk = false)
      (hread : parse (options.settings false) text = .ok program) :
      Compiles options text (.ok ⟨text, .script⟩)
  /-- With the edits of its module declarations. -/
  | lowered {program : Node} (hgoal : options.wantsModule text = true)
      (hread : parse (options.settings true) text = .ok program) :
      Compiles options text (.ok (lowerModule options text program))
  /-- Not at all. -/
  | refused {offset : Nat}
      (hfirst : (parse (options.settings (options.wantsModule text)) text).isOk = false)
      (hscript : options.isUnambiguous = true →
        (parse (options.settings false) text).isOk = false) :
      Compiles options text (.error (.unreadable offset))

theorem compiles_compileText (options : CompileOptions) (text : List Char) :
    Compiles options text (compileText options text) := by
  unfold compileText
  cases hgoal : options.wantsModule text with
  | false =>
    rw [if_neg Bool.false_ne_true]
    cases hscript : parse (options.settings false) text with
    | ok program => exact .script (by simp [hgoal]) hscript
    | error offset => exact .refused (by rw [hgoal, hscript]; rfl) fun _ => by rw [hscript]; rfl
  | true =>
    rw [if_pos rfl]
    cases hmodule : parse (options.settings true) text with
    | ok program => exact .lowered hgoal hmodule
    | error offset =>
      dsimp only
      split
      · next hfree =>
        cases hscript : parse (options.settings false) text with
        | ok program => exact .script (fun _ => ⟨hfree, by rw [hmodule]; rfl⟩) hscript
        | error offset =>
          exact .refused (by rw [hgoal, hmodule]; rfl) fun _ => by rw [hscript]; rfl
      · next hfree =>
        exact .refused (by rw [hgoal, hmodule]; rfl) fun h => absurd h hfree

/-! ### What the kind says -/

/-- Whether the result of compiling a text tells what the text is. -/
structure TellsKind (options : CompileOptions) (text : List Char)
    (result : Except CompileError CompileOutput) : Prop where
  /-- A text that is to be a script is handed out as it is, and as a script. -/
  script : options.sourceGoal = .script → ∀ out, result = .ok out → out = ⟨text, .script⟩
  /-- A text that is to be a module is handed out as one. -/
  module : options.sourceGoal = .module → ∀ out, result = .ok out → out.kind = .module
  /-- Any other text is a module exactly if it has the words of one, is read as one and links modules. -/
  unambiguous : options.sourceGoal = .unambiguous →
    ((∃ code, result = .ok ⟨code, .module⟩) ↔ hasModuleSyntax text = true ∧
      ∃ program, parse (options.settings true) text = .ok program ∧ LinksModules program)
  /-- A script is the text itself, and so is what links nothing. -/
  unchanged : ∀ out, result = .ok out → (out.kind = .script ∨
    ∀ program, parse (options.settings (options.wantsModule text)) text = .ok program →
      ¬ LinksModules program) → out.code = text
  /-- A text is refused exactly if no grammar that is tried reads it. -/
  refused : (∃ offset, result = .error (.unreadable offset)) ↔
    (parse (options.settings (options.wantsModule text)) text).isOk = false ∧
      (options.sourceGoal = .unambiguous → hasModuleSyntax text = true →
        (parse (options.settings false) text).isOk = false)

theorem isUnambiguous_iff : options.isUnambiguous = true ↔ options.sourceGoal = .unambiguous := by
  simp [CompileOptions.isUnambiguous]

variable {result : Except CompileError CompileOutput}

theorem Compiles.exists_module_iff (h : Compiles options text result)
    (hgoal : options.sourceGoal = .unambiguous) :
    (∃ code, result = .ok ⟨code, .module⟩) ↔ options.wantsModule text = true ∧
      ∃ program, parse (options.settings true) text = .ok program ∧ LinksModules program := by
  cases h with
  | script hfirst hread =>
    refine iff_of_false (by simp) ?_
    rintro ⟨hwants, program, hmodule, -⟩
    have hfailed := (hfirst hwants).2
    rw [hmodule] at hfailed
    cases hfailed
  | @lowered program hwants hread =>
    have hkind := kind_lowerModule hread
    simp only [isUnambiguous_iff, hgoal, true_implies] at hkind
    constructor
    · rintro ⟨code, hcode⟩
      rw [Except.ok.inj hcode] at hkind
      exact ⟨hwants, program, hread, hkind.mp rfl⟩
    · rintro ⟨-, program', hread', hlinks⟩
      obtain rfl := Except.ok.inj (hread.symm.trans hread')
      refine ⟨(lowerModule options text program).code, ?_⟩
      rw [← hkind.mpr hlinks]
  | refused hfirst hscript =>
    refine iff_of_false (by simp) ?_
    rintro ⟨hwants, program, hmodule, -⟩
    rw [hwants, hmodule] at hfirst
    cases hfirst

theorem Compiles.code_eq (h : Compiles options text result) {out : CompileOutput}
    (hout : result = .ok out) (hplain : out.kind = .script ∨
      ∀ program, parse (options.settings (options.wantsModule text)) text = .ok program →
        ¬ LinksModules program) : out.code = text := by
  cases h with
  | script hfirst hread =>
    obtain rfl := Except.ok.inj hout
    rfl
  | @lowered program hwants hread =>
    obtain rfl := Except.ok.inj hout
    refine code_lowerModule hread ?_
    rcases hplain with hscript | hnone
    · intro hlinks
      rw [(kind_lowerModule hread).mpr fun _ => hlinks] at hscript
      cases hscript
    · exact hnone program (by rw [hwants, hread])
  | refused hfirst hscript => cases hout

theorem Compiles.exists_refused_iff (h : Compiles options text result) :
    (∃ offset, result = .error (.unreadable offset)) ↔
      (parse (options.settings (options.wantsModule text)) text).isOk = false ∧
        (options.sourceGoal = .unambiguous → options.wantsModule text = true →
          (parse (options.settings false) text).isOk = false) := by
  cases h with
  | script hfirst hread =>
    refine iff_of_false (by simp) ?_
    rintro ⟨hfailed, hscript⟩
    cases hwants : options.wantsModule text with
    | false =>
      rw [hwants, hread] at hfailed
      cases hfailed
    | true =>
      have hnone := hscript (isUnambiguous_iff.mp (hfirst hwants).1) hwants
      rw [hread] at hnone
      cases hnone
  | lowered hwants hread =>
    refine iff_of_false (by simp) ?_
    rintro ⟨hfailed, -⟩
    rw [hwants, hread] at hfailed
    cases hfailed
  | @refused offset hfirst hscript =>
    exact iff_of_true ⟨offset, rfl⟩ ⟨hfirst, fun hgoal _ => hscript (isUnambiguous_iff.mpr hgoal)⟩

/-- **What the kind says.** Whatever the source, the result of compiling it tells what the source is. -/
theorem tellsKind_compile (hvalid : options.validate = .ok ()) (source : List Char) :
    TellsKind options (withoutInterpreterLine source) (compile options source) := by
  rw [compile_of_validate hvalid]
  have hcompiles := compiles_compileText options (withoutInterpreterLine source)
  generalize withoutInterpreterLine source = text at hcompiles ⊢
  generalize compileText options text = result at hcompiles ⊢
  have hwants (hgoal : options.sourceGoal = .unambiguous) :
      options.wantsModule text = hasModuleSyntax text := by
    simp [CompileOptions.wantsModule, hgoal]
  refine ⟨fun hgoal out hout => ?_, fun hgoal out hout => ?_, fun hgoal => ?_,
    fun out hout hplain => hcompiles.code_eq hout hplain, ?_⟩
  · have hscript : options.wantsModule text = false := by
      simp [CompileOptions.wantsModule, hgoal]
    cases hcompiles with
    | script hfirst hread => exact (Except.ok.inj hout).symm
    | lowered hmodule hread =>
      rw [hscript] at hmodule
      cases hmodule
    | refused hfirst hscript => cases hout
  · have hmodule : options.wantsModule text = true := by
      simp [CompileOptions.wantsModule, hgoal]
    have hfixed : options.isUnambiguous = false := by
      simp [CompileOptions.isUnambiguous, hgoal]
    cases hcompiles with
    | script hfirst hread =>
      rw [hfixed] at hfirst
      cases (hfirst hmodule).1
    | lowered _ hread =>
      obtain rfl := Except.ok.inj hout
      exact (kind_lowerModule hread).mpr fun hfree => by rw [hfixed] at hfree; cases hfree
    | refused hfirst hscript => cases hout
  · rw [← hwants hgoal]
    exact hcompiles.exists_module_iff hgoal
  · rw [hcompiles.exists_refused_iff]
    exact and_congr_right fun _ => forall_congr' fun hgoal => by rw [hwants hgoal]

/-- A module that exports what it writes tells so by its words and by what stands in it. -/
theorem linksModules_writtenExport : CompileOptions.validate {} = .ok () ∧
    hasModuleSyntax writtenExport = true ∧
      ∃ program, parse ⟨false, false, true⟩ writtenExport = .ok program ∧ LinksModules program := by
  have htext : withoutInterpreterLine writtenExport = writtenExport := by decide
  have htells := tellsKind_compile (show CompileOptions.validate {} = .ok () by decide)
    writtenExport
  rw [htext] at htells
  exact ⟨by decide, (htells.unambiguous rfl).mp ⟨_, compile_writtenExport⟩⟩

end ModuleLinkage
