import ModuleLinkage.Proofs.Lowering.Preservation
import ModuleLinkage.Proofs.Scope.Resolution

/-!
# Writes to shadowing variables

The pass over writes carries the names that the constructs around an expression take for bound
(`exists_wraps_of_reaches`). So a write is left alone if each exported name that it assigns means
something that a function, a list of parameters, a block, a loop, a switch or a catch clause around
binds (`loweringEdits_shadowed`). For classes and static blocks the pass takes no names, so a write
to a variable of one of these is taken for a write to the export of that name
(`staticWrite_wrapped`).
-/

set_option autoImplicit false

namespace ModuleLinkage.Lowering

open Syntax Text
open Scope (Reaches Frame Resolves Binds scopesAt framesAround)

variable {subject : Subject} {program node target : Node} {steps : List (Node × Node)}

/-- The pass comes to every node with the names that the constructs around it take for bound. -/
theorem exists_wraps_of_reaches (subject : Subject) (hreaches : Reaches program steps node) :
    ∃ before shadowed after,
      loweringEdits subject program = before ++
        wraps subject.reference (exportedVariables subject program) shadowed node ++ after ∧
      ∀ name, name ∈ shadowed ↔ ∃ step ∈ steps, name ∈ Scope.scopeNames step.1 := by
  induction hreaches with
  | root =>
    obtain ⟨before, after, hedits⟩ := exists_loweringEdits subject program
    exact ⟨before, [], after, hedits, by simp⟩
  | @step steps node part _ hpart hambient ih =>
    obtain ⟨before, shadowed, after, hedits, hshadowed⟩ := ih
    obtain ⟨first, last, hparts⟩ := List.append_of_mem hpart
    let record :=
      wraps subject.reference (exportedVariables subject program) (Scope.scopeNames node ++ shadowed)
    have hnode : wraps subject.reference (exportedVariables subject program) shadowed node =
        first.flatMap record ++ (record part ++ last.flatMap record) ++
          ownWraps subject.reference (exportedVariables subject program) shadowed node := by
      rw [wraps_eq hambient, listWraps_eq, hparts, List.flatMap_append, List.flatMap_cons]
    refine ⟨before ++ first.flatMap record, Scope.scopeNames node ++ shadowed, last.flatMap record ++
      (ownWraps subject.reference (exportedVariables subject program) shadowed node ++ after),
      ?_, fun name => ?_⟩
    · rw [hedits, hnode]
      simp only [record, List.append_assoc]
    · rw [List.mem_append, hshadowed]
      simp

/-- What a scope around binds, other than that of a class, a construct around takes for bound. -/
theorem exists_step_of_binds {name : String} {frame : Frame} (hframe : frame ∈ framesAround steps)
    (hbinds : Binds name frame.node frame.kind) (hclass : frame.kind.isOfClass = false) :
    ∃ step ∈ steps, name ∈ Scope.scopeNames step.1 := by
  obtain ⟨⟨outer, part⟩, hstep, hopened⟩ := List.mem_flatMap.mp hframe
  obtain ⟨kind, hkind, rfl⟩ := List.mem_map.mp hopened
  exact ⟨(outer, part), hstep, Scope.mem_scopeNames_of_binds hkind hbinds hclass⟩

/-- **Writes to shadowing variables.** For every write of a program that stands in no ambient
namespace, the pass records the insertions for its parts and then `own`, which is empty or wraps the
write. It is empty if each exported name that is written means what a scope around binds that is
neither that of a class nor a static block. So where the write is wrapped, the scopes around that
bind one of these names are all of classes, and it is wrapped if the constructs around take that
name for bound nowhere. The names written are the variables assigned, unless the type of one is
changed. -/
theorem loweringEdits_shadowed (hreaches : Reaches program steps node)
    (htarget : Scope.writeTarget? node = some target) :
    ∃ before shadowed own after,
      loweringEdits subject program = before ++
        (listWraps subject.reference (exportedVariables subject program) shadowed node.parts ++
          own) ++ after ∧
      (own = [] ∨ own = wrapping subject.reference node.span) ∧
      ((∀ name ∈ Scope.targetNames target, name ∈ exportedVariables subject program →
        ∃ kind, Resolves name (framesAround steps) kind ∧ kind.isOfClass = false) → own = []) ∧
      (own ≠ [] → ∃ name ∈ Scope.targetNames target, name ∈ exportedVariables subject program ∧
        ∀ frame ∈ framesAround steps, Binds name frame.node frame.kind → frame.kind.isOfClass = true) ∧
      ((∃ name ∈ Scope.targetNames target, name ∈ exportedVariables subject program ∧
        ∀ step ∈ steps, name ∉ Scope.scopeNames step.1) → own = wrapping subject.reference node.span) ∧
      (Scope.changesType target = false → Scope.targetNames target = Scope.assignedNames target) := by
  obtain ⟨before, shadowed, after, hedits, hshadowed⟩ := exists_wraps_of_reaches subject hreaches
  have hforms := Scope.form_of_writeTarget? htarget
  have hown : ownWraps subject.reference (exportedVariables subject program) shadowed node = [] ↔
      ∀ name ∈ Scope.targetNames target, name ∈ exportedVariables subject program →
        ∃ step ∈ steps, name ∈ Scope.scopeNames step.1 := by
    rw [ownWraps_eq_nil_iff, Scope.writtenNames_of_writeTarget? htarget]
    simp only [hshadowed]
  have hcases : ownWraps subject.reference (exportedVariables subject program) shadowed node = [] ∨
      ownWraps subject.reference (exportedVariables subject program) shadowed node =
        wrapping subject.reference node.span := by
    unfold ownWraps
    split
    · exact .inr rfl
    · exact .inl rfl
  refine ⟨before, shadowed,
    ownWraps subject.reference (exportedVariables subject program) shadowed node, after,
    ?_, hcases, ?_, ?_, ?_, Scope.targetNames_eq_assignedNames target⟩
  · rw [hedits, wraps_eq hforms.2.2, Scope.scopeNames_of_writeTarget? htarget, List.nil_append]
  · intro hresolves
    refine hown.mpr fun name hname hexported => ?_
    obtain ⟨kind, hresolves, hclass⟩ := hresolves name hname hexported
    obtain ⟨frame, hframe, rfl, hbinds⟩ := hresolves.exists_frame
    exact exists_step_of_binds hframe hbinds hclass
  · intro hwrapped
    rw [Ne, hown] at hwrapped
    push Not at hwrapped
    obtain ⟨name, hname, hexported, hfree⟩ := hwrapped
    refine ⟨name, hname, hexported, fun frame hframe hbinds => ?_⟩
    by_contra hclass
    obtain ⟨step, hstep, htaken⟩ := exists_step_of_binds hframe hbinds (by simpa using hclass)
    exact hfree step hstep htaken
  · rintro ⟨name, hname, hexported, hfree⟩
    refine hcases.resolve_left fun hnone => ?_
    obtain ⟨step, hstep, htaken⟩ := hown.mp hnone name hname hexported
    exact hfree step hstep htaken

/-! ### A block and a static block -/

/-- Whether a program writes just `name` in a scope of one kind, innermost around the write, among
the `names` of which it is. -/
def writesIn (kind : Scope.ScopeKind) (names : Node → List String) (name : String) (program : Node) : Bool :=
  (Scope.reachedFrom [] program).any fun (steps, node) =>
    match Scope.writeTarget? node, framesAround steps with
    | some target, frame :: _ =>
      Scope.targetNames target == [name] && frame.kind == kind && (names frame.node).contains name
    | _, _ => false

theorem exists_of_writesIn {kind : Scope.ScopeKind} {names : Node → List String} {name : String}
    (hnames : ∀ node, name ∈ names node → Binds name node kind)
    (h : writesIn kind names name program = true) :
    ∃ steps node target, Reaches program steps node ∧ Scope.writeTarget? node = some target ∧
      Scope.targetNames target = [name] ∧ Resolves name (framesAround steps) kind := by
  obtain ⟨⟨steps, node⟩, hmem, hwrite⟩ := List.any_eq_true.mp h
  have hreaches := Scope.reaches_of_mem .root hmem
  dsimp only at hwrite
  split at hwrite
  · next target frame outer htarget hframes =>
    simp only [Bool.and_eq_true, beq_iff_eq, List.contains_iff_mem] at hwrite
    obtain ⟨⟨htargets, rfl⟩, hname⟩ := hwrite
    exact ⟨steps, node, target, hreaches, htarget, htargets, hframes ▸ .here (hnames _ hname)⟩
  · cases hwrite

/-- A module that writes a variable of a block that has the name of its export. -/
def blockWrite : List Char :=
  "export let x = 0; \x7b let x; x++; \x7d".toList

/-- The write in the block is left alone. -/
theorem loweringEdits_blockWrite :
    ∃ program steps node target, parse ⟨false, false, true⟩ blockWrite = .ok program ∧
      Reaches program steps node ∧ Scope.writeTarget? node = some target ∧ Scope.targetNames target = ["x"] ∧
      "x" ∈ exportedVariables ⟨blockWrite, "module"⟩ program ∧ Resolves "x" (framesAround steps) .block ∧
      ∃ before shadowed after, loweringEdits ⟨blockWrite, "module"⟩ program = before ++
        listWraps "module" (exportedVariables ⟨blockWrite, "module"⟩ program) shadowed node.parts ++
          after := by
  have hprogram : ((parse ⟨false, false, true⟩ blockWrite).toOption.any fun program =>
      (exportedVariables ⟨blockWrite, "module"⟩ program).contains "x" &&
        writesIn .block (fun node => Scope.blockNames node.parts) "x" program) = true := by
    decide +kernel
  obtain ⟨program, hparse, hprogram⟩ := exists_of_any hprogram
  obtain ⟨hexported, hwrites⟩ := Bool.and_eq_true_iff.mp hprogram
  have hblock (node : Node) (hname : "x" ∈ Scope.blockNames node.parts) : Binds "x" node .block := by
    obtain ⟨statement, hmem, hdeclares⟩ := Scope.mem_blockNames_iff.mp hname
    exact .block hmem hdeclares
  obtain ⟨steps, node, target, hreaches, htarget, htargets, hresolves⟩ := exists_of_writesIn hblock hwrites
  obtain ⟨before, shadowed, own, after, hedits, -, hlocal, -⟩ :=
    @loweringEdits_shadowed ⟨blockWrite, "module"⟩ _ _ _ _ hreaches htarget
  have hnone : own = [] := by
    refine hlocal fun name hname _ => ⟨.block, ?_, rfl⟩
    rw [htargets] at hname
    rwa [List.mem_singleton.mp hname]
  refine ⟨program, steps, node, target, hparse, hreaches, htarget, htargets,
    List.contains_iff_mem.mp hexported,
    hresolves, before, shadowed, after, ?_⟩
  rw [hedits, hnone, List.append_nil]

/-- A module that writes a variable of a static block that has the name of its export. -/
def staticWrite : List Char :=
  "export let x = 0; class A \x7b static \x7b let x = 1; x = 2; \x7d \x7d".toList

/-- The write in the static block is wrapped, though the variable that it writes is that of the
block. -/
theorem staticWrite_wrapped :
    (∃ program steps node target, parse ⟨false, false, true⟩ staticWrite = .ok program ∧
      Reaches program steps node ∧ Scope.writeTarget? node = some target ∧ Scope.targetNames target = ["x"] ∧
      "x" ∈ exportedVariables ⟨staticWrite, "module"⟩ program ∧
      Resolves "x" (framesAround steps) .staticBlock) ∧
    compile { sourceGoal := .module } staticWrite =
      .ok ⟨("module.export(\x7bx:()=>x\x7d);let x = 0; class A \x7b static \x7b let x = 1; " ++
        "module.runSetters(x = 2); \x7d \x7d").toList, .module⟩ := by
  have hprogram : ((parse ⟨false, false, true⟩ staticWrite).toOption.any fun program =>
      (exportedVariables ⟨staticWrite, "module"⟩ program).contains "x" &&
        writesIn .staticBlock (fun node => Scope.functionNames node.parts) "x" program) = true := by
    decide +kernel
  refine ⟨?_, ?_⟩
  · obtain ⟨program, hparse, hprogram⟩ := exists_of_any hprogram
    obtain ⟨hexported, hwrites⟩ := Bool.and_eq_true_iff.mp hprogram
    obtain ⟨steps, node, target, hreaches, htarget, htargets, hresolves⟩ :=
      exists_of_writesIn (fun node hname => .staticBlock (Scope.mem_functionNames_iff.mp hname)) hwrites
    exact ⟨program, steps, node, target, hparse, hreaches, htarget, htargets,
      List.contains_iff_mem.mp hexported,
      hresolves⟩
  · unfold compile compileText lowerModule
    simp only [EditList.render_recordAll_ofSource]
    decide +kernel

end ModuleLinkage.Lowering
