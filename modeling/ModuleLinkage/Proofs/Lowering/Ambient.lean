import ModuleLinkage.Proofs.Lowering.Emptied
import ModuleLinkage.Proofs.Lowering.Lines
import ModuleLinkage.Proofs.Lowering.Regions
import ModuleLinkage.Proofs.Syntax.Ordering.Programs

/-!
# Ambient namespaces

An ambient namespace describes another module, and nothing in it runs here. Neither pass looks into it:
no edit of a program touches its text, which is copied, and nothing that stands in it is registered,
requested or wrapped. So compiling a text leaves it `Inert`, at whatever depth it stands.

A declaration of global entities is no namespace to the passes, although all that stands in it is ambient
too. They take out the exports of its body and register them (`globalExport_registered`).
-/

set_option autoImplicit false

namespace ModuleLinkage.Lowering

open Syntax Text

variable {subject : Subject} {markers : Bool} {program node : Node}

/-! ### The outermost ambient namespace -/

/-- An ambient namespace stands in one that no other one stands around. -/
theorem exists_occurs_of_ambient (hwithin : node.Within program)
    (hform : node.form = .namespaceDeclaration true) : ∃ outer : Node,
      outer.Occurs program ∧ outer.form = .namespaceDeclaration true ∧ node.Within outer := by
  induction hwithin with
  | self => exact ⟨node, .self, hform, .self⟩
  | @part root part hpart hinner ih =>
    by_cases hroot : root.form = .namespaceDeclaration true
    · exact ⟨root, .self, hroot, .part hpart hinner⟩
    · obtain ⟨outer, hoccurs, houter, hnode⟩ := ih
      exact ⟨outer, .inside hroot hpart hoccurs, houter, hnode⟩

/-- No edit for an ambient namespace itself reaches into it, and its parts do not count. -/
theorem vacant_of_ambient (hform : node.form = .namespaceDeclaration true)
    (hordered : node.Ordered subject.source markers) :
    Vacant subject node node.span.start node.span.stop where
  listing := by rw [hform]; rfl
  first := Nat.le_refl _
  forward := hordered.start_le_stop
  last := Nat.le_refl _
  parts := fun hother => absurd hform hother
  own := by
    intro span hown
    have hedited := hown.isEdited
    rw [hform] at hedited
    cases hedited

/-- No edit of a program touches an ambient namespace in it. -/
theorem isBeside_of_ambient (hprogram : program.form = .program)
    (hordered : program.Ordered subject.source markers) (hanchored : program.Anchored subject.source)
    (hwithin : node.Within program) (hform : node.form = .namespaceDeclaration true) {edit : Edit}
    (hedit : edit ∈ loweringEdits subject program) :
    edit.span.stop ≤ node.span.start ∨ node.span.stop ≤ edit.span.start := by
  obtain ⟨outer, hoccurs, houter, hinner⟩ := exists_occurs_of_ambient hwithin hform
  have houterOrdered := hoccurs.within.ordered hordered
  have hfront : outer.span.start ≤ outer.front := by
    have harranged := houterOrdered.arranged
    rw [houter] at harranged
    exact Node.start_le_front harranged
  rcases isBeside_of_mem_loweringEdits (by simp [hprogram]) hordered hanchored hoccurs
    (vacant_of_ambient houter houterOrdered) hedit with (hbefore | hbehind) | ⟨_, -, -, _, hplace, -⟩
  · exact .inl (hbefore.trans (hfront.trans (hinner.front_le.trans node.front_le_start)))
  · exact .inr ((hinner.stop_le houterOrdered).trans hbehind)
  · cases hplace with
    | function hother | definition hother => cases houter.symm.trans hother

end ModuleLinkage.Lowering

namespace ModuleLinkage

open Syntax Text Lowering EditList

variable {options : CompileOptions}

/-! ### Compiled text -/

/-- What no edit touches is copied when a program is lowered. -/
theorem exists_copied_of_parse (hvalid : options.validate = .ok ()) {text : List Char} {program : Node}
    (hparse : parse (options.settings true) text = .ok program) {span : Span}
    (hstart : isBoundary text span.start = true) (hstop : isBoundary text span.stop = true)
    (hle : span.start ≤ span.stop)
    (huntouched : ∀ edit ∈ loweringEdits ⟨text, options.referenceIn text⟩ program,
      edit.span.stop ≤ span.start ∨ span.stop ≤ edit.span.start) :
    ∃ front back, ((ofSource text).recordAll
        (loweringEdits ⟨text, options.referenceIn text⟩ program)).render =
      front ++ (slice text span ++ back) := by
  obtain ⟨edits, hrender, horder, hedits⟩ :=
    @exists_rendered ⟨text, options.referenceIn text⟩ program (isPlainIdentifier_referenceIn hvalid text)
      (anchored_of_parse hparse)
  obtain ⟨htake, hdrop, -⟩ := exists_slice hstart hstop hle
  have hsource : text = takeBytes span.start text ++ (slice text span ++ dropBytes span.stop text) := by
    rw [hdrop, takeBytes_append_dropBytes]
  have hahead := width_takeBytes_of_isBoundary hstart
  have hline : width (takeBytes span.start text ++ slice text span) = span.stop := by
    rw [← htake, width_takeBytes_of_isBoundary hstop]
  obtain ⟨before, after, -, -, hcut, hcopied⟩ := exists_splice_around hsource
    (fun edit hedit => (hedits edit hedit).2.1) horder fun edit hedit => by
      rw [hahead, hline]
      exact huntouched edit (hedits edit hedit).1
  exact ⟨_, _, by rw [hrender, hcut, hcopied]⟩

/-- What a text is read as: a module, if it is to be one, and otherwise, or if it cannot be one, a
script. -/
def CompileOptions.Reads (options : CompileOptions) (text : List Char) (program : Node) : Prop :=
  if options.wantsModule text then
    match parse (options.settings true) text with
    | .ok read => read = program
    | .error _ => parse (options.settings false) text = .ok program
  else parse (options.settings false) text = .ok program

/-- What becomes of the ambient namespaces of a program in its compiled text. -/
structure Inert (subject : Subject) (program : Node) (code : List Char) : Prop where
  /-- No edit touches one. -/
  untouched : ∀ node : Node, node.Within program → node.form = .namespaceDeclaration true →
    ∀ edit ∈ loweringEdits subject program,
      edit.span.stop ≤ node.span.start ∨ node.span.stop ≤ edit.span.start
  /-- Its text is copied. -/
  copied : ∀ node : Node, node.Within program → node.form = .namespaceDeclaration true →
    ∃ front back, code = front ++ (slice subject.source node.span ++ back)
  /-- Nothing is registered or requested but what would be without the bodies. -/
  exports : programExports subject program = programExports subject program.emptied
  requests : programRequests subject program = programRequests subject program.emptied
  generated : generatedCode subject program = generatedCode subject program.emptied
  /-- Nothing is wrapped but what would be without them. -/
  wraps : (programWraps subject.reference (exportedVariables subject program) program).Sublist
    (programWraps subject.reference (exportedVariables subject program.emptied) program.emptied)

/-- A text is read as some program: it is left as it is, or that program is lowered. -/
theorem compileText_of_reads {text : List Char} {program : Node} {out : CompileOutput}
    (hreads : options.Reads text program) (hcompile : compileText options text = .ok out) :
    (∃ asModule, parse (options.settings asModule) text = .ok program) ∧
      (out.code = text ∨ parse (options.settings true) text = .ok program ∧
        out.code = ((ofSource text).recordAll
          (loweringEdits ⟨text, options.referenceIn text⟩ program)).render) := by
  unfold CompileOptions.Reads at hreads
  unfold compileText at hcompile
  split at hreads
  · next hwants =>
    rw [if_pos hwants] at hcompile
    split at hreads
    · next read hparse =>
      subst hreads
      rw [hparse] at hcompile
      cases hcompile
      exact ⟨⟨true, hparse⟩, .inr ⟨hparse, rfl⟩⟩
    · next hparse =>
      rw [hparse, hreads] at hcompile
      dsimp only at hcompile
      split at hcompile
      · cases hcompile
        exact ⟨⟨false, hreads⟩, .inl rfl⟩
      · cases hcompile
  · next hwants =>
    rw [if_neg hwants, hreads] at hcompile
    cases hcompile
    exact ⟨⟨false, hreads⟩, .inl rfl⟩

/-- A text that is compiled is read as some program. -/
theorem exists_reads {text : List Char} {out : CompileOutput}
    (hcompile : compileText options text = .ok out) : ∃ program, options.Reads text program := by
  unfold CompileOptions.Reads
  unfold compileText at hcompile
  split
  · next hwants =>
    rw [if_pos hwants] at hcompile
    split
    · next read hparse => exact ⟨read, rfl⟩
    · next hparse =>
      rw [hparse] at hcompile
      dsimp only at hcompile
      split at hcompile
      · split at hcompile
        · next read hscript => exact ⟨read, hscript⟩
        · cases hcompile
      · cases hcompile
  · next hwants =>
    rw [if_neg hwants] at hcompile
    split at hcompile
    · next read hscript => exact ⟨read, hscript⟩
    · cases hcompile

theorem inert_of_reads {text : List Char} {program : Node} {out : CompileOutput}
    (hvalid : options.validate = .ok ()) (hreads : options.Reads text program)
    (hcompile : compileText options text = .ok out) :
    Inert ⟨text, options.referenceIn text⟩ program out.code := by
  obtain ⟨⟨asModule, hparse⟩, hout⟩ := compileText_of_reads hreads hcompile
  have hanchored : program.Anchored text := anchored_of_parse hparse
  have hordered := ordered_of_parse hparse
  have hprogram := (isSound_of_parse hparse).1
  have huntouched (node : Node) (hwithin : node.Within program)
      (hform : node.form = .namespaceDeclaration true) (edit : Edit)
      (hedit : edit ∈ loweringEdits ⟨text, options.referenceIn text⟩ program) :
      edit.span.stop ≤ node.span.start ∨ node.span.stop ≤ edit.span.start :=
    isBeside_of_ambient hprogram hordered hanchored hwithin hform hedit
  refine ⟨huntouched, fun node hwithin hform => ?_, ?_, ?_, (generatedCode_emptied hprogram).symm,
    sublist_programWraps_emptied _ program⟩
  · have hnode := hwithin.anchored hanchored
    have hle := (hwithin.ordered hordered).start_le_stop
    rcases hout with hcode | ⟨hmodule, hcode⟩
    · obtain ⟨-, hdrop, -⟩ := exists_slice hnode.start hnode.stop hle
      exact ⟨takeBytes node.span.start text, dropBytes node.span.stop text, by
        rw [hcode, hdrop, takeBytes_append_dropBytes]⟩
    · rw [hcode]
      exact exists_copied_of_parse hvalid hmodule hnode.start hnode.stop hle
        fun edit hedit => huntouched node hwithin hform edit hedit
  · rw [programExports, programExports, programFindings_emptied]
  · rw [programRequests, programRequests, programFindings_emptied]

/-- **Ambient namespaces.** A text that compiles is read as a program, and compiling it leaves the
ambient namespaces of that program inert, at whatever depth they stand. -/
theorem exists_inert {source : List Char} {out : CompileOutput}
    (hcompile : compile options source = .ok out) :
    ∃ program, options.Reads (withoutInterpreterLine source) program ∧
      Inert ⟨withoutInterpreterLine source, options.referenceIn (withoutInterpreterLine source)⟩
        program out.code := by
  have hvalid := validate_of_compile hcompile
  rw [compile_of_validate hvalid] at hcompile
  obtain ⟨program, hreads⟩ := exists_reads hcompile
  exact ⟨program, hreads, inert_of_reads hvalid hreads hcompile⟩

/-- A module that holds an ambient module, inside a namespace that runs. -/
def ambientNamespaces : List Char :=
  ("namespace N\x7bdeclare module \"m\"\x7bimport \"y\";export let x\x7d\x7d" ++
    "export let x;x=1").toList

/-- What becomes of it: only the export outside of it is registered, and only the write outside is
wrapped. -/
def ambientNamespacesOutput : CompileOutput where
  code :=
    ("module1.export(\x7bx:()=>x\x7d);" ++
      "namespace N\x7bdeclare module \"m\"\x7bimport \"y\";export let x\x7d\x7d" ++
      "let x;module1.runSetters(x=1)").toList
  kind := .module

theorem exists_inert_ambientNamespaces :
    compile { sourceGoal := .module, typescript := true } ambientNamespaces =
      .ok ambientNamespacesOutput ∧
    ∃ program, CompileOptions.Reads { sourceGoal := .module, typescript := true }
        (withoutInterpreterLine ambientNamespaces) program ∧
      Inert ⟨withoutInterpreterLine ambientNamespaces, CompileOptions.referenceIn
        { sourceGoal := .module, typescript := true } (withoutInterpreterLine ambientNamespaces)⟩
          program ambientNamespacesOutput.code := by
  have hcompile : compile { sourceGoal := .module, typescript := true } ambientNamespaces =
      .ok ambientNamespacesOutput := by
    unfold compile compileText lowerModule
    simp only [EditList.render_recordAll_ofSource]
    decide +kernel
  exact ⟨hcompile, exists_inert hcompile⟩

/-! ### Declarations of global entities -/

/-- A module that declares a global constant. -/
def globalExport : List Char :=
  "declare global \x7b export const x: number; \x7d".toList

/-- The `export` in it is taken out, and the constant is registered. -/
theorem globalExport_registered :
    compile { sourceGoal := .module, typescript := true } globalExport = .ok
      ⟨"module.export(\x7bx:()=>x\x7d);declare global \x7b const x: number; \x7d".toList, .module⟩ := by
  unfold compile compileText lowerModule
  simp only [EditList.render_recordAll_ofSource]
  decide +kernel

end ModuleLinkage
