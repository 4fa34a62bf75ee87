import ModuleLinkage.Proofs.Lowering.Statements

/-!
# Module declarations at the top level

The grammar of modules lets imports and exports stand only among the statements of a program
(`linksAtTop`). What the first pass finds is then found statement by statement
(`collect_of_linksAtTop`), and so are the exports and the requests that the generated code is
written from. A program that anything is generated for has edits, so the generated code is always
among them (`exists_loweringEdits_generated`).
-/

set_option autoImplicit false

namespace ModuleLinkage.Lowering

open Syntax Text

/-! ### What reading a program guarantees -/

/-- What is read is a program that no rule about whole programs refuses. -/
theorem isSound_of_parse {settings : Settings} {text : List Char} {program : Node}
    (hparse : parse settings text = .ok program) :
    program.form = .program ∧ isSound settings program = true := by
  unfold parse at hparse
  dsimp only at hparse
  generalize hstart : State.mk settings { await := settings.module }
    (readLexeme (!settings.module) true ⟨text, 0⟩) 0 (width text) false [] = start at hparse
  have hsettings : start.settings = settings := by rw [← hstart]
  split at hparse
  · next node state hread =>
    obtain rfl : node = program := by simpa using hparse
    simp only [Syntax.program, Bind.bind, Parser.bind, Parser.get] at hread
    split at hread
    · split at hread
      · split at hread
        · next hrequire =>
          split at hread
          · next hsound =>
            unfold Parser.require at hsound
            split at hsound
            · next hholds =>
              obtain ⟨rfl, -⟩ : _ = node ∧ _ := by
                simpa [Pure.pure, Parser.pure] using hread
              rw [Bool.and_eq_true, hsettings] at hholds
              exact ⟨rfl, hholds.2⟩
            · cases hsound
          · cases hread
        · cases hread
      · cases hread
    · cases hread
  · cases hparse

/-! ### Where module declarations stand -/

mutual

/-- Whether no module declaration occurs in a node. -/
def isLinkFree : Node → Bool
  | .mk _ form parts => !declaresLink form && allLinkFree parts

def allLinkFree : List Node → Bool
  | [] => true
  | node :: rest => isLinkFree node && allLinkFree rest

end

theorem allLinkFree_eq (nodes : List Node) : allLinkFree nodes = nodes.all isLinkFree := by
  induction nodes with
  | nil => rfl
  | cons node rest ih => rw [allLinkFree, ih, List.all_cons]

/-- Whether all module declarations of a program are statements of its own. -/
def linksAtTop (program : Node) : Bool :=
  program.parts.all fun statement => statement.parts.all isLinkFree

section Collecting

variable {α : Type} {own : Bool → Node → List α}

/-- Nothing is collected from a node without module declarations. -/
theorem collect_eq_nil_of_isLinkFree
    (hown : ∀ inside node, declaresLink node.form = false → own inside node = [])
    {node : Node} (hfree : isLinkFree node = true) (inNamespace : Bool) :
    collect own inNamespace node = [] := by
  induction node using Node.induction generalizing inNamespace with
  | step span form parts ih =>
    rw [isLinkFree, allLinkFree_eq, Bool.and_eq_true, Bool.not_eq_true', List.all_eq_true] at hfree
    obtain ⟨hform, hparts⟩ := hfree
    have hinside (inside : Bool) : listCollect own inside parts = [] := by
      rw [listCollect_eq, List.flatMap_eq_nil_iff]
      exact fun part hpart => ih part hpart (hparts part hpart) inside
    unfold collect
    split
    · rfl
    · exact hinside true
    · rw [hown inNamespace (.mk span form parts) hform, hinside, List.nil_append]

/-- What is collected from a statement without module declarations inside it is its own. -/
theorem collect_statement
    (hown : ∀ inside node, declaresLink node.form = false → own inside node = [])
    {statement : Node} (hfree : statement.parts.all isLinkFree = true) (inNamespace : Bool) :
    collect own inNamespace statement = own inNamespace statement := by
  rw [List.all_eq_true] at hfree
  by_cases hambient : statement.form = .namespaceDeclaration true
  · rw [hown inNamespace statement (by rw [hambient]; rfl)]
    obtain ⟨span, form, parts⟩ := statement
    obtain rfl : form = _ := hambient
    rfl
  obtain ⟨inside, hcollect⟩ := exists_collect_eq own hambient
    (fun inside hform => hown inside statement (by rw [hform]; rfl)) inNamespace
  rw [hcollect, List.flatMap_eq_nil_iff.mpr fun part hpart =>
    collect_eq_nil_of_isLinkFree hown (hfree part hpart) inside, List.append_nil]

/-- **Statement by statement.** Where all module declarations are statements of the program, what is
collected from module declarations is collected from the statements themselves. -/
theorem collect_of_linksAtTop
    (hown : ∀ inside node, declaresLink node.form = false → own inside node = [])
    {program : Node} (hprogram : program.form = .program) (htop : linksAtTop program = true) :
    collect own false program = program.parts.flatMap (own false) := by
  unfold linksAtTop at htop
  rw [List.all_eq_true] at htop
  obtain ⟨span, form, parts⟩ := program
  obtain rfl : form = .program := hprogram
  rw [collect.eq_def]
  dsimp only
  rw [hown false _ rfl, List.nil_append, listCollect_eq]
  exact List.flatMap_congr fun statement hstatement => collect_statement hown (htop _ hstatement) false

end Collecting

/-! ### Exports and requests -/

variable {subject : Subject}

/-- What a program registers. -/
def programExports (subject : Subject) (program : Node) : List Export :=
  (programFindings subject program).filterMap Finding.export?

/-- The requests that a program makes, declaration by declaration. -/
def programRequests (subject : Subject) (program : Node) : List Request :=
  (programFindings subject program).filterMap Finding.request?

/-- What a statement itself registers. -/
def ownExports (subject : Subject) (statement : Node) : List Export :=
  (nodeFindings subject false statement).filterMap Finding.export?

/-- The request that a statement itself makes. -/
def ownRequests (subject : Subject) (statement : Node) : List Request :=
  (nodeFindings subject false statement).filterMap Finding.request?

/-- Only module declarations register or request anything. -/
theorem nodeFindings_of_not_declaresLink (inNamespace : Bool) {node : Node}
    (hform : declaresLink node.form = false) :
    (nodeFindings subject inNamespace node).filterMap Finding.export? = [] ∧
      (nodeFindings subject inNamespace node).filterMap Finding.request? = [] := by
  obtain ⟨span, form, parts⟩ := node
  cases form with
  | importDeclaration => cases hform
  | exportDeclaration => cases hform
  | exportNames => cases hform
  | exportDefault => cases hform
  | exportAll => cases hform
  | _ => exact ⟨rfl, rfl⟩

theorem programFindings_filterMap {α : Type} (select : Finding → Option α) (program : Node) :
    (programFindings subject program).filterMap select =
      collect (fun inside node => (nodeFindings subject inside node).filterMap select) false
        program := by
  rw [programFindings, findings_eq_collect, List.filterMap_eq_flatMap_toList, collect_flatMap]
  congr 1
  funext inside node
  rw [List.filterMap_eq_flatMap_toList]

theorem programExports_of_linksAtTop {program : Node} (hprogram : program.form = .program)
    (htop : linksAtTop program = true) :
    programExports subject program = program.parts.flatMap (ownExports subject) := by
  rw [programExports, programFindings_filterMap]
  exact collect_of_linksAtTop
    (fun inside _ hform => (nodeFindings_of_not_declaresLink inside hform).1) hprogram htop

theorem programRequests_of_linksAtTop {program : Node} (hprogram : program.form = .program)
    (htop : linksAtTop program = true) :
    programRequests subject program = program.parts.flatMap (ownRequests subject) := by
  rw [programRequests, programFindings_filterMap]
  exact collect_of_linksAtTop
    (fun inside _ hform => (nodeFindings_of_not_declaresLink inside hform).2) hprogram htop

/-! ### The generated code -/

/-- The code that is generated for a program. -/
def generatedCode (subject : Subject) (program : Node) : List Char :=
  hoistedCode subject.reference (constantNames program) (programExports subject program)
    (programRequests subject program)

/-- The exports that are registered as live. -/
def liveExports (subject : Subject) (program : Node) : List Export :=
  (programExports subject program).filter fun item =>
    !(constantNames program).contains item.localName

/-- The exports that are registered as constant. -/
def constantExports (subject : Subject) (program : Node) : List Export :=
  (programExports subject program).filter fun item =>
    (constantNames program).contains item.localName

/-- The statements of the generated code that request modules. -/
def requestCode (subject : Subject) (program : Node) : List Char :=
  (inSourceOrder (programRequests subject program)).flatMap
    (requestStatement ⟨subject.reference, exportedVariables subject program⟩)

/-- What the generated code consists of. -/
theorem generatedCode_eq (subject : Subject) (program : Node) : generatedCode subject program =
    exportStatement subject.reference (liveExports subject program) false ++
      (exportStatement subject.reference (constantExports subject program) true ++
        (importVariables (programRequests subject program) ++
          (importObjects (programRequests subject program) ++ requestCode subject program))) := by
  simp only [generatedCode, hoistedCode, List.append_assoc]
  rfl

/-- Nothing is generated for nothing. -/
theorem hoistedCode_nil (reference : String) (constants : List String) :
    hoistedCode reference constants [] [] = [] := by
  simp [hoistedCode, exportStatement, importVariables, importObjects, inSourceOrder,
    withoutRepetition]

/-- Whatever is found about a node comes with an edit. -/
theorem nodeFindings_eq_nil {inNamespace : Bool} {node : Node}
    (hedits : (nodeFindings subject inNamespace node).filterMap Finding.edit? = []) :
    nodeFindings subject inNamespace node = [] := by
  rw [edits_nodeFindings_eq_nil_iff] at hedits
  obtain ⟨span, form, parts⟩ := node
  cases form with
  | importDeclaration => cases hedits
  | exportAll => cases hedits
  | importCall => cases hedits
  | exportNames typeOnly =>
    obtain rfl : inNamespace = true := by simpa [isModuleItem] using hedits
    rfl
  | exportDeclaration typeOnly =>
    rcases parts with _ | ⟨declaration, _ | ⟨second, rest⟩⟩
    · rfl
    · obtain rfl : inNamespace = true := by simpa [isModuleItem] using hedits
      rfl
    · rfl
  | exportDefault =>
    rcases parts with _ | ⟨inner, _ | ⟨second, rest⟩⟩
    · rfl
    · cases hedits
    · rfl
  | _ => rfl

/-- A program without edits has nothing to be done about. -/
theorem programFindings_eq_nil {program : Node}
    (hedits : (programFindings subject program).filterMap Finding.edit? = []) :
    programFindings subject program = [] := by
  rw [programFindings_filterMap] at hedits
  rw [programFindings, findings_eq_collect]
  refine (collect_eq_nil_congr (fun inside node => ⟨fun hnil => ?_, nodeFindings_eq_nil⟩) _ _).mpr
    hedits
  rw [hnil, List.filterMap_nil]

theorem inline_of_mem_ownChanges {inNamespace : Bool} {node : Node} {edit : Edit}
    (hedit : edit ∈ ownChanges subject inNamespace node) : edit.placement = .inline := by
  have hsingle {other : Edit} (hother : other.placement = .inline) (hmem : edit ∈ [other]) :
      edit.placement = .inline := List.mem_singleton.mp hmem ▸ hother
  unfold ownChanges at hedit
  split at hedit
  · exact hsingle rfl hedit
  · exact hsingle rfl hedit
  · split at hedit
    · cases hedit
    · exact hsingle rfl hedit
  · split at hedit
    · cases hedit
    · exact hsingle rfl hedit
  · split at hedit
    · exact hsingle rfl hedit
    · rcases List.mem_pair.mp hedit with rfl | rfl <;> rfl
  · exact hsingle rfl hedit
  · cases hedit

theorem inline_of_mem_ownNames {node : Node} {edit : Edit} (hedit : edit ∈ ownNames subject node) :
    edit.placement = .inline := by
  unfold ownNames at hedit
  split at hedit
  · split at hedit
    · obtain rfl := List.mem_singleton.mp hedit
      rfl
    · obtain rfl := List.mem_singleton.mp hedit
      rfl
    · cases hedit
  · cases hedit

/-- The generated code is the last of the edits of a program, if there is any, and the only one that is
hoisted. -/
theorem exists_loweringEdits_generated (subject : Subject) (program : Node) : ∃ others,
    (∀ edit ∈ others, edit.placement = .inline) ∧ loweringEdits subject program = others ++
      (if (generatedCode subject program).isEmpty then []
      else [hoistingEdit subject.source program (generatedCode subject program)]) := by
  by_cases hedits : (programFindings subject program).filterMap Finding.edit? = []
  · have hnone : generatedCode subject program = [] := by
      rw [generatedCode, programExports, programRequests, programFindings_eq_nil hedits]
      exact hoistedCode_nil _ _
    refine ⟨[], nofun, ?_⟩
    unfold loweringEdits
    simp [hedits, hnone]
  · refine ⟨(programFindings subject program).filterMap Finding.edit? ++
      programWraps subject.reference (exportedVariables subject program) program, ?_, ?_⟩
    · intro edit hedit
      rcases List.mem_append.mp hedit with hedit | hedit
      · rw [programFindings_filterMap] at hedit
        obtain ⟨node, inside, -, hown⟩ := exists_of_mem_collect _ hedit
        rw [edits_nodeFindings] at hown
        exact (List.mem_append.mp hown).elim inline_of_mem_ownChanges inline_of_mem_ownNames
      · obtain ⟨node, -, -, hwrap⟩ := exists_of_mem_wraps hedit
        rcases List.mem_pair.mp hwrap with rfl | rfl <;> rfl
    · unfold loweringEdits
      dsimp only
      rw [if_neg (by simpa using hedits)]
      rfl

end ModuleLinkage.Lowering
