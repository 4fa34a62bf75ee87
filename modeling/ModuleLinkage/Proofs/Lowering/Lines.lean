import ModuleLinkage.Proofs.Lowering.GeneratedLine
import ModuleLinkage.Proofs.Lowering.Standing
import ModuleLinkage.Proofs.SettledTexts
import ModuleLinkage.Proofs.Syntax.Anchoring.Programs
import ModuleLinkage.Proofs.Syntax.Keys

/-!
# Lines

Compiled text has the line breaks of its source, in order, so what no edit touches stays on its line
(`lines_compile`). Of the edits of a program only one may lose a line break, and none adds one: the
call that takes the place of `export default` takes that of the line breaks behind it as well
(`defaultBelow_joined`). A line break may also be lost with an interpreter line that ends with a
carriage return and a line feed.
-/

set_option autoImplicit false

namespace ModuleLinkage.Syntax

open Scope

variable {source : List Char}

/-! ### The names in an anchored tree -/

/-- What occurs in an anchored tree is anchored. -/
theorem Node.Occurs.anchored {node root : Node} (hoccurs : node.Occurs root)
    (h : root.Anchored source) : node.Anchored source := by
  induction hoccurs with
  | self => exact h
  | inside hform hpart hinner ih => exact ih (h.parts _ hpart)

theorem Node.Anchored.isIdentifier_of_binding {node : Node} {name : String} (h : node.Anchored source)
    (hform : node.form = .binding name) : isIdentifier name.toList = true := by
  have hshape := h.shape
  rw [hform] at hshape
  exact hshape.1

theorem Node.Anchored.isIdentifier_ownName {node : Node} {name : String} (h : node.Anchored source)
    (hname : node.ownName? = some name) : isIdentifier name.toList = true := by
  obtain ⟨part, hpart, hbound⟩ := List.exists_of_findSome?_eq_some hname
  unfold Node.boundName? at hbound
  split at hbound
  · next bound hform =>
    obtain rfl := Option.some.inj hbound
    exact (h.parts part hpart).isIdentifier_of_binding hform
  · cases hbound

/-- What an anchored pattern binds is an identifier. -/
theorem isIdentifier_of_patternBinds {pattern : Node} {name : String} (h : pattern.Anchored source)
    (hbinds : PatternBinds name pattern) : isIdentifier name.toList = true := by
  induction hbinds with
  | named hform => exact h.isIdentifier_of_binding hform
  | inObject hform hpart hinner ih => exact ih (h.parts _ hpart)
  | inArray hform hpart hinner ih => exact ih (h.parts _ hpart)
  | property hform hparts hinner ih => exact ih (h.parts _ (by simp [hparts]))
  | withDefault hform hparts hinner ih => exact ih (h.parts _ (by simp [hparts]))
  | remaining hform hparts hinner ih => exact ih (h.parts _ (by simp [hparts]))

theorem isIdentifier_of_declares {declaration : Node} {name : String} (h : declaration.Anchored source)
    (hdeclares : Declares name declaration) : isIdentifier name.toList = true := by
  cases hdeclares with
  | binding hform hbinds =>
    obtain ⟨declarator, hdeclarator, pattern, rest, hparts, hpattern⟩ := hbinds
    have hanchored := (h.parts declarator hdeclarator).parts pattern (by simp [hparts])
    exact isIdentifier_of_patternBinds hanchored hpattern
  | function hform hname => exact h.isIdentifier_ownName hname
  | classDefinition hform hname => exact h.isIdentifier_ownName hname
  | enumeration hform hname => exact h.isIdentifier_ownName hname
  | namespaceDeclaration hform hkept hname => exact h.isIdentifier_ownName hname

/-- The name of a binding, whatever its form is asked for. -/
theorem Node.Anchored.isIdentifier_of_isBinding {node : Node} {name : String} (h : node.Anchored source)
    (hbinding : isBinding node = true) (hname : node.name? = some name) : isIdentifier name.toList = true := by
  unfold isBinding Node.boundName? at hbinding
  unfold Node.name? at hname
  split at hbinding
  · next bound hform =>
    rw [hform] at hname
    obtain rfl := Option.some.inj hname
    exact h.isIdentifier_of_binding hform
  · cases hbinding

end ModuleLinkage.Syntax

namespace ModuleLinkage.Lowering

open Syntax Text Unicode Scope EditList

variable {subject : Subject} {program : Node}

/-! ### What the generated code is written from -/

theorem isOneLine_append {first second : String} (hfirst : IsOneLine first)
    (hsecond : IsOneLine second) : IsOneLine (first ++ second) := by
  rw [IsOneLine, String.toList_append, lineBreaks_append, hfirst, hsecond]
  rfl

theorem isPlainIdentifier_defaultName (hreference : isPlainIdentifier subject.reference.toList = true) :
    isPlainIdentifier (defaultName subject) = true := by
  refine isPlainIdentifier_uniqueName ?_ _
  rw [String.toList_append]
  exact isPlainIdentifier_append hreference (by decide)

theorem isIdentifier_defaultName (hreference : isPlainIdentifier subject.reference.toList = true) :
    isIdentifier (String.ofList (defaultName subject)).toList = true := by
  rw [String.toList_ofList]
  exact isIdentifier_of_isPlainIdentifier (isPlainIdentifier_defaultName hreference)

/-- An exportable item names a variable. -/
theorem exists_of_isExportable {item inner outer : Node} {typeOnly : Bool}
    (hexportable : isExportable item = true) (hform : item.form = .exportName typeOnly)
    (hparts : item.parts = [inner, outer]) : ∃ name, inner.form = .propertyName name := by
  unfold isExportable at hexportable
  rw [hform, hparts] at hexportable
  dsimp only [List.map_cons] at hexportable
  split at hexportable
  · next name rest hforms =>
    exact ⟨name, (List.cons.inj hforms).1⟩
  · cases hexportable

theorem any_isModuleSource {statement : Node} (hsource : specifier? statement = none) :
    statement.parts.any isModuleSource = false := by
  rw [List.any_eq_false]
  intro part hpart hmodule
  have hnone := List.findSome?_eq_none_iff.mp hsource part hpart
  unfold isModuleSource at hmodule
  split at hmodule
  · next value hform =>
    rw [hform] at hnone
    cases hnone
  · cases hmodule

/-- The variable that a statement exports has an identifier as its name. -/
theorem isIdentifier_of_exports {statement : Node} {item : Export}
    (hreference : isPlainIdentifier subject.reference.toList = true) (h : statement.Anchored subject.source)
    (hexports : Exports subject statement item) : isIdentifier item.localName.toList = true := by
  cases hexports with
  | declaration hform hparts hdeclares =>
    exact isIdentifier_of_declares (h.parts _ (by simp [hparts])) hdeclares
  | @list part inner outer localName exported hform hsource hpart hpartForm hpartParts hlocal _ =>
    have hshape := h.shape
    rw [hform] at hshape
    have hall := hshape.1.2
    rw [any_isModuleSource hsource, Bool.false_or, List.all_eq_true] at hall
    obtain ⟨name, hinner⟩ := exists_of_isExportable (hall part hpart) hpartForm hpartParts
    have hline := ((h.parts part hpart).parts inner (by simp [hpartParts])).shape
    rw [hinner] at hline
    rw [Node.name?, hinner] at hlocal
    obtain rfl := Option.some.inj hlocal
    exact hline.1
  | namedDefault hform hparts hinner hname =>
    exact (h.parts _ (by simp [hparts])).isIdentifier_ownName hname
  | anonymousDefault hform hparts hinner hname =>
    exact isIdentifier_defaultName hreference

/-- An import specifier fills a variable whose name is an identifier. -/
theorem isIdentifier_of_importedPair? {item : Node} {pair : String × String}
    (h : item.Anchored subject.source) (hpair : importedPair? item = some pair) :
    isIdentifier pair.2.toList = true := by
  have hshape := h.shape
  unfold importedPair? at hpair
  split at hpair
  · next binding hform hparts =>
    obtain ⟨name, hname, rfl⟩ := Option.map_eq_some_iff.mp hpair
    rw [hform, hparts] at hshape
    exact (h.parts binding (by simp [hparts])).isIdentifier_of_isBinding hshape hname
  · next imported binding hform hparts =>
    rw [hform, hparts] at hshape
    cases hname : binding.name? with
    | none => cases himported : imported.name? <;> simp [hname, himported] at hpair
    | some name =>
      cases himported : imported.name? with
      | none => simp [himported] at hpair
      | some first =>
        obtain rfl : (first, name) = pair := by simpa [hname, himported] using hpair
        exact (h.parts binding (by simp [hparts])).isIdentifier_of_isBinding hshape hname
  · cases hpair

theorem isIdentifier_of_importedNamespace? {item : Node} {name : String}
    (h : item.Anchored subject.source) (hname : importedNamespace? item = some name) :
    isIdentifier name.toList = true := by
  have hshape := h.shape
  unfold importedNamespace? at hname
  split at hname
  · next binding hform hparts =>
    rw [hform, hparts] at hshape
    exact (h.parts binding (by simp [hparts])).isIdentifier_of_isBinding hshape hname
  · cases hname

/-- A request that only exports again fills nothing. -/
theorem fillsIdentifiers_of_exportAllUse (offset : Nat) (specifier : String) (statement : Node) :
    (Request.mk offset specifier (exportAllUse statement)).FillsIdentifiers := by
  unfold exportAllUse Request.FillsIdentifiers
  split
  · split <;> simp [Request.importedVariables, Request.importedNamespaces]
  · simp [Request.importedVariables, Request.importedNamespaces]

/-- The variables that a statement has filled have identifiers as their names. -/
theorem fillsIdentifiers_of_statementRequest? {statement : Node} {request : Request}
    (h : statement.Anchored subject.source) (hrequest : statementRequest? statement = some request) :
    request.FillsIdentifiers := by
  unfold statementRequest? at hrequest
  split at hrequest
  · unfold importRequest? at hrequest
    dsimp only at hrequest
    split at hrequest
    · cases hrequest
    · obtain ⟨specifier, -, rfl⟩ := Option.map_eq_some_iff.mp hrequest
      constructor
      · intro pair hpair
        obtain ⟨item, hitem, hpair⟩ := List.mem_filterMap.mp hpair
        exact isIdentifier_of_importedPair? (h.parts item hitem) hpair
      · intro name hname
        obtain ⟨item, hitem, hname⟩ := List.mem_filterMap.mp hname
        exact isIdentifier_of_importedNamespace? (h.parts item hitem) hname
  · split at hrequest
    · obtain ⟨specifier, -, rfl⟩ := Option.map_eq_some_iff.mp hrequest
      simp [Request.FillsIdentifiers, Request.importedVariables, Request.importedNamespaces]
    · cases hrequest
  · obtain ⟨specifier, -, rfl⟩ := Option.map_eq_some_iff.mp hrequest
    exact fillsIdentifiers_of_exportAllUse _ specifier statement
  · cases hrequest

/-- Inside a namespace nothing is found about a node that is not found elsewhere. -/
theorem nodeFindings_subset (subject : Subject) (inside : Bool) (node : Node) :
    nodeFindings subject inside node ⊆ nodeFindings subject false node := by
  cases inside with
  | false => exact List.Subset.refl _
  | true =>
    obtain ⟨span, form, parts⟩ := node
    cases form with
    | exportDeclaration typeOnly =>
      rcases parts with _ | ⟨declaration, _ | ⟨second, rest⟩⟩
      · exact List.Subset.refl _
      · exact List.nil_subset _
      · exact List.Subset.refl _
    | exportNames typeOnly => exact List.nil_subset _
    | importDeclaration typeOnly => cases typeOnly <;> exact List.Subset.refl _
    | exportAll typeOnly => cases typeOnly <;> exact List.Subset.refl _
    | _ => exact List.Subset.refl _

/-- What is found in a program is found about a node that occurs in it. -/
theorem exists_of_mem_findings {α : Type} {select : Finding → Option α} {item : α}
    (hitem : item ∈ (programFindings subject program).filterMap select) :
    ∃ node : Node, node.Occurs program ∧
      item ∈ (nodeFindings subject false node).filterMap select := by
  rw [programFindings_filterMap] at hitem
  obtain ⟨node, inside, hoccurs, hmem⟩ := exists_of_mem_collect _ hitem
  obtain ⟨finding, hfinding, hselect⟩ := List.mem_filterMap.mp hmem
  have hplain := nodeFindings_subset subject inside node hfinding
  exact ⟨node, hoccurs, List.mem_filterMap.mpr ⟨finding, hplain, hselect⟩⟩

/-- What an anchored program exports has an identifier as its variable. -/
theorem isIdentifier_of_mem_programExports
    (hreference : isPlainIdentifier subject.reference.toList = true) (h : program.Anchored subject.source)
    {item : Export} (hitem : item ∈ programExports subject program) :
    isIdentifier item.localName.toList = true := by
  obtain ⟨node, hoccurs, hmem⟩ := exists_of_mem_findings hitem
  exact isIdentifier_of_exports hreference (hoccurs.anchored h) (mem_ownExports_iff.mp hmem)

/-- What an anchored program requests fills variables that are identifiers. -/
theorem fillsIdentifiers_of_mem_programRequests (h : program.Anchored subject.source)
    {request : Request} (hrequest : request ∈ programRequests subject program) :
    request.FillsIdentifiers := by
  obtain ⟨node, hoccurs, hmem⟩ := exists_of_mem_findings hrequest
  change request ∈ ownRequests subject node at hmem
  rw [ownRequests_eq, Option.mem_toList] at hmem
  exact fillsIdentifiers_of_statementRequest? (hoccurs.anchored h) hmem

/-- The code that is generated for an anchored program holds no line break. -/
theorem lineBreaks_generatedCode (hreference : isPlainIdentifier subject.reference.toList = true)
    (h : program.Anchored subject.source) : Edit.lineBreaks (generatedCode subject program) = [] :=
  lineBreaks_hoistedCode (isOneLine_of_isPlainIdentifier hreference) _
    (fun _ hitem => isOneLine_of_isIdentifier (isIdentifier_of_mem_programExports hreference h hitem))
    fun _ hrequest => fillsIdentifiers_of_mem_programRequests h hrequest

/-! ### The edits -/

/-- The edit that begins a call in the place of `export default` before an expression. -/
inductive IsDefaultOpening (subject : Subject) (program : Node) : Edit → Prop
  | mk {node inner : Node} (hoccurs : node.Occurs program) (hform : node.form = .exportDefault)
      (hparts : node.parts = [inner]) (hexpression : inner.isDeclared = false) :
      IsDefaultOpening subject program (defaultOpening subject node.span.start inner.span.start)

/-- Whether an edit lies between characters of the text and keeps its line breaks, unless it begins a
call in the place of `export default`, which adds none. -/
def IsLined (subject : Subject) (program : Node) (edit : Edit) : Prop :=
  edit.Fits subject.source ∧ edit.AddsNoLine subject.source ∧
    (edit.KeepsLines subject.source ∨ IsDefaultOpening subject program edit)

theorem isLined_of_keepsLines {edit : Edit} (hfits : edit.Fits subject.source)
    (hkeeps : edit.KeepsLines subject.source) : IsLined subject program edit :=
  ⟨hfits, hkeeps.addsNoLine, .inl hkeeps⟩

theorem isLined_insertion {offset : Nat} {text : List Char}
    (hoffset : isBoundary subject.source offset = true) (htext : Edit.lineBreaks text = []) :
    IsLined subject program (.insertion offset text) :=
  isLined_of_keepsLines (fits_insertion text hoffset) (keepsLines_of_empty rfl htext)

theorem isLined_removal {start stop : Nat} (hstart : isBoundary subject.source start = true)
    (hstop : isBoundary subject.source stop = true) (hle : start ≤ stop) :
    IsLined subject program (removalFrom subject start stop) :=
  isLined_of_keepsLines (Edit.fits_of_isBoundary hstart hstop hle) (keepsLines_removal _ _)

theorem isLined_defaultOpening (hreference : isPlainIdentifier subject.reference.toList = true) {node inner : Node}
    (hopening : IsDefaultOpening subject program
      (defaultOpening subject node.span.start inner.span.start))
    (hstart : isBoundary subject.source node.span.start = true)
    (hinner : isBoundary subject.source inner.span.start = true)
    (hle : node.span.start ≤ inner.span.start) :
    IsLined subject program (defaultOpening subject node.span.start inner.span.start) := by
  have htext : Edit.lineBreaks
      (defaultOpening subject node.span.start inner.span.start).text = [] :=
    isOneLine_append (isOneLine_of_isPlainIdentifier hreference) rfl
  refine ⟨Edit.fits_of_isBoundary hstart hinner hle, ?_, .inr hopening⟩
  rw [Edit.AddsNoLine, htext]
  exact List.nil_sublist _

/-- The keyword of a dynamic import, which the call takes the place of, holds no line break either. -/
theorem isLined_keywordChange (hreference : isPlainIdentifier subject.reference.toList = true) {start : Nat}
    {after : List Char} (hstart : isBoundary subject.source start = true)
    (hrest : "import".toList ++ after = dropBytes start subject.source) :
    IsLined subject program (keywordChange subject start) := by
  have hstop := isBoundary_add hstart hrest.symm
  have hkeyword : slice subject.source (keywordChange subject start).span = "import".toList := by
    rw [slice]
    dsimp only [keywordChange, Edit.replacement]
    rw [Nat.add_sub_cancel_left, ← hrest]
    exact takeBytes_width "import".toList after
  refine isLined_of_keepsLines (Edit.fits_of_isBoundary hstart hstop (Nat.le_add_right _ _)) ?_
  rw [Edit.KeepsLines, hkeyword]
  exact isOneLine_append (isOneLine_of_isPlainIdentifier hreference) rfl

theorem OwnChange.isLined (hreference : isPlainIdentifier subject.reference.toList = true) {node : Node}
    (hoccurs : node.Occurs program) (h : node.Anchored subject.source) {edit : Edit}
    (hchange : OwnChange subject node edit) : IsLined subject program edit := by
  have hshape := h.shape
  have hinner {inner : Node} (hparts : node.parts = [inner]) : inner.Anchored subject.source :=
    h.parts inner (by simp [hparts])
  cases hchange with
  | removal hform =>
    refine isLined_removal h.start h.stop ?_
    unfold isRemoved at hform
    split at hform
    · next heq =>
      rw [heq] at hshape
      exact hshape.1
    · next heq =>
      rw [heq] at hshape
      exact hshape.1.1
    · next heq =>
      rw [heq] at hshape
      exact hshape.1
    · cases hform
  | keywords hform hparts =>
    refine isLined_removal h.start (hinner hparts).start ?_
    obtain ⟨typeOnly, hform⟩ | hform := hform
    · rw [hform, hparts] at hshape
      exact hshape.1
    · rw [hform, hparts] at hshape
      exact hshape.1
  | opening hform hparts hexpression =>
    rw [hform, hparts] at hshape
    exact isLined_defaultOpening hreference (.mk hoccurs hform hparts hexpression) h.start
      (hinner hparts).start hshape.1
  | closing hform hparts => exact isLined_insertion (hinner hparts).stop rfl
  | importKeyword hform =>
    rw [hform] at hshape
    obtain ⟨after, hrest⟩ := KeywordAt.prefix_dropBytes hshape
    exact isLined_keywordChange hreference h.start hrest

theorem OwnName.isLined (hreference : isPlainIdentifier subject.reference.toList = true) {node : Node}
    (h : node.Anchored subject.source) {edit : Edit} (hname : OwnName subject node edit) :
    IsLined subject program edit := by
  obtain @⟨inner, offset, text, hform, hparts, hplace, htext⟩ := hname
  have hinner := h.parts inner (by simp [hparts])
  have hline := lineBreaks_of_isPlainIdentifier (isPlainIdentifier_defaultName hreference)
  refine isLined_insertion ?_ ?_
  · cases hplace with
    | function =>
      exact isBoundary_functionNameOffset hinner.start fun part hpart => (hinner.parts part hpart).start
    | definition =>
      exact isBoundary_classNameOffset hinner.start fun part hpart => (hinner.parts part hpart).stop
  · rcases htext with rfl | rfl
    · exact hline
    · simpa using hline

theorem isLined_of_mem_wrapping (hreference : isPlainIdentifier subject.reference.toList = true)
    {node : Node} (h : node.Anchored subject.source) {edit : Edit}
    (hwrap : edit ∈ wrapping subject.reference node.span) : IsLined subject program edit := by
  rcases List.mem_pair.mp hwrap with rfl | rfl
  · exact isLined_insertion h.start (isOneLine_append (isOneLine_of_isPlainIdentifier hreference) rfl)
  · exact isLined_insertion h.stop rfl

theorem isLined_hoistingEdit (h : program.Anchored subject.source) {code : List Char}
    (hcode : Edit.lineBreaks code = []) :
    IsLined subject program (hoistingEdit subject.source program code) := by
  obtain ⟨text, hhoist, htext⟩ := hoistingEdit_eq subject.source program code
  have hoffset : isBoundary subject.source (hoistOffset program) = true :=
    isBoundary_hoistOffset fun part hpart => (h.parts part hpart).stop
  have hline : Edit.lineBreaks text = [] := by
    rcases htext with rfl | rfl
    · exact hcode
    · simpa using hcode
  rw [hhoist]
  exact isLined_of_keepsLines (Edit.fits_of_isBoundary hoffset hoffset (Nat.le_refl _))
    (keepsLines_of_empty rfl hline)

/-- Every edit of an anchored program is lined. -/
theorem isLined_of_mem_loweringEdits (hreference : isPlainIdentifier subject.reference.toList = true)
    (h : program.Anchored subject.source) {edit : Edit}
    (hedit : edit ∈ loweringEdits subject program) : IsLined subject program edit := by
  cases programEdit_of_mem_loweringEdits hedit with
  | change hoccurs hchange => exact hchange.isLined hreference hoccurs (hoccurs.anchored h)
  | name hoccurs hname => exact hname.isLined hreference (hoccurs.anchored h)
  | write hoccurs _ hwrap => exact isLined_of_mem_wrapping hreference (hoccurs.anchored h) hwrap
  | generated hedit =>
    unfold hoistedEdits at hedit
    dsimp only at hedit
    split at hedit
    · cases hedit
    · obtain rfl := List.mem_singleton.mp hedit
      exact isLined_hoistingEdit h (lineBreaks_generatedCode hreference h)

/-! ### The rendered text -/

/-- Whether every expression that a program exports as the default begins on the line of its
`export default`. -/
def DefaultsOnLine (source : List Char) (program : Node) : Prop :=
  ∀ node inner : Node, node.Occurs program → node.form = .exportDefault → node.parts = [inner] →
    inner.isDeclared = false → Edit.lineBreaks (slice source ⟨node.span.start, inner.span.start⟩) = []

theorem IsLined.keepsLines {edit : Edit} (h : IsLined subject program edit)
    (hreference : isPlainIdentifier subject.reference.toList = true)
    (hdefaults : DefaultsOnLine subject.source program) : edit.KeepsLines subject.source := by
  obtain ⟨-, -, hkeeps | ⟨hoccurs, hform, hparts, hexpression⟩⟩ := h
  · exact hkeeps
  · have htext : IsOneLine (subject.reference ++ ".exportDefault(") := isOneLine_append (isOneLine_of_isPlainIdentifier hreference) rfl
    exact htext.trans (hdefaults _ _ hoccurs hform hparts hexpression).symm

/-- What is rendered for an anchored program, as a splice of some of its edits. -/
theorem exists_rendered (hreference : isPlainIdentifier subject.reference.toList = true)
    (h : program.Anchored subject.source) : ∃ edits,
    ((ofSource subject.source).recordAll (loweringEdits subject program)).render =
        splice 0 subject.source edits ∧
      InOrder 0 edits ∧
      ∀ edit ∈ edits, edit ∈ loweringEdits subject program ∧ IsLined subject program edit := by
  refine ⟨_, render_recordAll_ofSource _ _, inOrder_keep _ _, fun edit hedit => ?_⟩
  have hrecorded : edit ∈ loweringEdits subject program :=
    (List.mem_insertionSort _).mp (mem_of_mem_keep hedit)
  exact ⟨hrecorded, isLined_of_mem_loweringEdits hreference h hrecorded⟩

end ModuleLinkage.Lowering

namespace ModuleLinkage

open Syntax Text Lowering EditList

variable {options : CompileOptions}

/-! ### Compiled text -/

/-- The name that the compiled text of a text calls the module by. -/
def CompileOptions.referenceIn (options : CompileOptions) (text : List Char) : String :=
  String.ofList (uniqueName options.moduleAlias.toList text)

theorem isPlainIdentifier_moduleAlias (hvalid : options.validate = .ok ()) :
    isPlainIdentifier options.moduleAlias.toList = true := by
  unfold CompileOptions.validate at hvalid
  split at hvalid
  · assumption
  · cases hvalid

theorem isPlainIdentifier_referenceIn (hvalid : options.validate = .ok ()) (text : List Char) :
    isPlainIdentifier (options.referenceIn text).toList = true := by
  rw [CompileOptions.referenceIn, String.toList_ofList]
  exact isPlainIdentifier_uniqueName (isPlainIdentifier_moduleAlias hvalid) text

/-- A text is left as it is, or it is read as a module and lowered. -/
theorem compileText_cases {text : List Char} {out : CompileOutput}
    (hcompile : compileText options text = .ok out) :
    out.code = text ∨ ∃ program, parse (options.settings true) text = .ok program ∧
      out.code = ((ofSource text).recordAll
        (loweringEdits ⟨text, options.referenceIn text⟩ program)).render := by
  unfold compileText at hcompile
  repeat' split at hcompile
  all_goals cases hcompile
  · next program hparse => exact .inr ⟨program, hparse, rfl⟩
  · exact .inl rfl
  · exact .inl rfl

/-- An interpreter line stands ahead of what is left of a source. -/
theorem exists_interpreterLine (source : List Char) :
    ∃ first, source = first ++ withoutInterpreterLine source := by
  unfold withoutInterpreterLine
  split
  · next rest =>
    obtain ⟨first, hfirst⟩ := List.dropWhile_suffix (l := rest) (· != '\n')
    exact ⟨'#' :: '!' :: first, by rw [List.cons_append, List.cons_append, fromLineFeed, hfirst]⟩
  · exact ⟨[], rfl⟩

/-- Whether no edit of a program touches what stands between two offsets. -/
def Untouched (options : CompileOptions) (text : List Char) (start stop : Nat) : Prop :=
  ∀ program, parse (options.settings true) text = .ok program →
    ∀ edit ∈ loweringEdits ⟨text, options.referenceIn text⟩ program,
      edit.span.stop ≤ start ∨ stop ≤ edit.span.start

/-- Whether no line break of a source is among what compiling it takes away: none is part of an
interpreter line, and none stands between `export default` and an expression. -/
structure LosesNoLine (options : CompileOptions) (source : List Char) : Prop where
  interpreter : Edit.lineBreaks (withoutInterpreterLine source) = Edit.lineBreaks source
  defaults : ∀ program, parse (options.settings true) (withoutInterpreterLine source) = .ok program →
    DefaultsOnLine (withoutInterpreterLine source) program

/-- What compiling a source does to its lines. -/
structure Lines (options : CompileOptions) (source code : List Char) : Prop where
  /-- No line is added. -/
  sublist : (Edit.lineBreaks code).Sublist (Edit.lineBreaks source)
  /-- None is lost. -/
  same : LosesNoLine options source → Edit.lineBreaks code = Edit.lineBreaks source
  /-- What no edit touches stays on its line. -/
  place : LosesNoLine options source → ∀ ahead line behind : List Char,
    withoutInterpreterLine source = ahead ++ (line ++ behind) →
    Untouched options (withoutInterpreterLine source) (width ahead) (width (ahead ++ line)) →
    ∃ first front back, source = first ++ (ahead ++ (line ++ behind)) ∧
      code = front ++ (line ++ back) ∧ Edit.lineBreaks front = Edit.lineBreaks (first ++ ahead)

/-- **Lines.** Compiling a source adds no line break, and loses none except with an interpreter line and
behind `export default`, so that what is not rewritten stays on its line. -/
theorem lines_compile {source : List Char} {out : CompileOutput}
    (hcompile : compile options source = .ok out) : Lines options source out.code := by
  have hvalid := validate_of_compile hcompile
  rw [compile_of_validate hvalid] at hcompile
  obtain ⟨first, hfirst⟩ := exists_interpreterLine source
  have hreference := isPlainIdentifier_referenceIn hvalid (withoutInterpreterLine source)
  have hbreaks : Edit.lineBreaks source =
      Edit.lineBreaks first ++ Edit.lineBreaks (withoutInterpreterLine source) := by
    rw [← lineBreaks_append, ← hfirst]
  have hnone (h : LosesNoLine options source) : Edit.lineBreaks first = [] := by
    have hinterpreter := h.interpreter
    rw [hbreaks] at hinterpreter
    exact List.self_eq_append_left.mp hinterpreter
  have hwhole : (Edit.lineBreaks (withoutInterpreterLine source)).Sublist (Edit.lineBreaks source) := by
    rw [hbreaks]
    exact List.sublist_append_right _ _
  generalize htext : withoutInterpreterLine source = text at *
  rcases compileText_cases hcompile with hcode | ⟨program, hparse, hcode⟩
  · rw [hcode]
    refine ⟨hwhole, fun h => ?_, ?_⟩
    · rw [← htext]
      exact h.interpreter
    · intro h ahead line behind hsplit huntouched
      rw [htext] at hsplit
      rw [hsplit] at hfirst
      refine ⟨first, ahead, behind, hfirst, hsplit, ?_⟩
      rw [lineBreaks_append, hnone h, List.nil_append]
  · obtain ⟨edits, hrender, horder, hedits⟩ :=
      @exists_rendered ⟨text, options.referenceIn text⟩ program hreference
        (anchored_of_parse hparse)
    have hfits (edit : Edit) (hedit : edit ∈ edits) : edit.Fits text := (hedits edit hedit).2.1
    have hkeeps (h : LosesNoLine options source) (edit : Edit) (hedit : edit ∈ edits) :
        edit.KeepsLines text := by
      have hdefaults := h.defaults program
      rw [htext] at hdefaults
      exact (hedits edit hedit).2.keepsLines hreference (hdefaults hparse)
    rw [hcode, hrender]
    refine ⟨?_, fun h => ?_, ?_⟩
    · refine List.Sublist.trans ?_ hwhole
      exact @sublist_lineBreaks_splice text edits [] text rfl hfits horder
        fun edit hedit => (hedits edit hedit).2.2.1
    · rw [← h.interpreter, htext]
      exact @lineBreaks_splice text edits [] text rfl hfits horder (hkeeps h)
    · intro h ahead line behind hsplit huntouched
      rw [htext] at hsplit huntouched
      obtain ⟨front, back, hfront, hlines⟩ := exists_copied hsplit hfits horder (hkeeps h)
        fun edit hedit => huntouched program hparse edit (hedits edit hedit).1
      rw [hsplit] at hfirst
      refine ⟨first, front, back, hfirst, hfront, ?_⟩
      rw [lineBreaks_append, hnone h, List.nil_append, hlines]

/-! ### A module on several lines -/

/-- A module whose declarations are written on several lines. -/
def severalLines : List Char :=
  "import \x7b\n  a,\r\n  b\n\x7d from 'm';\nexport default a;\nb();".toList

def severalLinesCompiled : List Char :=
  "let a,b;module.importSync(\"m\",\x7ba(v)\x7ba=v\x7d,b(v)\x7bb=v\x7d\x7d,0);\n\r\n\n\nmodule.exportDefault(a);\nb();".toList

theorem compile_severalLines :
    compile { sourceGoal := .module } severalLines = .ok ⟨severalLinesCompiled, .module⟩ := by
  unfold compile compileText lowerModule
  simp only [EditList.render_recordAll_ofSource]
  decide +kernel

/-- Whether a node exports an expression as the default that does not begin on the same line. -/
def isSplitDefault (source : List Char) (node : Node) : Bool :=
  match node.form, node.parts with
  | .exportDefault, [inner] =>
    !inner.isDeclared && !(Edit.lineBreaks (slice source ⟨node.span.start, inner.span.start⟩)).isEmpty
  | _, _ => false

/-- What no collected node passes, no node that occurs in the tree passes. -/
theorem eq_false_of_collect {test : Node → Bool} {program : Node}
    (htest : ∀ {node : Node} {ambient}, node.form = .namespaceDeclaration ambient → test node = false)
    (h : (collect (fun _ node => if test node then [node] else []) false program).isEmpty = true)
    {node : Node} (hoccurs : node.Occurs program) : test node = false := by
  by_contra hpasses
  rw [Bool.not_eq_false] at hpasses
  obtain ⟨around, hstands⟩ := exists_stands_of_occurs hoccurs false
  have hmem : node ∈ collect (fun _ node => if test node then [node] else []) false program := by
    refine mem_collect_of_stands (fun {_ other ambient} hother => if_neg ?_) hstands ?_
    · simp [htest hother]
    · rw [if_pos hpasses]
      exact List.mem_singleton.mpr rfl
  rw [List.isEmpty_iff.mp h] at hmem
  cases hmem

theorem defaultsOnLine_of_collect {text : List Char} {program : Node}
    (h : (collect (fun _ node => if isSplitDefault text node then [node] else []) false
      program).isEmpty = true) : DefaultsOnLine text program := by
  intro node inner hoccurs hform hparts hdeclared
  have hline := eq_false_of_collect (fun {_ _} hother => by simp [isSplitDefault, hother]) h hoccurs
  simpa [isSplitDefault, hform, hparts, hdeclared] using hline

/-- No line of that module is lost. -/
theorem losesNoLine_severalLines : LosesNoLine { sourceGoal := .module } severalLines := by
  have hbare : withoutInterpreterLine severalLines = severalLines := by decide
  have hchecked : ((parse (CompileOptions.settings { sourceGoal := .module } true)
      severalLines).toOption.all fun program => (collect (fun _ node =>
        if isSplitDefault severalLines node then [node] else []) false program).isEmpty) = true := by
    decide +kernel
  refine ⟨congrArg Edit.lineBreaks hbare, fun program hparse => ?_⟩
  rw [hbare] at hparse ⊢
  rw [hparse] at hchecked
  exact defaultsOnLine_of_collect hchecked

/-- Nothing is rewritten in its last statement. -/
theorem untouched_severalLines :
    Untouched { sourceGoal := .module } severalLines 49 53 := by
  intro program hparse
  have hchecked : ((parse (CompileOptions.settings { sourceGoal := .module } true)
      severalLines).toOption.all fun program =>
        (loweringEdits ⟨severalLines, CompileOptions.referenceIn { sourceGoal := .module } severalLines⟩
          program).all fun edit => decide (edit.span.stop ≤ 49 ∨ 53 ≤ edit.span.start)) = true := by
    decide +kernel
  rw [hparse] at hchecked
  simpa using List.all_eq_true.mp hchecked

/-- Its lines stay, and its last statement stays on its line. -/
theorem lines_severalLines :
    compile { sourceGoal := .module } severalLines = .ok ⟨severalLinesCompiled, .module⟩ ∧
      LosesNoLine { sourceGoal := .module } severalLines ∧
      Edit.lineBreaks severalLinesCompiled = Edit.lineBreaks severalLines ∧
      ∃ first front back, severalLines = first ++ (severalLines.take 49 ++ ("b();".toList ++ [])) ∧
        severalLinesCompiled = front ++ ("b();".toList ++ back) ∧
        Edit.lineBreaks front = Edit.lineBreaks (first ++ severalLines.take 49) := by
  have hlines := lines_compile compile_severalLines
  exact ⟨compile_severalLines, losesNoLine_severalLines, hlines.same losesNoLine_severalLines,
    hlines.place losesNoLine_severalLines (severalLines.take 49) "b();".toList [] (by decide)
      untouched_severalLines⟩

/-! ### Lines that are lost -/

/-- A module whose default expression stands below its `export default`. -/
def defaultBelow : List Char :=
  "export default\nfoo;\nbar();".toList

/-- A script whose interpreter line ends with a carriage return and a line feed. -/
def interpreterReturn : List Char :=
  "#!/bin/x\r\nfoo();".toList

/-- The line break between `export default` and the expression is lost, and so is the carriage return
of the interpreter line. -/
theorem defaultBelow_joined :
    compile { sourceGoal := .module } defaultBelow =
        .ok ⟨"module.exportDefault(foo);\nbar();".toList, .module⟩ ∧
      Edit.lineBreaks defaultBelow = ['\n', '\n'] ∧
      Edit.lineBreaks "module.exportDefault(foo);\nbar();".toList = ['\n'] ∧
      compile {} interpreterReturn = .ok ⟨"\nfoo();".toList, .script⟩ ∧
      Edit.lineBreaks interpreterReturn = ['\r', '\n'] := by
  refine ⟨?_, by decide, by decide, by decide +kernel, by decide⟩
  unfold compile compileText lowerModule
  simp only [EditList.render_recordAll_ofSource]
  decide +kernel

end ModuleLinkage
