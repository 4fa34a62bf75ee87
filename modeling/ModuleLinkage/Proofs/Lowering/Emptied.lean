import ModuleLinkage.Proofs.Lowering.Changes
import ModuleLinkage.Proofs.Lowering.TopLevel
import ModuleLinkage.Proofs.Scope.Resolution

/-!
# What stands in ambient namespaces makes no difference

An ambient namespace describes another module, and nothing in it runs here. A program whose ambient
namespaces are `emptied` therefore has the same module declarations (`programFindings_emptied`) and the
same generated code (`generatedCode_emptied`). Its writes are wrapped wherever those of the program are
(`sublist_programWraps_emptied`); it may have more of them, because a name that is bound in an ambient
namespace inside a default value counts as a parameter.
-/

set_option autoImplicit false

namespace ModuleLinkage.Syntax.Node

/-! ### Emptied namespaces -/

mutual

/-- A tree without the bodies of its ambient namespaces, of which only the names are left. -/
def emptied : Node → Node
  | .mk span form parts =>
    match form with
    | .namespaceDeclaration true => .mk span form (parts.take 1)
    | _ => .mk span form (listEmptied parts)

def listEmptied : List Node → List Node
  | [] => []
  | node :: rest => node.emptied :: listEmptied rest

end

theorem listEmptied_eq (nodes : List Node) : listEmptied nodes = nodes.map emptied := by
  induction nodes with
  | nil => rfl
  | cons node rest ih => rw [listEmptied, ih, List.map_cons]

theorem emptied_mk {form : Form} (hform : form ≠ .namespaceDeclaration true) (span : Text.Span)
    (parts : List Node) : (mk span form parts).emptied = mk span form (parts.map emptied) := by
  unfold emptied
  split
  · exact absurd rfl hform
  · rw [listEmptied_eq]

@[simp] theorem span_emptied (node : Node) : node.emptied.span = node.span := by
  obtain ⟨span, form, parts⟩ := node
  unfold emptied
  split <;> rfl

@[simp] theorem form_emptied (node : Node) : node.emptied.form = node.form := by
  obtain ⟨span, form, parts⟩ := node
  unfold emptied
  split <;> rfl

theorem parts_emptied {node : Node} (hform : node.form ≠ .namespaceDeclaration true) :
    node.emptied.parts = node.parts.map emptied := by
  obtain ⟨span, form, nodes⟩ := node
  exact congrArg parts (emptied_mk hform span nodes)

@[simp] theorem name?_emptied (node : Node) : node.emptied.name? = node.name? := by
  simp only [name?, form_emptied]

@[simp] theorem boundName?_emptied (node : Node) : node.emptied.boundName? = node.boundName? := by
  simp only [boundName?, form_emptied]

/-- What is selected from parts by their forms is the same. -/
theorem findSome?_emptied {α : Type} {select : Node → Option α} (parts : List Node)
    (hselect : ∀ part ∈ parts, select part.emptied = select part) :
    (parts.map emptied).findSome? select = parts.findSome? select := by
  induction parts with
  | nil => rfl
  | cons part rest ih =>
    rw [List.map_cons, List.findSome?_cons, List.findSome?_cons, hselect part (by simp),
      ih fun other hother => hselect other (by simp [hother])]

theorem ownName?_emptied {node : Node} (hform : node.form ≠ .namespaceDeclaration true) :
    node.emptied.ownName? = node.ownName? := by
  rw [ownName?, parts_emptied hform]
  exact findSome?_emptied _ fun part _ => boundName?_emptied part

theorem filterMap_emptied {α : Type} {select : Node → Option α} (parts : List Node)
    (hselect : ∀ part ∈ parts, select part.emptied = select part) :
    (parts.map emptied).filterMap select = parts.filterMap select := by
  rw [List.filterMap_map]
  exact List.filterMap_congr hselect

theorem flatMap_emptied {α : Type} {each : Node → List α} (parts : List Node)
    (heach : ∀ part ∈ parts, each part.emptied = each part) :
    (parts.map emptied).flatMap each = parts.flatMap each := by
  rw [List.flatMap_map]
  exact List.flatMap_congr heach

theorem any_emptied {test : Node → Bool} (parts : List Node)
    (htest : ∀ part ∈ parts, test part.emptied = test part) :
    (parts.map emptied).any test = parts.any test := by
  induction parts with
  | nil => rfl
  | cons part rest ih =>
    rw [List.map_cons, List.any_cons, List.any_cons, htest part (by simp),
      ih fun other hother => htest other (by simp [hother])]

theorem all_emptied {test : Node → Bool} (parts : List Node)
    (htest : ∀ part ∈ parts, test part.emptied = test part) :
    (parts.map emptied).all test = parts.all test := by
  induction parts with
  | nil => rfl
  | cons part rest ih =>
    rw [List.map_cons, List.all_cons, List.all_cons, htest part (by simp),
      ih fun other hother => htest other (by simp [hother])]

end ModuleLinkage.Syntax.Node

namespace ModuleLinkage.Scope

open Syntax Node

/-! ### Names that declarations bind -/

theorem patternNames_emptied (pattern : Node) : patternNames pattern.emptied = patternNames pattern := by
  induction pattern using Node.induction with
  | step span form parts ih =>
    by_cases hform : form = .namespaceDeclaration true
    · subst hform
      rfl
    rw [emptied_mk hform]
    have hall : allPatternNames (parts.map emptied) = allPatternNames parts := by
      rw [allPatternNames_eq, allPatternNames_eq]
      exact flatMap_emptied parts ih
    cases form with
    | objectPattern => simpa only [patternNames] using hall
    | arrayPattern => simpa only [patternNames] using hall
    | propertyPattern =>
      rcases parts with _ | ⟨key, _ | ⟨value, _ | ⟨other, rest⟩⟩⟩
      · rfl
      · rfl
      · simpa only [patternNames, List.map] using ih value (by simp)
      · rfl
    | defaultPattern =>
      rcases parts with _ | ⟨target, rest⟩
      · rfl
      · simpa only [patternNames, List.map] using ih target (by simp)
    | restPattern =>
      rcases parts with _ | ⟨target, _ | ⟨other, rest⟩⟩
      · rfl
      · simpa only [patternNames, List.map] using ih target (by simp)
      · rfl
    | _ => rfl

theorem declaratorNames_emptied (declarator : Node) :
    declaratorNames declarator.emptied = declaratorNames declarator := by
  obtain ⟨span, form, parts⟩ := declarator
  by_cases hform : form = .namespaceDeclaration true
  · subst hform
    rcases parts with _ | ⟨pattern, rest⟩ <;> rfl
  rw [emptied_mk hform]
  rcases parts with _ | ⟨pattern, rest⟩
  · rfl
  · exact patternNames_emptied pattern

theorem variableNames_emptied {declaration : Node}
    (hform : declaration.form ≠ .namespaceDeclaration true) :
    variableNames declaration.emptied = variableNames declaration := by
  rw [variableNames, parts_emptied hform]
  exact flatMap_emptied _ fun declarator _ => declaratorNames_emptied declarator

theorem allErased_eq (statements : List Node) : allErased statements = statements.all isErased := by
  induction statements with
  | nil => rfl
  | cons statement rest ih => rw [allErased, ih, List.all_cons]

theorem isErased_emptied (statement : Node) : isErased statement.emptied = isErased statement := by
  induction statement using Node.induction with
  | step span form parts ih =>
    by_cases hform : form = .namespaceDeclaration true
    · subst hform
      rfl
    rw [emptied_mk hform]
    cases form with
    | exportDeclaration typeOnly =>
      rcases parts with _ | ⟨declaration, _ | ⟨other, rest⟩⟩
      · rfl
      · simpa only [isErased, List.map] using ih declaration (by simp)
      · rfl
    | namespaceDeclaration ambient =>
      cases ambient with
      | true => rfl
      | false =>
        rcases parts with _ | ⟨name, _ | ⟨body, _ | ⟨other, rest⟩⟩⟩
        · rfl
        · rfl
        · simpa only [isErased, List.map] using ih body (by simp)
        · rfl
    | namespaceBody =>
      simp only [isErased, allErased_eq]
      exact all_emptied parts ih
    | _ => rfl

theorem declarationNames_emptied (declaration : Node) :
    declarationNames declaration.emptied = declarationNames declaration := by
  by_cases hform : declaration.form = .namespaceDeclaration true
  · simp only [declarationNames, form_emptied, hform]
  · simp only [declarationNames, form_emptied, variableNames_emptied hform, ownName?_emptied hform,
      isErased_emptied]

/-! ### Names that targets write -/

theorem listTypeReferences_eq (nodes : List Node) :
    listTypeReferences nodes = nodes.flatMap typeReferences := by
  induction nodes with
  | nil => rfl
  | cons node rest ih => rw [listTypeReferences, ih, List.flatMap_cons]

theorem typeReferences_emptied (type : Node) : typeReferences type.emptied = typeReferences type := by
  induction type using Node.induction with
  | step span form parts ih =>
    by_cases hform : form = .namespaceDeclaration true
    · subst hform
      rfl
    rw [emptied_mk hform]
    have hall : listTypeReferences (parts.map emptied) = listTypeReferences parts := by
      rw [listTypeReferences_eq, listTypeReferences_eq]
      exact flatMap_emptied parts ih
    cases form <;> first | rfl | simpa only [typeReferences] using hall

theorem targetNames_emptied (target : Node) : targetNames target.emptied = targetNames target := by
  induction target using Node.induction with
  | step span form parts ih =>
    by_cases hform : form = .namespaceDeclaration true
    · subst hform
      rfl
    rw [emptied_mk hform]
    have hall : allTargetNames (parts.map emptied) = allTargetNames parts := by
      rw [allTargetNames_eq, allTargetNames_eq]
      exact flatMap_emptied parts ih
    cases form with
    | objectTarget => simpa only [targetNames] using hall
    | arrayTarget => simpa only [targetNames] using hall
    | propertyTarget =>
      rcases parts with _ | ⟨key, _ | ⟨value, _ | ⟨other, rest⟩⟩⟩
      · rfl
      · rfl
      · simpa only [targetNames, List.map] using ih value (by simp)
      · rfl
    | shorthandTarget =>
      rcases parts with _ | ⟨reference, rest⟩
      · rfl
      · simpa only [targetNames, List.map] using ih reference (by simp)
    | defaultTarget =>
      rcases parts with _ | ⟨inner, rest⟩
      · rfl
      · simpa only [targetNames, List.map] using ih inner (by simp)
    | restTarget =>
      rcases parts with _ | ⟨inner, _ | ⟨other, rest⟩⟩
      · rfl
      · simpa only [targetNames, List.map] using ih inner (by simp)
      · rfl
    | cast =>
      rcases parts with _ | ⟨operand, _ | ⟨type, _ | ⟨other, rest⟩⟩⟩
      · rfl
      · rfl
      · simpa only [targetNames, List.map] using typeReferences_emptied type
      · rfl
    | _ => rfl

theorem writtenNames_emptied (node : Node) : writtenNames node.emptied = writtenNames node := by
  obtain ⟨span, form, parts⟩ := node
  by_cases hform : form = .namespaceDeclaration true
  · subst hform
    rfl
  rw [emptied_mk hform]
  cases form with
  | assignment operator =>
    rcases parts with _ | ⟨target, rest⟩
    · rfl
    · exact targetNames_emptied target
  | update operator =>
    rcases parts with _ | ⟨target, rest⟩
    · rfl
    · exact targetNames_emptied target
  | _ => rfl

/-! ### Names that scopes own -/

theorem lexicalNames_emptied (statement : Node) :
    lexicalNames statement.emptied = lexicalNames statement := by
  by_cases hform : statement.form = .namespaceDeclaration true
  · simp only [lexicalNames, form_emptied, hform]
  · simp only [lexicalNames, form_emptied, variableNames_emptied hform, ownName?_emptied hform]

theorem blockNames_emptied (statements : List Node) :
    blockNames (statements.map emptied) = blockNames statements :=
  flatMap_emptied statements fun statement _ => lexicalNames_emptied statement

theorem varNames_emptied (node : Node) : varNames node.emptied = varNames node := by
  induction node using Node.induction with
  | step span form parts ih =>
    by_cases hform : form = .namespaceDeclaration true
    · subst hform
      rfl
    have hall : listVarNames (parts.map emptied) = listVarNames parts := by
      rw [listVarNames_eq, listVarNames_eq]
      exact flatMap_emptied parts ih
    have hvariables := @variableNames_emptied (.mk span form parts) hform
    rw [emptied_mk hform] at hvariables ⊢
    cases form with
    | variableDeclaration kind ambient =>
      cases kind with
      | var => simpa only [varNames] using hvariables
      | _ => rfl
    | _ => first | rfl | simpa only [varNames] using hall

theorem functionNames_emptied (statements : List Node) :
    functionNames (statements.map emptied) = functionNames statements := by
  rw [functionNames, functionNames, blockNames_emptied, listVarNames_eq, listVarNames_eq,
    flatMap_emptied statements fun statement _ => varNames_emptied statement]

theorem subset_of_names_eq {names names' : List String} (heq : names = names') : names ⊆ names' :=
  heq ▸ List.Subset.refl _

theorem append_names_subset {names names' others others' : List String} (hnames : names ⊆ names')
    (hothers : others ⊆ others') : names ++ others ⊆ names' ++ others' :=
  List.append_subset_of_subset_of_subset (List.subset_append_of_subset_left _ hnames)
    (List.subset_append_of_subset_right _ hothers)

/-- Bindings in ambient namespaces count among those of a default value around them. -/
theorem bindingNames_emptied_subset (node : Node) : bindingNames node.emptied ⊆ bindingNames node := by
  induction node using Node.induction with
  | step span form parts ih =>
    have hsubset {nodes : List Node} (hnodes : nodes ⊆ parts) :
        listBindingNames nodes ⊆ listBindingNames parts := by
      rw [listBindingNames_eq, listBindingNames_eq]
      intro name hname
      obtain ⟨part, hpart, hname⟩ := List.mem_flatMap.mp hname
      exact List.mem_flatMap.mpr ⟨part, hnodes hpart, hname⟩
    by_cases hform : form = .namespaceDeclaration true
    · subst hform
      exact hsubset (List.take_subset 1 parts)
    rw [emptied_mk hform]
    have hall : listBindingNames (parts.map emptied) ⊆ listBindingNames parts := by
      rw [listBindingNames_eq, listBindingNames_eq, List.flatMap_map]
      intro name hname
      obtain ⟨part, hpart, hname⟩ := List.mem_flatMap.mp hname
      exact List.mem_flatMap.mpr ⟨part, hpart, ih part hpart hname⟩
    cases form with
    | binding name => exact List.cons_subset_cons name hall
    | _ => exact hall

theorem functionPartNames_emptied_subset (part : Node) :
    functionPartNames part.emptied ⊆ functionPartNames part := by
  obtain ⟨span, form, parts⟩ := part
  by_cases hform : form = .namespaceDeclaration true
  · subst hform
    exact List.Subset.refl _
  rw [emptied_mk hform]
  cases form with
  | parameters =>
    change listBindingNames ((parts.map emptied).filter _) ⊆ listBindingNames (parts.filter _)
    rw [List.filter_map, listBindingNames_eq, listBindingNames_eq, List.flatMap_map]
    intro name hname
    obtain ⟨parameter, hparameter, hname⟩ := List.mem_flatMap.mp hname
    refine List.mem_flatMap.mpr ⟨parameter, ?_, bindingNames_emptied_subset parameter hname⟩
    simpa [isThisParameter] using hparameter
  | body => exact subset_of_names_eq (functionNames_emptied parts)
  | _ => exact List.Subset.refl _

theorem caseNames_emptied (part : Node) : caseNames part.emptied = caseNames part := by
  obtain ⟨span, form, parts⟩ := part
  by_cases hform : form = .namespaceDeclaration true
  · subst hform
    rfl
  rw [emptied_mk hform]
  cases form with
  | switchCase =>
    rcases parts with _ | ⟨test, statements⟩
    · rfl
    · exact blockNames_emptied statements
  | defaultCase => exact blockNames_emptied parts
  | _ => rfl

theorem headNames_emptied (part : Node) : headNames part.emptied = headNames part := by
  obtain ⟨span, form, parts⟩ := part
  have hlexical := lexicalNames_emptied (.mk span form parts)
  by_cases hform : form = .namespaceDeclaration true
  · subst hform
    rfl
  rw [emptied_mk hform] at hlexical ⊢
  cases form with
  | loopStart =>
    rcases parts with _ | ⟨declaration, _ | ⟨other, rest⟩⟩
    · rfl
    · exact lexicalNames_emptied declaration
    · rfl
  | variableDeclaration kind ambient => exact hlexical
  | _ => rfl

theorem loopNames_emptied (parts : List Node) : loopNames (parts.map emptied) = loopNames parts := by
  rcases parts with _ | ⟨first, rest⟩
  · rfl
  · exact headNames_emptied first

theorem memberNames_emptied (statement : Node) :
    memberNames statement.emptied = memberNames statement := by
  obtain ⟨span, form, parts⟩ := statement
  by_cases hform : form = .namespaceDeclaration true
  · subst hform
    rfl
  rw [emptied_mk hform]
  cases form with
  | exportDeclaration typeOnly =>
    rcases parts with _ | ⟨declaration, _ | ⟨other, rest⟩⟩
    · rfl
    · exact declarationNames_emptied declaration
    · rfl
  | _ => rfl

theorem namespacePartNames_emptied (part : Node) :
    namespacePartNames part.emptied = namespacePartNames part := by
  obtain ⟨span, form, parts⟩ := part
  by_cases hform : form = .namespaceDeclaration true
  · subst hform
    rfl
  rw [emptied_mk hform]
  cases form with
  | namespaceBody =>
    change functionNames (parts.map emptied) ++ (parts.map emptied).flatMap memberNames = _
    rw [functionNames_emptied, flatMap_emptied parts fun statement _ => memberNames_emptied statement]
    rfl
  | _ => rfl

/-- A scope of an emptied tree owns no name that it does not own in the tree. -/
theorem scopeNames_emptied_subset (node : Node) : scopeNames node.emptied ⊆ scopeNames node := by
  obtain ⟨span, form, parts⟩ := node
  by_cases hform : form = .namespaceDeclaration true
  · subst hform
    exact List.Subset.refl _
  have hown := @ownName?_emptied (.mk span form parts) hform
  have hfunction : (parts.map emptied).flatMap functionPartNames ⊆ parts.flatMap functionPartNames := by
    rw [List.flatMap_map]
    intro name hname
    obtain ⟨part, hpart, hname⟩ := List.mem_flatMap.mp hname
    exact List.mem_flatMap.mpr ⟨part, hpart, functionPartNames_emptied_subset part hname⟩
  rw [emptied_mk hform] at hown ⊢
  cases form with
  | function style ambient =>
    cases style with
    | declaration => exact hfunction
    | expression =>
      change (Node.mk span _ (parts.map emptied)).ownName?.toList ++ _ ⊆ _
      rw [hown]
      exact append_names_subset (List.Subset.refl _) hfunction
  | arrow => exact hfunction
  | block => exact subset_of_names_eq (blockNames_emptied parts)
  | switchStatement =>
    exact subset_of_names_eq (flatMap_emptied parts fun part _ => caseNames_emptied part)
  | forLoop | forInLoop | forOfLoop => exact subset_of_names_eq (loopNames_emptied parts)
  | catchClause =>
    rcases parts with _ | ⟨⟨span, form, patterns⟩, rest⟩
    · exact List.Subset.refl _
    · by_cases hparameter : form = .namespaceDeclaration true
      · subst hparameter
        exact List.Subset.refl _
      rw [List.map_cons, emptied_mk hparameter]
      cases form with
      | catchParameter =>
        rcases patterns with _ | ⟨pattern, others⟩
        · exact List.Subset.refl _
        · exact subset_of_names_eq (patternNames_emptied pattern)
      | _ => exact List.Subset.refl _
  | namespaceDeclaration ambient =>
    cases ambient with
    | true => exact absurd rfl hform
    | false =>
      exact subset_of_names_eq (flatMap_emptied parts fun part _ => namespacePartNames_emptied part)
  | _ => exact List.Subset.refl _

end ModuleLinkage.Scope

namespace ModuleLinkage.Lowering

open Syntax Node

/-! ### Writes -/

theorem writesExport_mono {exported shadowed shadowed' names : List String}
    (hsubset : shadowed' ⊆ shadowed) (hwrites : writesExport exported shadowed names = true) :
    writesExport exported shadowed' names = true := by
  simp only [writesExport, List.any_eq_true, Bool.and_eq_true, Bool.not_eq_true',
    List.contains_eq_mem, decide_eq_true_eq, decide_eq_false_iff_not] at hwrites ⊢
  obtain ⟨name, hname, hexported, hfree⟩ := hwrites
  exact ⟨name, hname, hexported, fun hmem => hfree (hsubset hmem)⟩

/-- **Writes.** What stands in ambient namespaces adds no wrapped write. -/
theorem sublist_wraps_emptied (reference : String) (exported : List String)
    {shadowed shadowed' : List String} (hsubset : shadowed' ⊆ shadowed) (node : Node) :
    (wraps reference exported shadowed node).Sublist
      (wraps reference exported shadowed' node.emptied) := by
  induction node using Node.induction generalizing shadowed shadowed' with
  | step span form parts ih =>
    by_cases hform : form = .namespaceDeclaration true
    · subst hform
      exact List.Sublist.refl _
    have hscope := Scope.scopeNames_emptied_subset (.mk span form parts)
    have hwritten := Scope.writtenNames_emptied (.mk span form parts)
    rw [emptied_mk hform] at hscope hwritten ⊢
    rw [@wraps_eq (.mk span form parts) hform,
      @wraps_eq (.mk span form (parts.map emptied)) hform]
    refine List.Sublist.append ?_ ?_
    · rw [listWraps_eq, listWraps_eq]
      dsimp only [parts_mk]
      rw [List.flatMap_map]
      exact List.Sublist.flatMap_right _ fun part hpart =>
        ih part hpart (Scope.append_names_subset hscope hsubset)
    · unfold ownWraps
      rw [hwritten]
      split
      · next hwrites =>
        rw [if_pos (writesExport_mono hsubset hwrites)]
        exact List.Sublist.refl _
      · exact List.nil_sublist _

/-! ### Module declarations -/

variable {subject : Subject}

theorem importedPair?_emptied (specifier : Node) :
    importedPair? specifier.emptied = importedPair? specifier := by
  obtain ⟨span, form, parts⟩ := specifier
  by_cases hform : form = .namespaceDeclaration true
  · subst hform
    rfl
  rw [emptied_mk hform]
  cases form with
  | importDefault =>
    rcases parts with _ | ⟨binding, _ | ⟨other, rest⟩⟩
    · rfl
    · simp only [importedPair?, form_mk, parts_mk, List.map, name?_emptied]
    · rfl
  | importName typeOnly =>
    cases typeOnly with
    | true => rfl
    | false =>
      rcases parts with _ | ⟨imported, _ | ⟨binding, _ | ⟨other, rest⟩⟩⟩
      · rfl
      · rfl
      · simp only [importedPair?, form_mk, parts_mk, List.map, name?_emptied]
      · rfl
  | _ => rfl

theorem importedNamespace?_emptied (specifier : Node) :
    importedNamespace? specifier.emptied = importedNamespace? specifier := by
  obtain ⟨span, form, parts⟩ := specifier
  by_cases hform : form = .namespaceDeclaration true
  · subst hform
    rfl
  rw [emptied_mk hform]
  cases form with
  | importNamespace =>
    rcases parts with _ | ⟨binding, _ | ⟨other, rest⟩⟩
    · rfl
    · simp only [importedNamespace?, form_mk, parts_mk, List.map, name?_emptied]
    · rfl
  | _ => rfl

theorem importsType_emptied (specifier : Node) :
    importsType specifier.emptied = importsType specifier := by
  simp only [importsType, form_emptied]

theorem exportedPair?_emptied (item : Node) : exportedPair? item.emptied = exportedPair? item := by
  obtain ⟨span, form, parts⟩ := item
  by_cases hform : form = .namespaceDeclaration true
  · subst hform
    rfl
  rw [emptied_mk hform]
  cases form with
  | exportName typeOnly =>
    cases typeOnly with
    | true => rfl
    | false =>
      rcases parts with _ | ⟨inner, _ | ⟨exported, _ | ⟨other, rest⟩⟩⟩
      · rfl
      · rfl
      · simp only [exportedPair?, form_mk, parts_mk, List.map, name?_emptied]
      · rfl
  | _ => rfl

section Declarations

variable {declaration : Node} (hform : declaration.form ≠ .namespaceDeclaration true)

include hform

theorem specifier?_emptied : specifier? declaration.emptied = specifier? declaration := by
  unfold specifier? partBy?
  rw [parts_emptied hform]
  exact findSome?_emptied _ fun part _ => by rw [form_emptied]

theorem importRequest?_emptied : importRequest? declaration.emptied = importRequest? declaration := by
  have hnames := filterMap_emptied declaration.parts fun part _ => importedPair?_emptied part
  have hnamespaces := filterMap_emptied declaration.parts fun part _ => importedNamespace?_emptied part
  have htypes := any_emptied declaration.parts fun part _ => importsType_emptied part
  simp only [importRequest?, parts_emptied hform, hnames, hnamespaces, htypes,
    specifier?_emptied hform, span_emptied]

theorem exportListFindings_emptied :
    exportListFindings declaration.emptied = exportListFindings declaration := by
  have hpairs := filterMap_emptied declaration.parts fun part _ => exportedPair?_emptied part
  simp only [exportListFindings, parts_emptied hform, hpairs, specifier?_emptied hform, span_emptied]

theorem exportAllUse_emptied : exportAllUse declaration.emptied = exportAllUse declaration := by
  unfold exportAllUse
  rw [parts_emptied hform]
  rcases declaration.parts with _ | ⟨first, rest⟩
  · rfl
  · simp only [List.map_cons, form_emptied, name?_emptied]

theorem functionNameOffset_emptied :
    functionNameOffset declaration.emptied = functionNameOffset declaration := by
  simp only [functionNameOffset, parts_emptied hform, List.find?_map, Function.comp_def,
    form_emptied, Option.map_map, span_emptied]

theorem classNameOffset_emptied :
    classNameOffset subject declaration.emptied = classNameOffset subject declaration := by
  simp only [classNameOffset, parts_emptied hform, List.filter_map, Function.comp_def, form_emptied,
    List.getLast?_map, Option.map_map, span_emptied]

theorem exportDefaultFindings_emptied :
    exportDefaultFindings subject declaration.emptied = exportDefaultFindings subject declaration := by
  unfold exportDefaultFindings
  rw [parts_emptied hform, span_emptied]
  rcases declaration.parts with _ | ⟨inner, _ | ⟨other, rest⟩⟩
  · rfl
  · by_cases hinner : inner.form = .namespaceDeclaration true
    · simp only [List.map, form_emptied, hinner, span_emptied]
    · simp only [List.map, form_emptied, span_emptied, ownName?_emptied hinner,
        functionNameOffset_emptied hinner, classNameOffset_emptied hinner]
  · rfl

end Declarations

theorem declaredExports_emptied (declaration : Node) :
    declaredExports declaration.emptied = declaredExports declaration := by
  rw [declaredExports, Scope.declarationNames_emptied, declaredExports]

theorem nodeFindings_emptied (inNamespace : Bool) (node : Node) :
    nodeFindings subject inNamespace node.emptied = nodeFindings subject inNamespace node := by
  by_cases hform : node.form = .namespaceDeclaration true
  · simp only [nodeFindings, form_emptied, hform]
  have hparts := parts_emptied hform
  unfold nodeFindings
  rw [form_emptied, span_emptied, importRequest?_emptied hform, specifier?_emptied hform,
    exportAllUse_emptied hform, exportListFindings_emptied hform, exportDefaultFindings_emptied hform,
    hparts]
  cases node.form with
  | exportDeclaration typeOnly =>
    rcases node.parts with _ | ⟨declaration, _ | ⟨other, rest⟩⟩
    · rfl
    · simp only [List.map, span_emptied, declaredExports_emptied]
    · rfl
  | importDeclaration typeOnly => cases typeOnly <;> rfl
  | exportAll typeOnly => cases typeOnly <;> rfl
  | _ => rfl

/-- What is collected from the nodes of a program is collected from the emptied one as well. -/
theorem collect_emptied {α : Type} {own : Bool → Node → List α}
    (hown : ∀ inside node, own inside node.emptied = own inside node) (inNamespace : Bool)
    (node : Node) : collect own inNamespace node.emptied = collect own inNamespace node := by
  induction node using Node.induction generalizing inNamespace with
  | step span form parts ih =>
    have hparts (inside : Bool) :
        listCollect own inside (parts.map emptied) = listCollect own inside parts := by
      rw [listCollect_eq, listCollect_eq]
      exact flatMap_emptied parts fun part hpart => ih part hpart inside
    have hself := hown inNamespace (.mk span form parts)
    by_cases hform : form = .namespaceDeclaration true
    · subst hform
      rfl
    rw [emptied_mk hform] at hself ⊢
    unfold collect
    split
    · rfl
    · exact hparts true
    · rw [hself, hparts]

/-- **Module declarations.** Nothing is done about what stands in ambient namespaces. -/
theorem programFindings_emptied (program : Node) :
    programFindings subject program.emptied = programFindings subject program := by
  rw [programFindings, programFindings, findings_eq_collect, findings_eq_collect]
  exact collect_emptied nodeFindings_emptied false program

/-! ### The generated code -/

theorem topLevelVariables_emptied {program : Node} (hform : program.form = .program) :
    topLevelVariables program.emptied = (topLevelVariables program).map emptied := by
  rw [topLevelVariables, parts_emptied (by simp [hform]), List.filterMap_map, topLevelVariables,
    List.map_filterMap]
  refine List.filterMap_congr fun statement _ => ?_
  obtain ⟨span, form, parts⟩ := statement
  by_cases hform : form = .namespaceDeclaration true
  · subst hform
    rfl
  rw [Function.comp_apply, emptied_mk hform]
  cases form with
  | variableDeclaration kind ambient => simp only [form_mk, Option.map_some, emptied_mk hform]
  | exportDeclaration typeOnly =>
    rcases parts with _ | ⟨declaration, _ | ⟨other, rest⟩⟩
    · rfl
    · simp only [form_mk, parts_mk, List.map, form_emptied]
      split <;> rfl
    · rfl
  | _ => rfl

theorem constantNames_emptied {program : Node} (hform : program.form = .program) :
    constantNames program.emptied = constantNames program := by
  rw [constantNames, topLevelVariables_emptied hform, List.flatMap_map, constantNames]
  refine List.flatMap_congr fun declaration hdeclaration => ?_
  have hnamespace : declaration.form ≠ .namespaceDeclaration true := by
    intro hform
    obtain ⟨statement, -, hsome⟩ := List.mem_filterMap.mp hdeclaration
    split at hsome
    · next hstatement =>
      obtain rfl := Option.some.inj hsome
      cases hform.symm.trans hstatement
    · split at hsome
      · next hinner =>
        obtain rfl := Option.some.inj hsome
        cases hform.symm.trans hinner
      · cases hsome
    · cases hsome
  have hconstant : isConstant declaration.emptied = isConstant declaration := by
    simp only [isConstant, form_emptied]
  rw [hconstant, Scope.variableNames_emptied hnamespace]

/-- **Generated code.** What stands in ambient namespaces adds nothing to it. -/
theorem generatedCode_emptied {program : Node} (hform : program.form = .program) :
    generatedCode subject program.emptied = generatedCode subject program := by
  simp only [generatedCode, programExports, programRequests, programFindings_emptied,
    constantNames_emptied hform]

/-- What stands in ambient namespaces adds no wrapped write to those of a program. -/
theorem sublist_programWraps_emptied (subject : Subject) (program : Node) :
    (programWraps subject.reference (exportedVariables subject program) program).Sublist
      (programWraps subject.reference (exportedVariables subject program.emptied)
        program.emptied) := by
  rw [show exportedVariables subject program.emptied = exportedVariables subject program by
    simp only [exportedVariables, programFindings_emptied]]
  exact sublist_wraps_emptied _ _ (List.Subset.refl _) program

end ModuleLinkage.Lowering
