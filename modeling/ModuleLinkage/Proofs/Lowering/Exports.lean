import ModuleLinkage.Proofs.Lowering.TopLevel
import Mathlib.Data.List.Flatten

/-!
# The exports that are registered

Which names a program exports from its own scope is told by its statements (`Exports`): the names
that exported declarations bind, through patterns nested to any depth, the pairs of lists of exports
without a source, and a default name for a function or class. What is registered for a statement is
just that (`mem_ownExports_iff`). A variable is constant if it is bound by a declaration of constants at
the top level, wherever that stands (`BindsConstant`).
-/

set_option autoImplicit false

namespace ModuleLinkage.Scope

open Syntax

/-! ### Names that are bound -/

/-- A pattern binds a name. -/
inductive PatternBinds (name : String) : Node → Prop
  | named {node : Node} (hform : node.form = .binding name) : PatternBinds name node
  | inObject {node part : Node} (hform : node.form = .objectPattern) (hpart : part ∈ node.parts)
      (hbinds : PatternBinds name part) : PatternBinds name node
  | inArray {node part : Node} (hform : node.form = .arrayPattern) (hpart : part ∈ node.parts)
      (hbinds : PatternBinds name part) : PatternBinds name node
  | property {node key value : Node} (hform : node.form = .propertyPattern)
      (hparts : node.parts = [key, value]) (hbinds : PatternBinds name value) :
      PatternBinds name node
  | withDefault {node target : Node} {rest : List Node} (hform : node.form = .defaultPattern)
      (hparts : node.parts = target :: rest) (hbinds : PatternBinds name target) :
      PatternBinds name node
  | remaining {node target : Node} (hform : node.form = .restPattern)
      (hparts : node.parts = [target]) (hbinds : PatternBinds name target) :
      PatternBinds name node

theorem mem_patternNames_iff {name : String} {pattern : Node} :
    name ∈ patternNames pattern ↔ PatternBinds name pattern := by
  constructor
  · intro hmem
    induction pattern using Node.induction with
    | step span form parts ih =>
      unfold patternNames at hmem
      split at hmem
      · obtain rfl := List.mem_singleton.mp hmem
        exact .named rfl
      · rw [allPatternNames_eq, List.mem_flatMap] at hmem
        obtain ⟨part, hpart, hmem⟩ := hmem
        exact .inObject rfl hpart (ih part hpart hmem)
      · rw [allPatternNames_eq, List.mem_flatMap] at hmem
        obtain ⟨part, hpart, hmem⟩ := hmem
        exact .inArray rfl hpart (ih part hpart hmem)
      · exact .property rfl rfl (ih _ (by simp) hmem)
      · exact .withDefault rfl rfl (ih _ (by simp) hmem)
      · exact .remaining rfl rfl (ih _ (by simp) hmem)
      · cases hmem
  · intro hbinds
    induction hbinds with
    | @named node hform =>
      obtain ⟨span, form, parts⟩ := node
      obtain rfl : form = _ := hform
      simp [patternNames]
    | @inObject node part hform hpart _ ih =>
      obtain ⟨span, form, parts⟩ := node
      obtain rfl : form = _ := hform
      rw [patternNames, allPatternNames_eq, List.mem_flatMap]
      exact ⟨part, hpart, ih⟩
    | @inArray node part hform hpart _ ih =>
      obtain ⟨span, form, parts⟩ := node
      obtain rfl : form = _ := hform
      rw [patternNames, allPatternNames_eq, List.mem_flatMap]
      exact ⟨part, hpart, ih⟩
    | @property node key value hform hparts _ ih =>
      obtain ⟨span, form, parts⟩ := node
      obtain rfl : form = _ := hform
      obtain rfl : parts = _ := hparts
      rw [patternNames]
      exact ih
    | @withDefault node target rest hform hparts _ ih =>
      obtain ⟨span, form, parts⟩ := node
      obtain rfl : form = _ := hform
      obtain rfl : parts = _ := hparts
      rw [patternNames]
      exact ih
    | @remaining node target hform hparts _ ih =>
      obtain ⟨span, form, parts⟩ := node
      obtain rfl : form = _ := hform
      obtain rfl : parts = _ := hparts
      rw [patternNames]
      exact ih

/-- One of the declarators of a declaration of variables binds a name. -/
def VariableBinds (name : String) (declaration : Node) : Prop :=
  ∃ declarator ∈ declaration.parts, ∃ pattern rest,
    declarator.parts = pattern :: rest ∧ PatternBinds name pattern

theorem mem_variableNames_iff {name : String} {declaration : Node} :
    name ∈ variableNames declaration ↔ VariableBinds name declaration := by
  unfold variableNames VariableBinds
  rw [List.mem_flatMap]
  refine exists_congr fun declarator => and_congr_right fun _ => ?_
  unfold declaratorNames
  rcases declarator.parts with _ | ⟨pattern, rest⟩
  · simp
  · rw [mem_patternNames_iff]
    constructor
    · exact fun hbinds => ⟨pattern, rest, rfl, hbinds⟩
    · rintro ⟨_, _, heq, hbinds⟩
      obtain ⟨rfl, rfl⟩ := List.cons.inj heq
      exact hbinds

/-- A declaration introduces a name at run time. -/
inductive Declares (name : String) (declaration : Node) : Prop
  | binding {kind : VariableKind} (hform : declaration.form = .variableDeclaration kind false)
      (hbinds : VariableBinds name declaration)
  | function {style : DefinitionStyle} (hform : declaration.form = .function style false)
      (hname : declaration.ownName? = some name)
  | classDefinition {style : DefinitionStyle} (hform : declaration.form = .classDefinition style false)
      (hname : declaration.ownName? = some name)
  /-- An enumeration of the typed grammar. -/
  | enumeration (hform : declaration.form = .enumeration false)
      (hname : declaration.ownName? = some name)
  /-- A namespace of the typed grammar that holds more than types. -/
  | namespaceDeclaration (hform : declaration.form = .namespaceDeclaration false)
      (hkept : isErased declaration = false) (hname : declaration.ownName? = some name)

theorem mem_declarationNames_iff {name : String} {declaration : Node} :
    name ∈ declarationNames declaration ↔ Declares name declaration := by
  constructor
  · intro hmem
    unfold declarationNames at hmem
    split at hmem
    · next hform => exact .binding hform (mem_variableNames_iff.mp hmem)
    · next hform => exact .function hform (Option.mem_toList.mp hmem)
    · next hform => exact .classDefinition hform (Option.mem_toList.mp hmem)
    · next hform => exact .enumeration hform (Option.mem_toList.mp hmem)
    · next hform =>
      split at hmem
      · cases hmem
      · next hkept =>
        exact .namespaceDeclaration hform (by simpa using hkept) (Option.mem_toList.mp hmem)
    · cases hmem
  · intro hdeclares
    unfold declarationNames
    cases hdeclares with
    | binding hform hbinds =>
      rw [hform]
      exact mem_variableNames_iff.mpr hbinds
    | function hform hname =>
      rw [hform]
      exact Option.mem_toList.mpr hname
    | classDefinition hform hname =>
      rw [hform]
      exact Option.mem_toList.mpr hname
    | enumeration hform hname =>
      rw [hform]
      exact Option.mem_toList.mpr hname
    | namespaceDeclaration hform hkept hname =>
      rw [hform]
      dsimp only
      rw [hkept, if_neg Bool.false_ne_true]
      exact Option.mem_toList.mpr hname

end ModuleLinkage.Scope

namespace ModuleLinkage.Lowering

open Syntax Text Scope

variable {subject : Subject}

/-! ### What the statements of a program export -/

/-- A statement exports a variable of the program. An export from another module, and an expression
that is exported as the default, export none. -/
inductive Exports (subject : Subject) (statement : Node) : Export → Prop
  | declaration {declaration : Node} {name : String}
      (hform : statement.form = .exportDeclaration false) (hparts : statement.parts = [declaration])
      (hdeclares : Declares name declaration) : Exports subject statement ⟨name, name⟩
  | list {item inner outer : Node} {localName exported : String}
      (hform : statement.form = .exportNames false) (hsource : specifier? statement = none)
      (hitem : item ∈ statement.parts) (hitemForm : item.form = .exportName false)
      (hitemParts : item.parts = [inner, outer]) (hlocal : inner.name? = some localName)
      (hexported : outer.name? = some exported) : Exports subject statement ⟨exported, localName⟩
  | namedDefault {inner : Node} {ambient : Bool} {name : String}
      (hform : statement.form = .exportDefault) (hparts : statement.parts = [inner])
      (hinner : inner.form = .function .declaration ambient ∨
        inner.form = .classDefinition .declaration ambient)
      (hname : inner.ownName? = some name) : Exports subject statement ⟨"default", name⟩
  /-- A function or class without a name gets one. -/
  | anonymousDefault {inner : Node} {ambient : Bool}
      (hform : statement.form = .exportDefault) (hparts : statement.parts = [inner])
      (hinner : inner.form = .function .declaration ambient ∨
        inner.form = .classDefinition .declaration ambient)
      (hname : inner.ownName? = none) :
      Exports subject statement ⟨"default", String.ofList (defaultName subject)⟩

theorem mem_exportedPairs_iff {declaration : Node} {localName exported : String} :
    (localName, exported) ∈ declaration.parts.filterMap exportedPair? ↔
      ∃ item ∈ declaration.parts, item.form = .exportName false ∧ ∃ inner outer : Node,
        item.parts = [inner, outer] ∧ inner.name? = some localName ∧
          outer.name? = some exported := by
  rw [List.mem_filterMap]
  refine exists_congr fun item => and_congr_right fun _ => ?_
  unfold exportedPair?
  constructor
  · intro hpair
    split at hpair
    · next inner outer hform hparts =>
      refine ⟨hform, inner, outer, hparts, ?_⟩
      cases hlocal : inner.name? <;> cases hexported : outer.name? <;> simp_all
    · cases hpair
  · rintro ⟨hform, inner, outer, hparts, hlocal, hexported⟩
    simp [hform, hparts, hlocal, hexported]

/-- The variable that a default export leaves. -/
def defaultVariable? (subject : Subject) (inner : Node) : Option String :=
  match inner.form with
  | .function .declaration _ | .classDefinition .declaration _ =>
    some (inner.ownName?.getD (String.ofList (defaultName subject)))
  | _ => none

theorem exists_of_defaultVariable? {inner : Node} {name : String}
    (h : defaultVariable? subject inner = some name) :
    ∃ ambient, (inner.form = .function .declaration ambient ∨
        inner.form = .classDefinition .declaration ambient) ∧
      name = inner.ownName?.getD (String.ofList (defaultName subject)) := by
  unfold defaultVariable? at h
  split at h
  · next ambient hform => exact ⟨ambient, .inl hform, (Option.some.inj h).symm⟩
  · next ambient hform => exact ⟨ambient, .inr hform, (Option.some.inj h).symm⟩
  · cases h

/-- What a statement registers, by its form. -/
def statementExports (subject : Subject) (statement : Node) : List Export :=
  match statement.form, statement.parts with
  | .exportDeclaration false, [declaration] =>
    (declarationNames declaration).map fun name => ⟨name, name⟩
  | .exportNames false, parts =>
    if specifier? statement = none then
      (parts.filterMap exportedPair?).map fun pair => ⟨pair.2, pair.1⟩
    else []
  | .exportDefault, [inner] => (defaultVariable? subject inner).toList.map (⟨"default", ·⟩)
  | _, _ => []

theorem exports_exportDefaultFindings {statement inner : Node} (hparts : statement.parts = [inner]) :
    (exportDefaultFindings subject statement).filterMap Finding.export? =
      (defaultVariable? subject inner).toList.map (⟨"default", ·⟩) := by
  unfold exportDefaultFindings defaultVariable?
  rw [hparts]
  dsimp only
  cases inner.form with
  | function style ambient =>
    cases style with
    | declaration => cases inner.ownName? <;> rfl
    | expression => rfl
  | classDefinition style ambient =>
    cases style with
    | declaration => cases inner.ownName? <;> rfl
    | expression => rfl
  | _ => rfl

theorem exports_register {α : Type} (item : α → Export) (values : List α) :
    (values.map fun value => Finding.register (item value)).filterMap Finding.export? =
      values.map item := by
  induction values with
  | nil => rfl
  | cons value rest ih => exact congrArg (item value :: ·) ih

theorem exports_demand {α : Type} (request : α → Request) (item : Option α) :
    (item.map fun value => Finding.demand (request value)).toList.filterMap Finding.export? =
      [] := by
  cases item <;> rfl

theorem exports_exportListFindings (statement : Node) :
    (exportListFindings statement).filterMap Finding.export? =
      if specifier? statement = none then
        (statement.parts.filterMap exportedPair?).map fun pair => ⟨pair.2, pair.1⟩
      else [] := by
  unfold exportListFindings
  cases specifier? statement with
  | none =>
    rw [if_pos rfl]
    exact exports_register (fun pair : String × String => ⟨pair.2, pair.1⟩) _
  | some specifier =>
    rw [if_neg (Option.some_ne_none _)]
    dsimp only
    split <;> rfl

theorem ownExports_eq (subject : Subject) (statement : Node) :
    ownExports subject statement = statementExports subject statement := by
  obtain ⟨span, form, parts⟩ := statement
  cases form with
  | importDeclaration typeOnly =>
    cases typeOnly with
    | true => rfl
    | false => exact exports_demand id _
  | exportDeclaration typeOnly =>
    rcases parts with _ | ⟨declaration, _ | ⟨second, rest⟩⟩
    · cases typeOnly <;> rfl
    · cases typeOnly with
      | true => rfl
      | false => exact exports_register (fun name : String => ⟨name, name⟩) _
    · cases typeOnly <;> rfl
  | exportNames typeOnly =>
    cases typeOnly with
    | true => rfl
    | false => exact exports_exportListFindings (.mk span (.exportNames false) parts)
  | exportDefault =>
    rcases parts with _ | ⟨inner, _ | ⟨second, rest⟩⟩
    · rfl
    · exact @exports_exportDefaultFindings _ (.mk span .exportDefault [inner]) _ rfl
    · rfl
  | exportAll typeOnly =>
    cases typeOnly with
    | true => rfl
    | false => exact exports_demand _ _
  | _ => rfl

/-- What is registered for a statement is what the statement exports. -/
theorem mem_ownExports_iff {statement : Node} {item : Export} :
    item ∈ ownExports subject statement ↔ Exports subject statement item := by
  rw [ownExports_eq]
  constructor
  · intro hmem
    unfold statementExports at hmem
    split at hmem
    · next declaration hform hparts =>
      obtain ⟨name, hname, rfl⟩ := List.mem_map.mp hmem
      exact .declaration hform hparts (mem_declarationNames_iff.mp hname)
    · next hform =>
      split at hmem
      · next hsource =>
        obtain ⟨pair, hpair, rfl⟩ := List.mem_map.mp hmem
        obtain ⟨part, hpart, hpartForm, inner, outer, hpartParts, hlocal, hexported⟩ :=
          mem_exportedPairs_iff.mp hpair
        exact .list hform hsource hpart hpartForm hpartParts hlocal hexported
      · cases hmem
    · next inner hform hparts =>
      obtain ⟨name, hname, rfl⟩ := List.mem_map.mp hmem
      obtain ⟨ambient, hinner, rfl⟩ := exists_of_defaultVariable? (Option.mem_toList.mp hname)
      cases hname : inner.ownName? with
      | some name => exact .namedDefault hform hparts hinner hname
      | none => exact .anonymousDefault hform hparts hinner hname
    · cases hmem
  · intro hexports
    unfold statementExports
    cases hexports with
    | declaration hform hparts hdeclares =>
      rw [hform, hparts]
      exact List.mem_map.mpr ⟨_, mem_declarationNames_iff.mpr hdeclares, rfl⟩
    | list hform hsource hpart hpartForm hpartParts hlocal hexported =>
      rw [hform]
      dsimp only
      rw [if_pos hsource]
      exact List.mem_map.mpr ⟨_, mem_exportedPairs_iff.mpr
        ⟨_, hpart, hpartForm, _, _, hpartParts, hlocal, hexported⟩, rfl⟩
    | namedDefault hform hparts hinner hname =>
      rw [hform, hparts]
      rcases hinner with hinner | hinner <;> simp [defaultVariable?, hinner, hname]
    | anonymousDefault hform hparts hinner hname =>
      rw [hform, hparts]
      rcases hinner with hinner | hinner <;> simp [defaultVariable?, hinner, hname]

/-! ### Exported names are distinct -/

theorem nodup_of_allDistinct {names : List String} (h : allDistinct names = true) : names.Nodup := by
  induction names with
  | nil => exact List.nodup_nil
  | cons name rest ih =>
    simp only [allDistinct, Bool.and_eq_true, Bool.not_eq_true', List.contains_eq_mem,
      decide_eq_false_iff_not] at h
    exact List.nodup_cons.mpr ⟨h.1, ih h.2⟩

/-- The names under which a statement registers variables are among those under which it exports. -/
theorem sublist_exportedNames (subject : Subject) (statement : Node) :
    ((ownExports subject statement).map Export.exported).Sublist (exportedNames statement) := by
  rw [ownExports_eq]
  unfold statementExports
  split
  · next declaration hform hparts =>
    rw [List.map_map]
    simp [exportedNames, hform, hparts, Function.comp_def]
  · next hform =>
    split
    · rw [List.map_map, List.filterMap_eq_flatMap_toList, List.map_flatMap, exportedNames, hform]
      refine List.Sublist.flatMap_right _ fun part _ => ?_
      unfold exportedPair?
      split
      · next hform hparts =>
        rw [hform, hparts]
        dsimp only
        cases Node.name? _ <;> cases Node.name? _ <;> simp
      · exact List.nil_sublist _
    · exact List.nil_sublist _
  · next inner hform hparts =>
    rw [exportedNames, hform]
    cases defaultVariable? subject inner <;> simp
  · exact List.nil_sublist _

/-! ### Constants -/

/-- A statement declares variables, by itself or behind `export`. -/
def IsVariables (statement declaration : Node) : Prop :=
  (declaration = statement ∨
      ∃ typeOnly, statement.form = .exportDeclaration typeOnly ∧ statement.parts = [declaration]) ∧
    ∃ kind ambient, declaration.form = .variableDeclaration kind ambient

theorem mem_topLevelVariables_iff {program declaration : Node} :
    declaration ∈ topLevelVariables program ↔
      ∃ statement ∈ program.parts, IsVariables statement declaration := by
  unfold topLevelVariables IsVariables
  rw [List.mem_filterMap]
  refine exists_congr fun statement => and_congr_right fun _ => ?_
  constructor
  · intro hdeclaration
    split at hdeclaration
    · next hform =>
      obtain rfl := Option.some.inj hdeclaration
      exact ⟨.inl rfl, _, _, hform⟩
    · next inner hform hparts =>
      split at hdeclaration
      · next hinner =>
        obtain rfl := Option.some.inj hdeclaration
        exact ⟨.inr ⟨_, hform, hparts⟩, _, _, hinner⟩
      · cases hdeclaration
    · cases hdeclaration
  · rintro ⟨rfl | ⟨typeOnly, hform, hparts⟩, kind, ambient, hvariables⟩
    · simp [hvariables]
    · simp [hform, hparts, hvariables]

/-- A variable is bound by a declaration of constants at the top level, exported or not: `const` or
one of the kinds of `using`. -/
def BindsConstant (program : Node) (name : String) : Prop :=
  ∃ statement ∈ program.parts, ∃ declaration, IsVariables statement declaration ∧
    (∀ ambient, declaration.form ≠ .variableDeclaration .var ambient ∧
      declaration.form ≠ .variableDeclaration .let ambient) ∧
    VariableBinds name declaration

theorem isConstant_iff {declaration : Node} : isConstant declaration = true ↔
    ∀ ambient, declaration.form ≠ .variableDeclaration .var ambient ∧
      declaration.form ≠ .variableDeclaration .let ambient := by
  unfold isConstant
  split
  · next ambient hform => simp [hform]
  · next ambient hform => simp [hform]
  · next hvar hlet => exact iff_of_true rfl fun ambient => ⟨hvar ambient, hlet ambient⟩

theorem mem_constantNames_iff {program : Node} {name : String} :
    name ∈ constantNames program ↔ BindsConstant program name := by
  unfold constantNames BindsConstant
  rw [List.mem_flatMap]
  constructor
  · rintro ⟨declaration, hdeclaration, hname⟩
    obtain ⟨statement, hstatement, hvariables⟩ := mem_topLevelVariables_iff.mp hdeclaration
    split at hname
    · next hconstant =>
      exact ⟨statement, hstatement, declaration, hvariables, isConstant_iff.mp hconstant,
        mem_variableNames_iff.mp hname⟩
    · cases hname
  · rintro ⟨statement, hstatement, declaration, hvariables, hconstant, hbinds⟩
    refine ⟨declaration, mem_topLevelVariables_iff.mpr ⟨statement, hstatement, hvariables⟩, ?_⟩
    rw [if_pos (isConstant_iff.mpr hconstant)]
    exact mem_variableNames_iff.mpr hbinds

/-! ### The whole program -/

theorem perm_liveExports (subject : Subject) (program : Node) :
    (liveExports subject program ++ constantExports subject program).Perm
      (programExports subject program) :=
  List.perm_append_comm.trans (List.filter_append_perm _ _)

/-- Names that a program registers are among those under which it exports. -/
theorem sublist_programExports {program : Node} (hprogram : program.form = .program)
    (htop : linksAtTop program = true) :
    ((programExports subject program).map Export.exported).Sublist
      (program.parts.flatMap exportedNames) := by
  rw [programExports_of_linksAtTop hprogram htop, List.map_flatMap]
  exact List.Sublist.flatMap_right _ fun statement _ => sublist_exportedNames subject statement

end ModuleLinkage.Lowering
