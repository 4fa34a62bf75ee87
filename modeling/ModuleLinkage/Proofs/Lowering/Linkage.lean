import ModuleLinkage.Proofs.Lowering.GeneratedParts

/-!
# What a module registers and requests

A program is registered with what its statements export and requests the modules that its statements
name. The generated code lists exactly the exported pairs, each exported name once, in two calls
(`registered_program`), and holds one request for each declaration from another module, with its
specifier, in the order in which the declarations stand in the text (`requests_program`). Both are read
off the pieces and the tokens that the code consists of. The one declaration from another module that
requests nothing is an export of an empty list of names: its specifier is lost, while an import of an
empty list keeps it (`emptyList_unrequested`).
-/

set_option autoImplicit false

namespace ModuleLinkage.Lowering

open Syntax Text

variable {subject : Subject} {program : Node}

/-! ### The parts of a program's code -/

/-- What stands behind the registrations in the generated code: declarations, and requests. -/
def laterParts (subject : Subject) (program : Node) : List LinePart :=
  (programParts subject program).drop 2

theorem programParts_eq (subject : Subject) (program : Node) : programParts subject program =
    .statement (registrationPieces subject.reference (liveExports subject program) false) ::
      .statement (registrationPieces subject.reference (constantExports subject program) true) ::
        laterParts subject program := rfl

theorem laterParts_eq (subject : Subject) (program : Node) : laterParts subject program =
    .variables (withoutRepetition ((programRequests subject program).flatMap fun request =>
        request.importedVariables.map (·.2))) ::
      (((programRequests subject program).flatMap Request.importedNamespaces).map .object ++
        (inSourceOrder (programRequests subject program)).map fun request =>
          .statement (requestPieces ⟨subject.reference, exportedVariables subject program⟩ request)) :=
  rfl

/-- Behind the registrations, nothing is registered but in functions. -/
theorem callsOutright_laterParts {pieces : List Piece}
    (hpart : .statement pieces ∈ laterParts subject program) : callsOutright "export" pieces = 0 := by
  rw [laterParts_eq] at hpart
  simp only [List.mem_cons, List.mem_append, List.mem_map, reduceCtorEq, and_false, exists_false,
    false_or] at hpart
  obtain ⟨request, -, heq⟩ := hpart
  obtain rfl := LinePart.statement.inj heq
  exact callsOutright_requestPieces _ request

/-- Where the generated code is put among the edits of a program, if there is any. -/
theorem exists_loweringEdits_ahead (hcode : generatedCode subject program ≠ []) :
    ∃ before text, loweringEdits subject program = before ++ [.hoisting (hoistOffset program) text] ∧
      (text = generatedCode subject program ∨ text = ';' :: generatedCode subject program) := by
  obtain ⟨before, -, hedits⟩ := exists_loweringEdits_generated subject program
  obtain ⟨text, hhoist, htext⟩ :=
    hoistingEdit_eq subject.source program (generatedCode subject program)
  rw [if_neg (by simpa using hcode), hhoist] at hedits
  exact ⟨before, text, hedits, htext⟩

/-! ### What is registered -/

/-- What becomes of the exports of a program. -/
structure Registered (subject : Subject) (program : Node) : Prop where
  /-- The generated code begins with a call that lists the live exports and one that lists the constant
  ones, if there are any. Nothing is registered behind them but in functions. -/
  written : ∃ others, Consists subject program
      (.statement (registrationPieces subject.reference (liveExports subject program) false) ::
        .statement (registrationPieces subject.reference (constantExports subject program) true) ::
          others) ∧
    ∀ pieces, .statement pieces ∈ others → callsOutright "export" pieces = 0
  /-- The generated code stands at the beginning of the program, behind its directives, whatever other
  edits there are. -/
  ahead : generatedCode subject program ≠ [] → ∃ before text, loweringEdits subject program =
      before ++ [.hoisting (hoistOffset program) text] ∧
    (text = generatedCode subject program ∨ text = ';' :: generatedCode subject program)
  /-- Nothing else is registered, and nothing is left out. -/
  listed : ∀ item, item ∈ liveExports subject program ++ constantExports subject program ↔
    ∃ statement ∈ program.parts, Exports subject statement item
  /-- No name is registered twice. -/
  once : ((liveExports subject program ++ constantExports subject program).map Export.exported).Nodup
  /-- The constant exports are those of constants. -/
  constant : ∀ item ∈ liveExports subject program ++ constantExports subject program,
    item ∈ constantExports subject program ↔ BindsConstant program item.localName
  /-- An expression that is exported as the default is passed to a call in its place. -/
  inPlace : ∀ statement ∈ program.parts, ∀ inner, statement.form = .exportDefault →
    statement.parts = [inner] → inner.isDeclared = false →
      nodeFindings subject false statement =
          [.change (defaultOpening subject statement.span.start inner.span.start),
            .change (closing inner.span.stop)] ∧
        defaultOpening subject statement.span.start inner.span.start ∈ loweringEdits subject program ∧
        closing inner.span.stop ∈ loweringEdits subject program

/-- What is changed about a statement of a program is among the edits of the program. -/
theorem mem_loweringEdits_of_change (hprogram : program.form = .program) {statement : Node}
    (hstatement : statement ∈ program.parts) {edit : Edit}
    (hchange : .change edit ∈ nodeFindings subject false statement) :
    edit ∈ loweringEdits subject program := by
  have hfinding : edit ∈ (programFindings subject program).filterMap Finding.edit? :=
    mem_programFindings_filterMap.mpr ⟨statement, false, stands_of_mem_parts hprogram hstatement,
      List.mem_filterMap.mpr ⟨_, hchange, rfl⟩⟩
  unfold loweringEdits
  dsimp only
  rw [if_neg fun hnone => List.ne_nil_of_mem hfinding (List.isEmpty_iff.mp hnone)]
  exact List.mem_append_left _ (List.mem_append_left _ hfinding)

/-- An expression that is exported as the default is passed to a call. -/
theorem nodeFindings_defaultExpression {statement inner : Node} (hform : statement.form = .exportDefault)
    (hparts : statement.parts = [inner]) (hexpression : inner.isDeclared = false) :
    nodeFindings subject false statement =
      [.change (defaultOpening subject statement.span.start inner.span.start),
        .change (closing inner.span.stop)] := by
  obtain ⟨span, form, parts⟩ := statement
  obtain rfl : form = _ := hform
  obtain rfl : parts = _ := hparts
  obtain ⟨innerSpan, form, parts⟩ := inner
  cases form with
  | function style ambient =>
    cases style with
    | declaration => cases hexpression
    | expression => rfl
  | classDefinition style ambient =>
    cases style with
    | declaration => cases hexpression
    | expression => rfl
  | interface => cases hexpression
  | _ => rfl

/-- **Registration.** A module in the grammar without types, with all its module declarations at the
top level, registers exactly what its statements export. -/
theorem registered_program {settings : Settings} {source : List Char} {program : Node}
    (reference : String) (hparse : parse settings source = .ok program)
    (huntyped : settings.typescript = false) (htop : linksAtTop program = true) :
    Registered ⟨source, reference⟩ program := by
  obtain ⟨hprogram, hsound⟩ := isSound_of_parse hparse
  refine ⟨⟨_, consists_programParts (anchored_of_parse hparse), fun _ => callsOutright_laterParts⟩,
    exists_loweringEdits_ahead, fun item => ?_, ?_, fun item hitem => ?_,
    fun statement hstatement inner hform hparts hexpression => ?_⟩
  · rw [(perm_liveExports _ program).mem_iff, programExports_of_linksAtTop hprogram htop,
      List.mem_flatMap]
    exact exists_congr fun statement => and_congr_right fun _ => mem_ownExports_iff
  · have hdistinct : (program.parts.flatMap exportedNames).Nodup := by
      simp only [isSound, huntyped, Bool.false_or, Bool.and_eq_true] at hsound
      exact nodup_of_allDistinct hsound.2
    exact (((perm_liveExports _ program).map _).nodup_iff).mpr
      (hdistinct.sublist (sublist_programExports hprogram htop))
  · rw [(perm_liveExports _ program).mem_iff] at hitem
    rw [← mem_constantNames_iff, constantExports, List.mem_filter]
    simp [hitem]
  · have hfindings := @nodeFindings_defaultExpression ⟨source, reference⟩ _ _ hform hparts hexpression
    refine ⟨hfindings, mem_loweringEdits_of_change hprogram hstatement ?_,
      mem_loweringEdits_of_change hprogram hstatement ?_⟩ <;> simp [hfindings]

/-- A module that exports in every way. -/
def severalExports : List Char :=
  ("export const {a, b: [c = 1, ...d]} = e; export \x7bf as g, h as 'h i', f\x7d;" ++
    "let f; const h = 1; export default function () {} export * from 'm'").toList

/-- The module is read as a program with all module declarations at the top level. -/
theorem registered_severalExports : ∃ program,
    parse ⟨false, false, true⟩ severalExports = .ok program ∧ linksAtTop program = true ∧
      liveExports ⟨severalExports, "module"⟩ program =
        [⟨"g", "f"⟩, ⟨"f", "f"⟩, ⟨"default", "moduleDefault"⟩] ∧
      constantExports ⟨severalExports, "module"⟩ program =
        [⟨"a", "a"⟩, ⟨"c", "c"⟩, ⟨"d", "d"⟩, ⟨"h i", "h"⟩] ∧
      Registered ⟨severalExports, "module"⟩ program := by
  have hprogram : ((parse ⟨false, false, true⟩ severalExports).toOption.any fun program =>
      linksAtTop program &&
        (decide (liveExports ⟨severalExports, "module"⟩ program =
            [⟨"g", "f"⟩, ⟨"f", "f"⟩, ⟨"default", "moduleDefault"⟩]) &&
          decide (constantExports ⟨severalExports, "module"⟩ program =
            [⟨"a", "a"⟩, ⟨"c", "c"⟩, ⟨"d", "d"⟩, ⟨"h i", "h"⟩]))) = true := by
    decide +kernel
  obtain ⟨program, hparse, hall⟩ := exists_of_any hprogram
  simp only [Bool.and_eq_true, decide_eq_true_eq] at hall
  obtain ⟨htop, hlive, hconstant⟩ := hall
  exact ⟨program, hparse, htop, hlive, hconstant,
    registered_program "module" hparse rfl htop⟩

/-! ### What is requested -/

/-- A statement that requests a module by one call, whatever else is passed. -/
def RequestsOnce (reference specifier : String) (pieces : List Piece) : Prop :=
  ∃ arguments, RequestsWith reference specifier arguments pieces

/-- Every form of request is written as one call with its specifier. -/
theorem requestsOnce_requestPieces (scheme : Scheme) (request : Request) :
    RequestsOnce scheme.reference request.specifier (requestPieces scheme request) := by
  rcases requestsWith_requestPieces scheme request with ⟨-, hwith⟩ | ⟨_, _, hwith⟩
  · exact ⟨_, hwith⟩
  · exact ⟨_, hwith⟩

/-- What becomes of the requests of a program. `specifiers` are those of the requests in the generated
code, in order and with repetition. -/
structure Requested (subject : Subject) (program : Node) (specifiers : List String) : Prop where
  /-- The generated code ends with one statement for each specifier, which requests the module by one
  call. What stands before registers exports and declares variables, and requests nothing. -/
  written : ∃ front statements, Consists subject program (front ++ statements.map .statement) ∧
    List.Forall₂ (RequestsOnce subject.reference) specifiers statements ∧
    ∀ pieces, .statement pieces ∈ front → callsIn "importSync" pieces = 0
  /-- The generated code stands at the beginning of the program, behind its directives, whatever other
  edits there are. -/
  ahead : specifiers ≠ [] → ∃ before text, loweringEdits subject program =
      before ++ [.hoisting (hoistOffset program) text] ∧
    (text = generatedCode subject program ∨ text = ';' :: generatedCode subject program)
  /-- The specifiers are those that the statements of the program request, in the order in which they
  stand in the text. -/
  ordered : ∃ statements : List Node,
    statements.Perm (program.parts.filter fun statement => (requested? statement).isSome) ∧
      statements.Pairwise (fun first second => first.span.start ≤ second.span.start) ∧
      specifiers = statements.filterMap requested?
  /-- That is the order of the statements, where these are listed as they stand. -/
  listed : program.parts.Pairwise (fun first second => first.span.start ≤ second.span.start) →
    specifiers = program.parts.filterMap requested?

/-- The generated code of an anchored program requests the modules of its requests, each by one call. -/
theorem requestsOnce_programParts (h : program.Anchored subject.source) :
    ∃ front statements, Consists subject program (front ++ statements.map .statement) ∧
      List.Forall₂ (RequestsOnce subject.reference)
        ((inSourceOrder (programRequests subject program)).map Request.specifier) statements ∧
      ∀ pieces, .statement pieces ∈ front → callsIn "importSync" pieces = 0 := by
  have hconsists : Consists subject program
      ((.statement (registrationPieces subject.reference (liveExports subject program) false) ::
          .statement (registrationPieces subject.reference (constantExports subject program) true) ::
          .variables (withoutRepetition ((programRequests subject program).flatMap fun request =>
            request.importedVariables.map (·.2))) ::
          ((programRequests subject program).flatMap Request.importedNamespaces).map .object) ++
        ((inSourceOrder (programRequests subject program)).map
          (requestPieces ⟨subject.reference, exportedVariables subject program⟩)).map .statement) := by
    rw [List.map_map]
    exact consists_programParts h
  refine ⟨_, _, hconsists, ?_, ?_⟩
  · rw [List.forall₂_map_left_iff, List.forall₂_map_right_iff, List.forall₂_same]
    exact fun request _ => requestsOnce_requestPieces ⟨subject.reference, _⟩ request
  · intro pieces hpart
    simp only [List.mem_cons, List.mem_map, reduceCtorEq, and_false, exists_false, or_false,
      LinePart.statement.injEq] at hpart
    rcases hpart with rfl | rfl <;> exact callsIn_registrationPieces _ _ _

/-- **Requests.** A module with all its module declarations at the top level requests exactly the
modules of its imports and of its exports from other modules, exports of empty lists apart. -/
theorem requests_program {settings : Settings} {source : List Char} {program : Node}
    (reference : String) (hparse : parse settings source = .ok program)
    (htop : linksAtTop program = true) :
    Requested ⟨source, reference⟩ program
      ((inSourceOrder (programRequests ⟨source, reference⟩ program)).map Request.specifier) := by
  obtain ⟨hprogram, -⟩ := isSound_of_parse hparse
  have hsnd := @map_snd_orderedItems ⟨source, reference⟩ _ hprogram htop
  have hspecifiers : (inSourceOrder (programRequests ⟨source, reference⟩ program)).map
      Request.specifier = (orderedItems program).map fun item => item.2.specifier := by
    rw [← hsnd, List.map_map]
    rfl
  have hmem (item : Node × Request) (hitem : item ∈ orderedItems program) :=
    mem_requestItems ((perm_orderedItems program).mem_iff.mp hitem)
  have hrequested := filterMap_requested?_fst fun item hitem => (hmem item hitem).2
  refine ⟨requestsOnce_programParts (anchored_of_parse hparse), fun hsome => ?_,
    ⟨(orderedItems program).map Prod.fst, ?_, ?_, ?_⟩, fun hpairwise => ?_⟩
  · exact exists_loweringEdits_ahead
      (generatedCode_ne_nil (mt (congrArg (List.map Request.specifier)) hsome))
  · rw [← map_fst_requestItems]
    exact (perm_orderedItems program).map _
  · refine List.pairwise_map.mpr ((pairwise_orderedItems program).imp_of_mem ?_)
    intro first second hfirst hsecond hle
    rwa [(hmem first hfirst).1, (hmem second hsecond).1] at hle
  · rw [hspecifiers, hrequested]
  · rw [hspecifiers, ← hrequested, orderedItems_of_pairwise hpairwise, map_fst_requestItems,
      List.filterMap_filter]
    refine List.filterMap_congr fun statement _ => ?_
    cases requested? statement <;> rfl

/-- A module with an import of an empty list, two imports of one module, and exports from others. -/
def severalRequests : List Char :=
  ("import {} from 'a'; export * from 'b'; f(); import c, * as d from 'c';" ++
    "export \x7bg as 'h i'\x7d from 'e'; import 'a'; export * as j from 'k'").toList

/-- The module is read as a program with all module declarations at the top level. -/
theorem requests_severalRequests : ∃ program,
    parse ⟨false, false, true⟩ severalRequests = .ok program ∧ linksAtTop program = true ∧
      Requested ⟨severalRequests, "module"⟩ program ["a", "b", "c", "e", "a", "k"] := by
  have hprogram : ((parse ⟨false, false, true⟩ severalRequests).toOption.any fun program =>
      linksAtTop program && (decide (program.parts.filterMap requested? =
          ["a", "b", "c", "e", "a", "k"]) &&
        decide (program.parts.Pairwise fun first second => first.span.start ≤ second.span.start))) =
      true := by
    decide +kernel
  obtain ⟨program, hparse, hall⟩ := exists_of_any hprogram
  simp only [Bool.and_eq_true, decide_eq_true_eq] at hall
  obtain ⟨htop, hspecifiers, hpairwise⟩ := hall
  have hrequested := requests_program "module" hparse htop
  have hlisted := (hrequested.listed hpairwise).trans hspecifiers
  exact ⟨program, hparse, htop, hlisted ▸ hrequested⟩

/-- A module that exports an empty list from another module. -/
def emptyExportList : List Char :=
  "export {} from \"m\";\nfoo();".toList

/-- A module that imports an empty list. -/
def emptyImportList : List Char :=
  "import {} from \"m\";\nfoo();".toList

/-- Of the two, only the import requests the module. -/
theorem emptyList_unrequested :
    compile { sourceGoal := .module } emptyExportList = .ok ⟨"\nfoo();".toList, .module⟩ ∧
      compile { sourceGoal := .module } emptyImportList =
        .ok ⟨"module.importSync(\"m\");\nfoo();".toList, .module⟩ := by
  constructor
  · unfold compile compileText lowerModule
    simp only [EditList.render_recordAll_ofSource]
    decide +kernel
  · unfold compile compileText lowerModule
    simp only [EditList.render_recordAll_ofSource]
    decide +kernel

end ModuleLinkage.Lowering
