import ModuleLinkage.Proofs.Imports
import ModuleLinkage.Proofs.Lowering.Demands
import ModuleLinkage.Proofs.Lowering.Linkage
import ModuleLinkage.Proofs.Syntax.Prologue
import ModuleLinkage.Proofs.Text.Inserting
import ModuleLinkage.Proofs.Text.Numerals

/-!
# The order of the generated code

Live bindings need the generated code in one order: exports are registered before anything else can run,
variables and objects are there before requests fill them, and requests stand as their declarations do.
`hoists_program` says so of every program that is read, and where the code is put: behind the prologue,
ahead of whatever else is put there.

The key of a request is the offset of its declaration. Since no two declarations begin at one
offset, the keys of one module increase strictly, and no request takes the place of another one.
-/

set_option autoImplicit false

namespace ModuleLinkage.Lowering

open Syntax Text EditList

variable {subject : Subject} {program declaration : Node}

/-! ### What imports declare -/

/-- Whether a declaration imports values from a module. -/
def isImport (declaration : Node) : Bool :=
  match declaration.form with
  | .importDeclaration false => (specifier? declaration).isSome
  | _ => false

/-- The imports of values in a program, wherever they stand. -/
def programImports (program : Node) : List Node :=
  collect (fun _ declaration => if isImport declaration then [declaration] else []) false program

theorem mem_programImports : declaration ∈ programImports program ↔
    ∃ inNamespace, Stands declaration false inNamespace program ∧ isImport declaration = true := by
  rw [programImports, mem_collect_iff]
  · refine exists_comm.trans (exists_congr fun inNamespace => ?_)
    constructor
    · rintro ⟨node, hstands, hmem⟩
      split at hmem
      · obtain rfl := List.mem_singleton.mp hmem
        exact ⟨hstands, ‹_›⟩
      · cases hmem
    · rintro ⟨hstands, himport⟩
      exact ⟨declaration, hstands, by simp [himport]⟩
  · intro _ node ambient hform
    simp [isImport, hform]

/-- What is taken from the names and objects of a request whose exports are imported. -/
def Request.imported {α : Type} (pick : List (String × String) → List String → List α)
    (request : Request) : List α :=
  match request.use with
  | .bindings names objects => pick names objects
  | _ => []

theorem imported_importRequest? {α : Type} {pick : List (String × String) → List String → List α}
    (hpick : pick [] [] = []) (declaration : Node) :
    (importRequest? declaration).toList.flatMap (Request.imported pick) =
      if (specifier? declaration).isSome then
        pick (importedNames declaration) (importedObjects declaration)
      else [] := by
  unfold importRequest?
  dsimp only
  split
  · next hnothing =>
    simp only [Bool.and_eq_true, List.isEmpty_iff] at hnothing
    have hnames : importedNames declaration = [] := hnothing.1.1
    have hobjects : importedObjects declaration = [] := hnothing.1.2
    rw [hnames, hobjects, hpick, ite_self]
    rfl
  · cases specifier? declaration with
    | none => rfl
    | some specifier => exact List.append_nil _

/-- Only an import imports anything. -/
theorem imported_requestInside? {α : Type} {pick : List (String × String) → List String → List α}
    (hpick : pick [] [] = []) (inNamespace : Bool) (declaration : Node) :
    (requestInside? inNamespace declaration).toList.flatMap (Request.imported pick) =
      if isImport declaration then pick (importedNames declaration) (importedObjects declaration)
      else [] := by
  obtain ⟨span, form, parts⟩ := declaration
  cases form with
  | importDeclaration typeOnly =>
    cases typeOnly with
    | true => cases inNamespace <;> rfl
    | false => cases inNamespace <;> exact imported_importRequest? hpick _
  | exportNames typeOnly =>
    cases inNamespace with
    | true => rfl
    | false =>
      cases typeOnly with
      | true => rfl
      | false =>
        change (ite _ _ _ : Option Request).toList.flatMap _ = []
        split
        · cases specifier? (.mk span (.exportNames false) parts) <;> rfl
        · rfl
  | exportAll typeOnly =>
    have hall : Request.imported pick ⟨span.start, "", exportAllUse (.mk span (.exportAll false) parts)⟩ =
        [] := by
      unfold exportAllUse Request.imported
      split
      · next huse =>
        split at huse
        · split at huse <;> cases huse
        · cases huse
      · rfl
    cases typeOnly with
    | true => cases inNamespace <;> rfl
    | false =>
      cases inNamespace
      all_goals
        change ((specifier? _).map _).toList.flatMap _ = []
        cases specifier? (.mk span (.exportAll false) parts) with
        | none => rfl
        | some specifier => exact (List.append_nil _).trans hall
  | _ => cases inNamespace <;> rfl

/-- What is imported is what the imports of a program import. -/
theorem flatMap_imported {α : Type} {pick : List (String × String) → List String → List α}
    (hpick : pick [] [] = []) (subject : Subject) (program : Node) :
    (programRequests subject program).flatMap (Request.imported pick) =
      (programImports program).flatMap fun declaration =>
        pick (importedNames declaration) (importedObjects declaration) := by
  rw [programRequests, programFindings_filterMap, collect_flatMap, programImports, collect_flatMap]
  congr 1
  funext inNamespace declaration
  rw [requests_nodeFindings, imported_requestInside? hpick]
  cases isImport declaration <;> simp

/-- The variables that the imports of a program fill, each of them once. -/
def importedLocals (program : Node) : List String :=
  withoutRepetition ((programImports program).flatMap fun declaration =>
    (importedNames declaration).map Prod.snd)

theorem importedLocals_eq (subject : Subject) (program : Node) :
    withoutRepetition ((programRequests subject program).flatMap fun request =>
      request.importedVariables.map (·.2)) = importedLocals program := by
  have hvariables (request : Request) : request.importedVariables.map (·.2) =
      Request.imported (fun names _ => names.map Prod.snd) request := by
    unfold Request.importedVariables Request.imported
    cases request.use <;> rfl
  unfold importedLocals
  simp only [hvariables]
  rw [flatMap_imported rfl]

theorem importedNamespaces_eq (subject : Subject) (program : Node) :
    (programRequests subject program).flatMap Request.importedNamespaces =
      (programImports program).flatMap importedObjects := by
  have hobjects : Request.importedNamespaces = Request.imported fun _ objects => objects := by
    funext request
    unfold Request.importedNamespaces Request.imported
    cases request.use <;> rfl
  rw [hobjects, flatMap_imported rfl]

theorem mem_importedLocals {name : String} : name ∈ importedLocals program ↔
    ∃ declaration ∈ programImports program, ∃ imported, Imports declaration imported name := by
  rw [importedLocals, mem_withoutRepetition, List.mem_flatMap]
  refine exists_congr fun declaration => and_congr_right fun _ => ?_
  rw [List.mem_map]
  constructor
  · rintro ⟨⟨imported, target⟩, hmem, rfl⟩
    exact ⟨imported, mem_importedNames_iff.mp hmem⟩
  · rintro ⟨imported, himports⟩
    exact ⟨(imported, name), mem_importedNames_iff.mpr himports, rfl⟩

/-! ### Keys -/

/-- A statement that requests the module of a declaration by one call. A call that passes callbacks
has the offset of the declaration as its key; the other one is that of an import of nothing. -/
inductive Requesting (reference : String) (declaration : Node) (pieces : List Piece) : Prop
  | bare {specifier : String} (hrequested : requested? declaration = some specifier)
      (hnames : importedNames declaration = []) (hobjects : importedObjects declaration = [])
      (hcall : RequestsWith reference specifier [] pieces)
  | keyed {specifier : String} (hrequested : requested? declaration = some specifier)
      (callbacks objects : List (List Piece))
      (hcall : RequestsWith reference specifier
        (keyedArguments callbacks declaration.span.start objects) pieces)

theorem exportAllUse_ne_bindings (declaration : Node) (names : List (String × String))
    (objects : List String) : exportAllUse declaration ≠ .bindings names objects := by
  unfold exportAllUse
  split
  · split <;> nofun
  · nofun

/-- What an import requests is put together from what it imports. -/
theorem bindings_of_statementRequest? {offset : Nat} {specifier : String}
    {names : List (String × String)} {objects : List String}
    (hrequest : statementRequest? declaration = some ⟨offset, specifier, .bindings names objects⟩) :
    names = importedNames declaration ∧ objects = importedObjects declaration := by
  unfold statementRequest? at hrequest
  split at hrequest
  · unfold importRequest? at hrequest
    dsimp only at hrequest
    split at hrequest
    · cases hrequest
    · obtain ⟨_, -, hbindings⟩ := Option.map_eq_some_iff.mp hrequest
      cases hbindings
      exact ⟨rfl, rfl⟩
  · split at hrequest
    · obtain ⟨_, -, hexport⟩ := Option.map_eq_some_iff.mp hrequest
      cases hexport
    · cases hrequest
  · obtain ⟨_, -, hexport⟩ := Option.map_eq_some_iff.mp hrequest
    exact absurd (congrArg Request.use hexport) (exportAllUse_ne_bindings declaration names objects)
  · cases hrequest

/-- **Keys.** The request of a declaration is written under its offset. -/
theorem requesting_requestPieces (scheme : Scheme) {request : Request}
    (hrequest : statementRequest? declaration = some request) :
    Requesting scheme.reference declaration (requestPieces scheme request) := by
  obtain ⟨hrequested, hoffset⟩ := statementRequest?_eq_some_iff.mp ⟨request.use, hrequest⟩
  obtain ⟨offset, specifier, use⟩ := request
  obtain rfl : declaration.span.start = offset := hoffset
  rcases requestsWith_requestPieces scheme ⟨declaration.span.start, specifier, use⟩ with
    ⟨huse, hcall⟩ | ⟨callbacks, objects, hcall⟩
  · obtain rfl : use = .bindings [] [] := huse
    obtain ⟨hnames, hobjects⟩ := bindings_of_statementRequest? hrequest
    exact .bare hrequested hnames.symm hobjects.symm hcall
  · exact .keyed hrequested callbacks objects hcall

/-! ### Where the code is put -/

/-- Whether a text ends with a semicolon, but for blanks behind it. -/
def EndsWithSemicolon (text : List Char) : Prop :=
  ∃ front blanks, text = front ++ ';' :: blanks ∧ ∀ c ∈ blanks, Unicode.isBlank c = true

theorem endsWithSemicolon_iff {text : List Char} :
    endsWithSemicolon text = true ↔ EndsWithSemicolon text := by
  unfold endsWithSemicolon EndsWithSemicolon
  rw [beq_iff_eq, List.head?_eq_some_iff]
  constructor
  · rintro ⟨back, hback⟩
    refine ⟨back.reverse, (text.reverse.takeWhile Unicode.isBlank).reverse, ?_, fun c hc => ?_⟩
    · have hsplit := List.takeWhile_append_dropWhile (p := Unicode.isBlank) (l := text.reverse)
      rw [hback] at hsplit
      have htext := congrArg List.reverse hsplit
      rw [List.reverse_reverse, List.reverse_append, List.reverse_cons, List.append_assoc] at htext
      exact htext.symm
    · exact List.all_eq_true.mp List.all_takeWhile c (List.mem_reverse.mp hc)
  · rintro ⟨front, blanks, rfl, hblanks⟩
    refine ⟨front.reverse, ?_⟩
    rw [List.reverse_append, List.reverse_cons, List.append_assoc,
      List.dropWhile_append_of_pos fun c hc => hblanks c (List.mem_reverse.mp hc)]
    exact List.dropWhile_cons_of_neg (by decide +kernel)

/-- Where generated code is put, and what is put ahead of it there: a semicolon exactly if the last
directive has none. -/
inductive PutAt (source : List Char) (program : Node) : Nat → List Char → Prop
  | start (hnone : lastDirective? program = none) : PutAt source program 0 []
  | closed {directive : Node} (hlast : lastDirective? program = some directive)
      (hends : EndsWithSemicolon (slice source directive.span)) :
      PutAt source program directive.span.stop []
  | unclosed {directive : Node} (hlast : lastDirective? program = some directive)
      (hlacks : ¬ EndsWithSemicolon (slice source directive.span)) :
      PutAt source program directive.span.stop [';']

theorem exists_putAt (source : List Char) (program : Node) (code : List Char) :
    ∃ offset separator, PutAt source program offset separator ∧
      hoistingEdit source program code = .hoisting offset (separator ++ code) := by
  unfold hoistingEdit
  split
  · next directive hlast =>
    split
    · next hends => exact ⟨_, [], .closed hlast (endsWithSemicolon_iff.mp hends), rfl⟩
    · next hlacks =>
      exact ⟨_, [';'], .unclosed hlast (mt endsWithSemicolon_iff.mpr hlacks), rfl⟩
  · next hnone => exact ⟨0, [], .start hnone, rfl⟩

/-! ### Ahead of the other edits -/

/-- How a text is put ahead of a program: it is the last of the edits that are recorded and the only one
that is hoisted, it comes ahead of all edits that begin at its offset, and it is rendered unless an edit
that begins before reaches over the offset. -/
structure PutAhead (subject : Subject) (program : Node) (offset : Nat) (text : List Char) : Prop where
  recorded : ∃ others, loweringEdits subject program = others ++ [.hoisting offset text] ∧
    ∀ edit ∈ others, edit.placement = .inline
  ahead : ∃ before behind,
    ((ofSource subject.source).recordAll (loweringEdits subject program)).ordered =
        before ++ .hoisting offset text :: behind ∧
      (∀ edit ∈ before, edit.span.start < offset) ∧ ∀ edit ∈ behind, offset ≤ edit.span.start
  rendered : (∀ edit ∈ loweringEdits subject program, edit.span.start < offset →
      edit.span.stop ≤ offset) →
    .hoisting offset text ∈ ((ofSource subject.source).recordAll (loweringEdits subject program)).kept

/-- **Ahead.** The generated code of an anchored program is put ahead of it. -/
theorem putAhead_generatedCode (hreference : isPlainIdentifier subject.reference.toList = true)
    (h : program.Anchored subject.source) (hcode : generatedCode subject program ≠ []) :
    ∃ offset separator, PutAt subject.source program offset separator ∧
      PutAhead subject program offset (separator ++ generatedCode subject program) := by
  obtain ⟨others, hinline, hedits⟩ := exists_loweringEdits_generated subject program
  obtain ⟨offset, separator, hput, hhoisting⟩ :=
    exists_putAt subject.source program (generatedCode subject program)
  rw [if_neg (by simpa using hcode), hhoisting] at hedits
  have hothers (edit : Edit) (hedit : edit ∈ others) : IsInline edit := by
    have hlined : IsLined subject program edit :=
      isLined_of_mem_loweringEdits hreference h (hedits ▸ List.mem_append_left _ hedit)
    exact ⟨hinline edit hedit, hlined.1.start_le_stop⟩
  refine ⟨offset, separator, hput, ⟨others, hedits, hinline⟩, ?_, fun hclear => ?_⟩
  · rw [hedits]
    obtain ⟨before, behind, hordered, hbefore, hbehind⟩ := exists_ordered_hoisting hothers
    exact ⟨before, behind, hordered, fun edit hedit => (hbefore edit hedit).2, hbehind⟩
  · rw [hedits] at hclear ⊢
    exact mem_kept_hoisting hothers fun edit hedit => hclear edit (List.mem_append_left _ hedit)

/-! ### The whole program -/

/-- The code that is hoisted for a program. -/
structure Hoists (subject : Subject) (program : Node) : Prop where
  /-- The directives of the program are its prologue. -/
  prologue : ∃ prologue rest, program.parts = prologue ++ rest ∧
    (∀ statement ∈ prologue, isDirective statement = true) ∧
      ∀ statement ∈ rest, isDirective statement = false
  /-- The code stands at the end of the last directive, behind a semicolon exactly if that has none, or at
  offset 0, ahead of every other edit there. -/
  placed : generatedCode subject program ≠ [] → ∃ offset separator,
    PutAt subject.source program offset separator ∧
      PutAhead subject program offset (separator ++ generatedCode subject program)
  /-- Nothing but the code is hoisted. -/
  only : generatedCode subject program = [] →
    ∀ edit ∈ loweringEdits subject program, edit.placement = .inline
  /-- The code stands on one line. -/
  oneLine : '\n' ∉ generatedCode subject program ∧ '\r' ∉ generatedCode subject program
  /-- The code registers the exports, first those that are not constant, declares the variables and
  creates the objects that imports fill, and requests other modules, one after the other. The offsets of
  their declarations increase, and so the keys of the requests are distinct. -/
  composed : ∃ declarations calls,
    Consists subject program
        ([.statement (registrationPieces subject.reference (liveExports subject program) false),
          .statement (registrationPieces subject.reference (constantExports subject program) true),
          .variables (importedLocals program)] ++
        ((programImports program).flatMap importedObjects).map .object ++ calls.map .statement) ∧
      List.Forall₂ (Requesting subject.reference) declarations calls ∧
      (∀ declaration, declaration ∈ declarations ↔ ∃ specifier, Demands program declaration specifier) ∧
      declarations.Pairwise (fun first second => first.span.start < second.span.start) ∧
      declarations.Pairwise fun first second =>
        Nat.toDigits 10 first.span.start ≠ Nat.toDigits 10 second.span.start
  /-- The variables that are declared are those that default and named imports fill, each of them once. -/
  locals : (importedLocals program).Nodup ∧ ∀ name, name ∈ importedLocals program ↔
    ∃ declaration ∈ programImports program, ∃ imported, Imports declaration imported name
  /-- The imports are those that stand in the program. -/
  imports : ∀ declaration, declaration ∈ programImports program ↔
    ∃ inNamespace, Stands declaration false inNamespace program ∧ isImport declaration = true

/-- **Hoisted code.** For every program that is read, the generated code stands behind the prologue,
ahead of all other edits, on one line, and in the order that live bindings need. -/
theorem hoists_program {options : CompileOptions} (hvalid : options.validate = .ok ())
    {settings : Settings} {source : List Char} {program : Node}
    (hparse : parse settings source = .ok program) :
    Hoists ⟨source, options.referenceIn source⟩ program := by
  have hreference := isPlainIdentifier_referenceIn hvalid source
  have hanchored := anchored_of_parse hparse
  have hordered := pairwise_orderedDemands (tally_le_one_of_parse hparse)
  set subject : Subject := ⟨source, options.referenceIn source⟩
  have hline : Edit.lineBreaks (generatedCode subject program) = [] :=
    lineBreaks_generatedCode hreference hanchored
  refine ⟨exists_prologue_of_parse hparse, putAhead_generatedCode hreference hanchored, fun hnone => ?_,
    lineBreaks_eq_nil_iff.mp hline, ?_, ⟨nodup_withoutRepetition _, fun name => mem_importedLocals⟩,
    fun declaration => mem_programImports⟩
  · obtain ⟨others, hinline, hedits⟩ := exists_loweringEdits_generated subject program
    rw [hnone, List.isEmpty_nil, if_pos rfl, List.append_nil] at hedits
    rwa [hedits]
  · refine ⟨(orderedDemands program).map Prod.fst, (orderedDemands program).map fun item =>
      requestPieces ⟨subject.reference, exportedVariables subject program⟩ item.2,
      ?_, ?_, fun declaration => ?_, List.pairwise_map.mpr hordered,
      List.pairwise_map.mpr (hordered.imp fun {first second} hlt heq => ?_)⟩
    · have hconsists : Consists subject program (programParts subject program) :=
        consists_programParts hanchored
      rw [programParts_eq, laterParts_eq, importedLocals_eq, importedNamespaces_eq,
        ← map_snd_orderedDemands, List.map_map] at hconsists
      rw [List.map_map]
      exact hconsists
    · rw [List.forall₂_map_left_iff, List.forall₂_map_right_iff, List.forall₂_same]
      exact fun item hitem => requesting_requestPieces ⟨subject.reference, _⟩
        (statementRequest?_of_mem_demands (mem_orderedDemands.mp hitem))
    · rw [← mem_demands_iff, List.mem_map]
      constructor
      · rintro ⟨⟨node, request⟩, hitem, rfl⟩
        exact ⟨request, mem_orderedDemands.mp hitem⟩
      · rintro ⟨request, hmem⟩
        exact ⟨_, mem_orderedDemands.mpr hmem, rfl⟩
    · -- Keys that are the same text are the same number.
      have hvalue := congrArg digitsValue heq
      rw [digitsValue_toDigits, digitsValue_toDigits] at hvalue
      omega

/-- A module with a directive that no semicolon ends, exports of both kinds, and imports of each
kind, two of them into one variable. -/
def behindDirective : List Char :=
  ("'use strict'\nimport a, \x7bb as c\x7d from 'm'; export const d = 1; import * as e from 'n';" ++
    "export \x7bc as f\x7d; export * as g from 'o'; import \x7bb as a\x7d from 'p'; import 'q'").toList

theorem hoists_behindDirective : ∃ program,
    CompileOptions.validate {} = .ok () ∧ parse ⟨false, false, true⟩ behindDirective = .ok program ∧
      (lastDirective? program).map (fun directive => directive.span.stop) = some 12 ∧
      importedLocals program = ["a", "c"] ∧
      (programImports program).flatMap importedObjects = ["e"] ∧
      Hoists ⟨behindDirective, CompileOptions.referenceIn {} behindDirective⟩ program := by
  have hprogram : ((parse ⟨false, false, true⟩ behindDirective).toOption.any fun program =>
      decide ((lastDirective? program).map (fun directive => directive.span.stop) = some 12) &&
        (decide (importedLocals program = ["a", "c"]) &&
          decide ((programImports program).flatMap importedObjects = ["e"]))) = true := by
    decide +kernel
  obtain ⟨program, hparse, hall⟩ := exists_of_any hprogram
  simp only [Bool.and_eq_true, decide_eq_true_eq] at hall
  exact ⟨program, rfl, hparse, hall.1, hall.2.1, hall.2.2, hoists_program rfl hparse⟩

end ModuleLinkage.Lowering
