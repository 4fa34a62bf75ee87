import Mathlib.Algebra.BigOperators.Group.List.Basic
import ModuleLinkage.Proofs.Lowering.LineTokens
import ModuleLinkage.Proofs.Lowering.Lines

/-!
# What generated code consists of

The code that is generated for a program is the text of its parts, and is read as their tokens, since all
variables of a program that is read are identifiers (`consists_lineParts`). What the code calls is counted
in the pieces of its parts: `callsOutright` counts the calls that are made where a part stands, `callsIn`
those that are made in functions as well. Each request is one call, whatever becomes of the exports
(`requestsWith_requestPieces`), and registers nothing but in functions
(`callsOutright_requestPieces`).
-/

set_option autoImplicit false

namespace ModuleLinkage.Lowering

open Syntax Text Unicode Ledger

/-! ### The parts of generated code -/

/-- The text of the declaration of variables, if there are any. -/
def variablesText : List String → List Char
  | [] => []
  | name :: others => "let ".toList ++ name.toList ++ textOf (furtherPieces others)

/-- The text of the declaration of an object. -/
def objectText (name : String) : List Char :=
  "const ".toList ++ name.toList ++ textOf creationPieces

/-- The text of a part. -/
def LinePart.text : LinePart → List Char
  | .statement pieces => textOf pieces
  | .variables names => variablesText names
  | .object name => objectText name

theorem text_statement (pieces : List Piece) : (LinePart.statement pieces).text = textOf pieces := rfl

theorem text_variables (names : List String) : (LinePart.variables names).text =
    if names.isEmpty then [] else "let ".toList ++ commaSeparated (names.map String.toList) ++ [';'] := by
  cases names with
  | nil => rfl
  | cons name others =>
    change "let ".toList ++ name.toList ++ textOf (furtherPieces others) = _
    rw [textOf_furtherPieces]
    simp [commaSeparated_cons]

theorem text_object (name : String) : (LinePart.object name).text =
    "const ".toList ++ name.toList ++ "=Object.create(null);".toList := by
  change "const ".toList ++ name.toList ++ textOf creationPieces = _
  simp [creationPieces]

/-- The generated line is the text of its parts. -/
theorem hoistedCode_eq (reference : String) (constants : List String) (exports : List Export)
    (requests : List Request) : hoistedCode reference constants exports requests =
      (lineParts reference constants exports requests).flatMap LinePart.text := by
  simp only [hoistedCode, lineParts, List.flatMap_append, List.flatMap_cons, List.flatMap_nil,
    List.flatMap_map, text_statement, text_variables, text_object, textOf_registrationPieces,
    textOf_requestPieces, List.append_nil, List.append_assoc, importVariables, importObjects]

variable {subject : Subject} {program : Node}

/-- The parts that the generated code of a program consists of. -/
structure Consists (subject : Subject) (program : Node) (parts : List LinePart) : Prop where
  /-- The code is the text of the parts. -/
  written : generatedCode subject program = parts.flatMap LinePart.text
  /-- In front of any text it is read as their tokens. -/
  read : isPlainIdentifier subject.reference.toList = true → ∀ rest,
    ReadAs (parts.flatMap LinePart.tokens) (generatedCode subject program) rest

/-- The parts of the code that is generated for a program. -/
def programParts (subject : Subject) (program : Node) : List LinePart :=
  lineParts subject.reference (constantNames program) (programExports subject program)
    (programRequests subject program)

/-- **Parts.** The generated code of an anchored program consists of its parts. -/
theorem consists_programParts (h : program.Anchored subject.source) :
    Consists subject program (programParts subject program) where
  written := hoistedCode_eq ..
  read hreference rest := by
    refine readAs_lineTokens _ fun name hname => ?_
    simp only [lineVariables, List.mem_cons, List.mem_append, List.mem_map, List.mem_flatMap] at hname
    rcases hname with rfl | (⟨item, hitem, rfl⟩ | ⟨request, hrequest, pair, hpair, rfl⟩) |
      ⟨request, hrequest, hobject⟩
    · exact isIdentifier_of_isPlainIdentifier hreference
    · exact isIdentifier_of_mem_programExports hreference h hitem
    · exact (fillsIdentifiers_of_mem_programRequests h hrequest).1 pair hpair
    · exact (fillsIdentifiers_of_mem_programRequests h hrequest).2 _ hobject

/-! ### Calls in pieces -/

/-- Whether a piece calls an operation by its name where it stands. -/
def Piece.callsHere (operation : String) : Piece → Nat
  | .property name => if name = operation then 1 else 0
  | _ => 0

/-- How often some pieces call an operation outside of functions. -/
def callsOutright (operation : String) (pieces : List Piece) : Nat :=
  (pieces.map (Piece.callsHere operation)).sum

mutual

/-- How often a piece calls an operation, in functions as well. -/
def Piece.calls (operation : String) : Piece → Nat
  | .property name => if name = operation then 1 else 0
  | .function _ pieces => callsIn operation pieces
  | _ => 0

def callsIn (operation : String) : List Piece → Nat
  | [] => 0
  | piece :: rest => piece.calls operation + callsIn operation rest

end

/-! Both count calls one piece after the other, and find none in a mark. -/

section Sums

variable {weight : Piece → Nat} {items : List (List Piece)}

theorem callsIn_eq (operation : String) (pieces : List Piece) :
    callsIn operation pieces = (pieces.map (Piece.calls operation)).sum := by
  induction pieces with
  | nil => rfl
  | cons piece rest ih => rw [callsIn, ih, List.map_cons, List.sum_cons]

theorem sum_separated {mark : String} {punctuation : isPunctuation mark = true}
    (hmark : weight (.mark mark punctuation) = 0) :
    ((separated mark items punctuation).map weight).sum =
      (items.map fun item => (item.map weight).sum).sum := by
  unfold separated
  induction items with
  | nil => rfl
  | cons item rest ih =>
    cases rest with
    | nil => simp
    | cons other rest =>
      rw [List.intercalate_cons_cons, List.map_append, List.map_append, List.sum_append,
        List.sum_append, ih]
      simp [hmark]

theorem sum_inBraces (hmark : ∀ mark punctuation, weight (.mark mark punctuation) = 0)
    (pieces : List Piece) : ((inBraces pieces).map weight).sum = (pieces.map weight).sum := by
  simp [inBraces, hmark]

theorem sum_callPieces (hmark : ∀ mark punctuation, weight (.mark mark punctuation) = 0)
    {reference : String} (houter : weight (.outer reference) = 0) (operation : String) :
    ((callPieces reference operation items).map weight).sum =
      weight (.property operation) + (items.map fun item => (item.map weight).sum).sum := by
  simp [callPieces, hmark, houter, sum_separated (hmark _ _)]

end Sums

section Calls

variable {operation : String} {first second pieces : List Piece} {items : List (List Piece)}

@[simp] theorem callsIn_append :
    callsIn operation (first ++ second) = callsIn operation first + callsIn operation second := by
  simp [callsIn_eq]

@[simp] theorem callsIn_separated {mark : String} {punctuation : isPunctuation mark = true} :
    callsIn operation (separated mark items punctuation) = (items.map (callsIn operation)).sum := by
  rw [callsIn_eq, sum_separated rfl]
  simp [← callsIn_eq]

@[simp] theorem callsIn_inBraces :
    callsIn operation (inBraces pieces) = callsIn operation pieces := by
  rw [callsIn_eq, sum_inBraces fun _ _ => rfl, ← callsIn_eq]

@[simp] theorem callsIn_callPieces (reference name : String) :
    callsIn operation (callPieces reference name items) =
      (if name = operation then 1 else 0) + (items.map (callsIn operation)).sum := by
  rw [callsIn_eq, sum_callPieces (fun _ _ => rfl) rfl]
  simp [← callsIn_eq, Piece.calls]

@[simp] theorem callsIn_getterPieces (exported result : String) :
    callsIn operation (getterPieces exported result) = 0 := rfl

@[simp] theorem callsIn_callbackPieces (key : String) (parameters : List String) :
    callsIn operation (callbackPieces key parameters pieces) = callsIn operation pieces := by
  simp [callbackPieces, callsIn, Piece.calls, Function.comp_def]

theorem callsIn_assignmentPieces (scheme : Scheme) (value target : String)
    (hoperation : operation ≠ "runSetters") :
    callsIn operation (assignmentPieces scheme value target) = 0 := by
  unfold assignmentPieces
  dsimp only
  split <;> simp [callsIn, Piece.calls, hoperation.symm]

@[simp] theorem callsIn_memberPieces (object : Piece) (name value : String) :
    callsIn operation (memberPieces object name value) = object.calls operation := by
  simp [memberPieces, callsIn, Piece.calls]

theorem callsIn_keyedPieces {reference specifier : String} {offset : Nat} {objects : List Piece}
    (hitems : ∀ item ∈ items, callsIn operation item = 0)
    (hobjects : ∀ object ∈ objects, object.calls operation = 0) :
    callsIn operation (keyedPieces reference specifier items offset objects) =
      if "importSync" = operation then 1 else 0 := by
  have hitem : (items.map (callsIn operation)).sum = 0 :=
    List.sum_eq_zero (List.forall_mem_map.mpr hitems)
  have hobject : (objects.map fun object => object.calls operation).sum = 0 :=
    List.sum_eq_zero (List.forall_mem_map.mpr hobjects)
  unfold keyedPieces
  split <;> simp [callsIn, Piece.calls, Function.comp_def, hitem, hobject]

theorem callsOutright_eq_zero (hitems : ∀ item ∈ items, callsOutright operation item = 0) :
    (items.map fun item => (item.map (Piece.callsHere operation)).sum).sum = 0 :=
  List.sum_eq_zero (List.forall_mem_map.mpr hitems)

/-- A call of another operation calls none if its arguments do not. -/
theorem callsOutright_callPieces {name : String} (hname : name ≠ operation) (reference : String)
    (hitems : ∀ item ∈ items, callsOutright operation item = 0) :
    callsOutright operation (callPieces reference name items) = 0 := by
  rw [callsOutright, sum_callPieces (fun _ _ => rfl) rfl, callsOutright_eq_zero hitems]
  simp [Piece.callsHere, hname]

/-- Callbacks call nothing where they stand. -/
theorem callsOutright_callbacks {separator : String} {punctuation : isPunctuation separator = true}
    (hitems : ∀ item ∈ items, callsOutright operation item = 0) :
    callsOutright operation (separated separator items punctuation) = 0 := by
  rw [callsOutright, sum_separated rfl, callsOutright_eq_zero hitems]

theorem callsOutright_keyedPieces {reference specifier : String} {offset : Nat} {objects : List Piece}
    (hoperation : operation ≠ "importSync")
    (hitems : ∀ item ∈ items, callsOutright operation item = 0)
    (hobjects : ∀ object ∈ objects, object.callsHere operation = 0) :
    callsOutright operation (keyedPieces reference specifier items offset objects) = 0 := by
  have hbraced : callsOutright operation (inBraces (separated "," items)) = 0 := by
    rw [callsOutright, sum_inBraces fun _ _ => rfl]
    exact callsOutright_callbacks hitems
  have hlist : callsOutright operation (separated "," (objects.map fun object => [object])) = 0 :=
    callsOutright_callbacks (List.forall_mem_map.mpr fun object hobject => by
      simpa [callsOutright] using hobjects object hobject)
  refine callsOutright_callPieces hoperation.symm reference (List.forall_mem_append.mpr ⟨?_, ?_⟩)
  · exact List.forall_mem_cons.mpr ⟨rfl, List.forall_mem_cons.mpr ⟨hbraced, by simp; rfl⟩⟩
  · split
    · exact List.forall_mem_nil _
    · refine List.forall_mem_singleton.mpr ?_
      simpa [callsOutright, Piece.callsHere] using hlist

/-- The registration of exports requests nothing. -/
@[simp] theorem callsIn_registrationPieces (reference : String) (exports : List Export)
    (constant : Bool) : callsIn "importSync" (registrationPieces reference exports constant) = 0 := by
  unfold registrationPieces
  split
  · rfl
  · cases constant <;> simp [exportGetter, callsIn, Piece.calls, Function.comp_def]

end Calls

/-! ### Requests -/

/-- A statement that requests a module by a call with some arguments behind the specifier. -/
inductive RequestForm (reference specifier : String) (arguments : List (List Piece)) : List Piece → Prop
  | call : RequestForm reference specifier arguments
      (callPieces reference "importSync" ([.literal specifier] :: arguments) ++ [.mark ";"])
  /-- The call is made by a function that is itself called at once, with an object that it fills. -/
  | applied (object : String) (getters : List (List Piece)) : RequestForm reference specifier arguments
      ([.mark "(", .function [object] (.parameter object :: .mark "=>" ::
          inBraces (exportPieces reference getters ++ .mark ";" ::
            callPieces reference "importSync" ([.literal specifier] :: arguments))),
        .mark ")(", .outer "Object", .mark ".", .property "create", .mark "(", .null, .mark "))"] ++
        [.mark ";"])

/-- A statement requests a module by one call, with some arguments behind the specifier, and by no other
one, and it calls `export` in functions only. -/
structure RequestsWith (reference specifier : String) (arguments : List (List Piece))
    (pieces : List Piece) : Prop where
  form : RequestForm reference specifier arguments pieces
  once : callsIn "importSync" pieces = 1
  registers : callsOutright "export" pieces = 0

/-- What is passed with the specifier of a request, under the offset of its declaration. -/
def keyedArguments (callbacks : List (List Piece)) (offset : Nat) (objects : List (List Piece)) :
    List (List Piece) :=
  inBraces (separated "," callbacks isPunctuation_comma) :: [.number offset] :: objects

theorem requestPieces_form (scheme : Scheme) (request : Request) :
    (request.use = .bindings [] [] ∧
        RequestForm scheme.reference request.specifier [] (requestPieces scheme request)) ∨
      ∃ callbacks objects, RequestForm scheme.reference request.specifier
        (keyedArguments callbacks request.offset objects) (requestPieces scheme request) := by
  obtain ⟨offset, specifier, use⟩ := request
  unfold requestPieces
  cases use with
  | bindings names objects =>
    dsimp only
    unfold bindingsPieces
    split
    · next hnothing =>
      rw [Bool.and_eq_true, List.isEmpty_iff, List.isEmpty_iff] at hnothing
      obtain ⟨rfl, rfl⟩ := hnothing
      exact .inl ⟨rfl, .call⟩
    · exact .inr ⟨_, _, .call⟩
  | reExport names => exact .inr ⟨_, _, .call⟩
  | reExportAll => exact .inr ⟨_, _, .call⟩
  | reExportNamespace exported => exact .inr ⟨_, _, .applied _ _⟩

/-- A request is made once. -/
theorem callsIn_requestPieces (scheme : Scheme) (request : Request) :
    callsIn "importSync" (requestPieces scheme request) = 1 := by
  obtain ⟨offset, specifier, use⟩ := request
  unfold requestPieces
  rw [callsIn_append]
  cases use with
  | bindings names objects =>
    have hassignment (scheme : Scheme) (value target : String) :=
      callsIn_assignmentPieces scheme value target (show "importSync" ≠ "runSetters" by decide)
    dsimp only
    unfold bindingsPieces
    split
    · simp [callsIn, Piece.calls]
    · rw [callsIn_keyedPieces]
      · simp [callsIn, Piece.calls]
      · refine List.forall_mem_append.mpr ⟨List.forall_mem_map.mpr fun group _ => ?_, ?_⟩
        · simp [Function.comp_def, hassignment]
        · split
          · exact List.forall_mem_nil _
          · refine List.forall_mem_singleton.mpr ?_
            simp [Piece.calls, Function.comp_def]
      · exact List.forall_mem_map.mpr fun _ _ => rfl
  | reExport names =>
    dsimp only
    unfold reExportPieces
    rw [callsIn_keyedPieces]
    · simp [callsIn, Piece.calls]
    · refine List.forall_mem_map.mpr fun group _ => ?_
      simp [exportPieces, callsIn, Piece.calls, Function.comp_def]
    · exact List.forall_mem_nil _
  | reExportAll =>
    dsimp only
    unfold reExportAllPieces
    rw [callsIn_keyedPieces]
    · simp [callsIn, Piece.calls]
    · refine List.forall_mem_singleton.mpr ?_
      simp [exportPieces, callsIn, Piece.calls]
    · exact List.forall_mem_nil _
  | reExportNamespace exported =>
    have hcallback (object : String) (name value : String) : ∀ callback ∈
        [callbackPieces everyName [value, name] (memberPieces (.parameter object) name value)],
        callsIn "importSync" callback = 0 := by
      simp [Piece.calls]
    dsimp only
    unfold reExportNamespacePieces
    simp [exportPieces, callsIn, Piece.calls, callsIn_keyedPieces (hcallback _ _ _)]

/-- A request registers nothing but in functions. -/
theorem callsOutright_requestPieces (scheme : Scheme) (request : Request) :
    callsOutright "export" (requestPieces scheme request) = 0 := by
  obtain ⟨offset, specifier, use⟩ := request
  have hends {pieces : List Piece} (hpieces : callsOutright "export" pieces = 0) :
      callsOutright "export" (pieces ++ [.mark ";"]) = 0 := by
    rw [callsOutright, List.map_append, List.sum_append, ← callsOutright, hpieces]
    rfl
  unfold requestPieces
  refine hends ?_
  cases use with
  | bindings names objects =>
    dsimp only
    unfold bindingsPieces
    split
    · exact callsOutright_callPieces (by decide) _ (List.forall_mem_singleton.mpr rfl)
    · refine callsOutright_keyedPieces (by decide) (List.forall_mem_append.mpr ⟨?_, ?_⟩)
        (List.forall_mem_map.mpr fun _ _ => rfl)
      · exact List.forall_mem_map.mpr fun _ _ => rfl
      · split
        · exact List.forall_mem_nil _
        · exact List.forall_mem_singleton.mpr rfl
  | reExport names =>
    exact callsOutright_keyedPieces (by decide) (List.forall_mem_map.mpr fun _ _ => rfl)
      (List.forall_mem_nil _)
  | reExportAll =>
    exact callsOutright_keyedPieces (by decide) (List.forall_mem_singleton.mpr rfl) (List.forall_mem_nil _)
  | reExportNamespace exported => rfl

/-- **Requests.** The statement of a request makes it by one call, which passes the offset of the
declaration with whatever else it passes, and registers nothing but in functions. -/
theorem requestsWith_requestPieces (scheme : Scheme) (request : Request) :
    (request.use = .bindings [] [] ∧
        RequestsWith scheme.reference request.specifier [] (requestPieces scheme request)) ∨
      ∃ callbacks objects, RequestsWith scheme.reference request.specifier
        (keyedArguments callbacks request.offset objects) (requestPieces scheme request) := by
  have honce := callsIn_requestPieces scheme request
  have hregisters := callsOutright_requestPieces scheme request
  rcases requestPieces_form scheme request with ⟨huse, hform⟩ | ⟨callbacks, objects, hform⟩
  · exact .inl ⟨huse, hform, honce, hregisters⟩
  · exact .inr ⟨callbacks, objects, hform, honce, hregisters⟩

end ModuleLinkage.Lowering
