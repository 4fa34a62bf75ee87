import ModuleLinkage.Proofs.Lowering.Methods

/-!
# Generated callbacks capture no name

A request is written with functions whose parameters have made-up names, and with variables of the
module: the module reference, and the variables and objects that an import fills. Such a name means
the variable only where no function around it has a parameter of that name. `requestPieces` puts a
request together from pieces that say of each identifier what it is to stand for; what is written is
the text of the pieces, and every identifier stands for what it should (`hygienic_request`). The
made-up names are the first that are free (`firstFree_freshName`).
-/

set_option autoImplicit false

namespace ModuleLinkage.Lowering

open Text Ledger

/-! ### The first name that is free -/

/-- A name with underscores behind it. -/
def underscored (base : String) (count : Nat) : String :=
  base ++ String.ofList (List.replicate count '_')

@[simp] theorem underscored_zero (base : String) : underscored base 0 = base := by
  simp [underscored]

theorem underscored_succ (base : String) (count : Nat) :
    underscored (base ++ "_") count = underscored base (count + 1) := by
  apply String.toList_injective
  simp [underscored, List.replicate_succ]

/-- The first of `base`, `base_`, `base__`, … that is not taken. -/
structure FirstFree (base : String) (taken : List String) (name : String) : Prop where
  free : name ∉ taken
  first : ∃ count, name = underscored base count ∧
    ∀ fewer < count, underscored base fewer ∈ taken

theorem FirstFree.unique {base name other : String} {taken : List String}
    (h : FirstFree base taken name) (h' : FirstFree base taken other) : name = other := by
  obtain ⟨hfree, count, rfl, hfirst⟩ := h
  obtain ⟨hfree', count', rfl, hfirst'⟩ := h'
  rcases Nat.lt_trichotomy count count' with hlt | rfl | hlt
  · exact absurd (hfirst' count hlt) hfree
  · rfl
  · exact absurd (hfirst count' hlt) hfree'

/-- Where a name is taken, the first free one is searched behind it. -/
theorem FirstFree.behind {base name : String} {taken : List String} (hbase : base ∈ taken)
    (h : FirstFree (base ++ "_") taken name) : FirstFree base taken name := by
  obtain ⟨hfree, count, rfl, hfirst⟩ := h
  refine ⟨hfree, count + 1, underscored_succ base count, fun fewer hfewer => ?_⟩
  cases fewer with
  | zero => rwa [underscored_zero]
  | succ fewer =>
    rw [← underscored_succ]
    exact hfirst fewer (Nat.lt_of_succ_lt_succ hfewer)

/-- However long is searched, all names that are passed over are taken. -/
theorem exists_freshNameUpTo_underscored (taken : List String) (bound : Nat) (base : String) :
    ∃ count, freshNameUpTo taken bound base = underscored base count ∧
      ∀ fewer < count, underscored base fewer ∈ taken := by
  induction bound generalizing base with
  | zero => exact ⟨0, (underscored_zero base).symm, nofun⟩
  | succ bound ih =>
    rw [freshNameUpTo]
    split
    · next htaken =>
      obtain ⟨count, hname, hfirst⟩ := ih (base ++ "_")
      refine ⟨count + 1, hname.trans (underscored_succ base count), fun fewer hfewer => ?_⟩
      cases fewer with
      | zero => simpa using htaken
      | succ fewer =>
        rw [← underscored_succ]
        exact hfirst fewer (Nat.lt_of_succ_lt_succ hfewer)
    · exact ⟨0, (underscored_zero base).symm, nofun⟩

/-- The search ends at the first name that is free: there are more names to try than are taken. -/
theorem firstFree_freshName (base : String) (taken : List String) :
    FirstFree base taken (freshName base taken) :=
  ⟨freshName_not_mem base taken, exists_freshNameUpTo_underscored taken taken.length base⟩

/-- The search is the loop that goes on as long as the name is taken, without any bound. -/
theorem freshName_eq (base : String) (taken : List String) :
    freshName base taken = if base ∈ taken then freshName (base ++ "_") taken else base := by
  refine (firstFree_freshName base taken).unique ?_
  split
  · next htaken => exact (firstFree_freshName _ taken).behind htaken
  · next hfree => exact ⟨hfree, 0, (underscored_zero base).symm, nofun⟩

/-! ### Pieces of code -/

/-- Whether no character of a text can be part of a word. -/
def isPunctuation (text : String) : Bool :=
  text.toList.all fun c => !Unicode.isPlainPart c

theorem isPunctuation_comma : isPunctuation "," = true := by decide

theorem isPunctuation_semicolon : isPunctuation ";" = true := by decide

theorem isPunctuation_equals : isPunctuation "=" = true := by decide

/-- A piece of generated code. Its identifiers say what they are to stand for. -/
inductive Piece where
  /-- Punctuators. -/
  | mark (text : String) (punctuation : isPunctuation text = true := by decide)
  /-- The word `true`. -/
  | yes
  /-- The word `null`. -/
  | null
  /-- A name behind a period. -/
  | property (name : String)
  /-- A name in front of a method or of the value of a property. -/
  | key (name : String)
  | literal (value : String)
  | number (value : Nat)
  /-- An identifier that is to stand for a variable of the module or of its host. -/
  | outer (name : String)
  /-- An identifier that is to stand for a parameter of a function around it. -/
  | parameter (name : String)
  /-- A function with its parameters, written with the pieces. -/
  | function (parameters : List String) (pieces : List Piece)

mutual

def Piece.text : Piece → List Char
  | .mark text _ => text.toList
  | .yes => "true".toList
  | .null => "null".toList
  | .property name => name.toList
  | .key name => propertyKey name.toList
  | .literal value => quote value.toList
  | .number value => Nat.toDigits 10 value
  | .outer name => name.toList
  | .parameter name => name.toList
  | .function _ pieces => textOf pieces

/-- The text that is written with some pieces. -/
def textOf : List Piece → List Char
  | [] => []
  | piece :: rest => piece.text ++ textOf rest

end

mutual

/-- Whether each identifier of a piece stands for what it is to stand for where the parameters of the
functions around the piece are `around`: a parameter for one of these, and a variable, which is one of
`outside`, for itself, as none of these has its name. The parameters of functions are among `inside`;
no two of a function have one name, and none hides another. -/
def Piece.Resolves (outside inside around : List String) : Piece → Prop
  | .outer name => name ∈ outside ∧ name ∉ around
  | .parameter name => name ∈ around
  | .function parameters pieces =>
    parameters ⊆ inside ∧ (parameters ++ around).Nodup ∧
      AllResolve outside inside (parameters ++ around) pieces
  | _ => True

def AllResolve (outside inside around : List String) : List Piece → Prop
  | [] => True
  | piece :: rest =>
    piece.Resolves outside inside around ∧ AllResolve outside inside around rest

end

namespace Piece

variable {outside inside around : List String}

@[simp] theorem text_mark (mark : String) (punctuation : isPunctuation mark = true) :
    (Piece.mark mark punctuation).text = mark.toList := rfl

@[simp] theorem text_yes : yes.text = "true".toList := rfl

@[simp] theorem text_null : null.text = "null".toList := rfl

@[simp] theorem text_property (name : String) : (property name).text = name.toList := rfl

@[simp] theorem text_key (name : String) : (key name).text = propertyKey name.toList := rfl

@[simp] theorem text_literal (value : String) : (literal value).text = quote value.toList := rfl

@[simp] theorem text_number (value : Nat) : (number value).text = Nat.toDigits 10 value := rfl

@[simp] theorem text_outer (name : String) : (outer name).text = name.toList := rfl

@[simp] theorem text_parameter (name : String) : (parameter name).text = name.toList := rfl

@[simp] theorem text_function (parameters : List String) (pieces : List Piece) :
    (function parameters pieces).text = textOf pieces := rfl

@[simp] theorem resolves_mark (mark : String) (punctuation : isPunctuation mark = true) :
    (Piece.mark mark punctuation).Resolves outside inside around := trivial

@[simp] theorem resolves_yes : yes.Resolves outside inside around := trivial

@[simp] theorem resolves_null : null.Resolves outside inside around := trivial

@[simp] theorem resolves_property (name : String) :
    (property name).Resolves outside inside around := trivial

@[simp] theorem resolves_key (name : String) : (key name).Resolves outside inside around := trivial

@[simp] theorem resolves_literal (value : String) :
    (literal value).Resolves outside inside around := trivial

@[simp] theorem resolves_number (value : Nat) :
    (number value).Resolves outside inside around := trivial

@[simp] theorem resolves_outer (name : String) :
    (outer name).Resolves outside inside around ↔ name ∈ outside ∧ name ∉ around := Iff.rfl

@[simp] theorem resolves_parameter (name : String) :
    (parameter name).Resolves outside inside around ↔ name ∈ around := Iff.rfl

@[simp] theorem resolves_function (parameters : List String) (pieces : List Piece) :
    (function parameters pieces).Resolves outside inside around ↔
      parameters ⊆ inside ∧ (parameters ++ around).Nodup ∧
        AllResolve outside inside (parameters ++ around) pieces := Iff.rfl

end Piece

/-! ### Putting pieces together -/

section Together

variable {outside inside around : List String} {first second : List Piece} {piece : Piece}

@[simp] theorem textOf_nil : textOf [] = [] := rfl

@[simp] theorem textOf_cons : textOf (piece :: first) = piece.text ++ textOf first := rfl

@[simp] theorem textOf_append : textOf (first ++ second) = textOf first ++ textOf second := by
  induction first with
  | nil => rfl
  | cons piece rest ih => simp [ih]

@[simp] theorem allResolve_nil : AllResolve outside inside around [] := trivial

@[simp] theorem allResolve_cons : AllResolve outside inside around (piece :: first) ↔
    piece.Resolves outside inside around ∧ AllResolve outside inside around first := Iff.rfl

@[simp] theorem allResolve_append : AllResolve outside inside around (first ++ second) ↔
    AllResolve outside inside around first ∧ AllResolve outside inside around second := by
  induction first with
  | nil => simp
  | cons piece rest ih => simp [ih, and_assoc]

end Together

/-- Items with a mark between them. -/
def separated (mark : String) (items : List (List Piece))
    (punctuation : isPunctuation mark = true := by decide) : List Piece :=
  List.intercalate [.mark mark punctuation] items

/-- Pieces in braces. -/
def inBraces (pieces : List Piece) : List Piece :=
  .mark "\x7b" :: (pieces ++ [.mark "\x7d"])

/-- A call of the module reference's operation `operation`. -/
def callPieces (reference operation : String) (arguments : List (List Piece)) : List Piece :=
  [.outer reference, .mark ".", .property operation, .mark "("] ++
    (separated "," arguments ++ [.mark ")"])

/-- A property whose value is a function that gives a parameter of a function around it. -/
def getterPieces (exported result : String) : List Piece :=
  [.key exported, .mark ":", .function [] [.mark "()=>", .parameter result]]

/-- The registration of constant getters. -/
def exportPieces (reference : String) (getters : List (List Piece)) : List Piece :=
  callPieces reference "export" [inBraces (separated "," getters), [.yes]]

/-- A callback under its key. -/
def callbackPieces (key : String) (parameters : List String) (body : List Piece) : List Piece :=
  [.key key, .function parameters
    (.mark "(" :: (separated "," (parameters.map fun name => [.parameter name]) ++
      .mark ")" :: inBraces body))]

/-- The assignment of a received value to an imported variable, announced if that is exported. -/
def assignmentPieces (scheme : Scheme) (value target : String) : List Piece :=
  let assignment : List Piece := [.outer target, .mark "=", .parameter value]
  if scheme.exported.contains target then callPieces scheme.reference "runSetters" [assignment]
  else assignment

/-- An assignment to a member of an object. -/
def memberPieces (object : Piece) (name value : String) : List Piece :=
  [object, .mark "[", .parameter name, .mark "]=", .parameter value]

/-- A request with callbacks. -/
def keyedPieces (reference specifier : String) (callbacks : List (List Piece)) (offset : Nat)
    (objects : List Piece) : List Piece :=
  callPieces reference "importSync"
    ([[.literal specifier], inBraces (separated "," callbacks), [.number offset]] ++
      if objects.isEmpty then []
      else [.mark "[" :: (separated "," (objects.map fun object => [object]) ++ [.mark "]"])])

/-- The names that are made up for the parameters of a request. -/
def madeUpNames (scheme : Scheme) (request : Request) : List String :=
  match request.use with
  | .bindings names objects =>
    let taken := names.map (·.2) ++ objects ++ [scheme.reference]
    [freshName "v" taken, freshName "n" taken]
  | .reExport _ => [freshName "v" [scheme.reference]]
  | .reExportAll => [freshName "v" [scheme.reference], freshName "n" [scheme.reference]]
  | .reExportNamespace _ =>
    let object := freshName "o" [scheme.reference]
    [object, freshName "v" [scheme.reference, object], freshName "n" [scheme.reference, object]]

/-- The request of a module whose exports are imported. -/
def bindingsPieces (scheme : Scheme) (specifier : String) (offset : Nat)
    (names : List (String × String)) (objects : List String) : List Piece :=
  if names.isEmpty && objects.isEmpty then
    callPieces scheme.reference "importSync" [[.literal specifier]]
  else
    let taken := names.map (·.2) ++ objects ++ [scheme.reference]
    let value := freshName "v" taken
    let name := freshName "n" taken
    let single := (groupByFirst names).map fun (imported, targets) =>
      callbackPieces imported [value]
        (separated ";" (targets.map (assignmentPieces scheme value)))
    let wildcard :=
      if objects.isEmpty then []
      else
        [callbackPieces everyName [value, name]
          (separated ";" (objects.map fun object => memberPieces (.outer object) name value))]
    keyedPieces scheme.reference specifier (single ++ wildcard) offset (objects.map .outer)

/-- The request of a module some of whose exports are exported again. -/
def reExportPieces (reference specifier : String) (offset : Nat) (names : List (String × String)) :
    List Piece :=
  let value := freshName "v" [reference]
  let callbacks := (groupByFirst names).map fun (imported, exported) =>
    callbackPieces imported [value]
      (exportPieces reference (exported.map fun name => getterPieces name value))
  keyedPieces reference specifier callbacks offset []

/-- The request of a module all of whose exports but the default one are exported again. -/
def reExportAllPieces (reference specifier : String) (offset : Nat) : List Piece :=
  let value := freshName "v" [reference]
  let name := freshName "n" [reference]
  let getter : List Piece :=
    [.mark "[", .parameter name, .mark "]:", .function [] [.mark "()=>", .parameter value]]
  let body : List Piece :=
    [.parameter name, .mark "!==", .literal "default", .mark "&&"] ++
      exportPieces reference [getter]
  keyedPieces reference specifier [callbackPieces everyName [value, name] body] offset []

/-- The request of a module an object of whose exports is exported. -/
def reExportNamespacePieces (reference specifier : String) (offset : Nat) (exported : String) :
    List Piece :=
  let object := freshName "o" [reference]
  let value := freshName "v" [reference, object]
  let name := freshName "n" [reference, object]
  let register := exportPieces reference [getterPieces exported object]
  let callback := callbackPieces everyName [value, name] (memberPieces (.parameter object) name value)
  let request := keyedPieces reference specifier [callback] offset [.parameter object]
  [.mark "(",
    .function [object] (.parameter object :: .mark "=>" ::
      inBraces (register ++ .mark ";" :: request)),
    .mark ")(", .outer "Object", .mark ".", .property "create", .mark "(", .null,
    .mark "))"]

/-- The statement that makes a request. -/
def requestPieces (scheme : Scheme) (request : Request) : List Piece :=
  (match request.use with
  | .bindings names objects =>
    bindingsPieces scheme request.specifier request.offset names objects
  | .reExport names => reExportPieces scheme.reference request.specifier request.offset names
  | .reExportAll => reExportAllPieces scheme.reference request.specifier request.offset
  | .reExportNamespace exported =>
    reExportNamespacePieces scheme.reference request.specifier request.offset exported) ++
      [.mark ";"]

/-- The registration of an export. -/
def exportGetter (item : Export) : List Piece :=
  [.key item.exported, .mark ":", .function [] [.mark "()=>", .outer item.localName]]

/-- The statement that registers exports, if there are any. -/
def registrationPieces (reference : String) (exports : List Export) (constant : Bool) : List Piece :=
  if exports.isEmpty then []
  else
    callPieces reference "export"
      (inBraces (separated "," (exports.map exportGetter)) :: if constant then [[.yes]] else []) ++
        [.mark ";"]

/-- What stands behind the first variable of a declaration: the other ones, and its end. -/
def furtherPieces : List String → List Piece
  | [] => [.mark ";"]
  | name :: others => .mark "," :: .outer name :: furtherPieces others

/-- What stands behind the name of an object without members in its declaration. -/
def creationPieces : List Piece :=
  [.mark "=", .outer "Object", .mark ".", .property "create", .mark "(", .null, .mark ")", .mark ";"]

/-- The variables that the code of a request may mention: the module reference, what an import fills,
and the one by which objects are made. -/
def outsideNames (scheme : Scheme) (request : Request) : List String :=
  [scheme.reference, "Object"] ++
    (request.importedVariables.map (·.2) ++ request.importedNamespaces)

/-! ### What is written -/

theorem textOf_separated (mark : String) (items : List (List Piece))
    (punctuation : isPunctuation mark = true) :
    textOf (separated mark items punctuation) = List.intercalate mark.toList (items.map textOf) := by
  unfold separated
  induction items with
  | nil => rfl
  | cons item rest ih =>
    cases rest with
    | nil => simp
    | cons second rest =>
      rw [List.intercalate_cons_cons, List.map_cons, List.map_cons, List.intercalate_cons_cons,
        ← List.map_cons, ← ih]
      simp

@[simp] theorem textOf_commas (items : List (List Piece)) :
    textOf (separated "," items) = commaSeparated (items.map textOf) :=
  textOf_separated "," items _

@[simp] theorem textOf_semicolons (items : List (List Piece)) :
    textOf (separated ";" items) = semicolonSeparated (items.map textOf) :=
  textOf_separated ";" items _

@[simp] theorem textOf_inBraces (pieces : List Piece) :
    textOf (inBraces pieces) = braced (textOf pieces) := by
  simp [inBraces, braced]

@[simp] theorem textOf_callPieces (reference operation : String) (arguments : List (List Piece)) :
    textOf (callPieces reference operation arguments) =
      callOf reference operation (arguments.map textOf) := by
  simp [callPieces, callOf]

@[simp] theorem textOf_getterPieces (exported result : String) :
    textOf (getterPieces exported result) = getter exported result := by
  simp [getterPieces, getter]

@[simp] theorem textOf_exportPieces (reference : String) (getters : List (List Piece)) :
    textOf (exportPieces reference getters) = exportCall reference (getters.map textOf) true := by
  simp [exportPieces, exportCall]

@[simp] theorem textOf_callbackPieces (key : String) (parameters : List String)
    (body : List Piece) : textOf (callbackPieces key parameters body) =
      setter (propertyKey key.toList) parameters (textOf body) := by
  simp [callbackPieces, setter, Function.comp_def]

@[simp] theorem textOf_assignmentPieces (scheme : Scheme) (value target : String) :
    textOf (assignmentPieces scheme value target) = importAssignment scheme value target := by
  unfold assignmentPieces importAssignment
  dsimp only
  split <;> simp

theorem textOf_keyedPieces (reference specifier : String) (callbacks : List (List Piece))
    (offset : Nat) (objects : List Piece) (names : List String)
    (hobjects : objects.map Piece.text = names.map String.toList) :
    textOf (keyedPieces reference specifier callbacks offset objects) =
      requestCall reference specifier (callbacks.map textOf) offset names := by
  have hempty : objects.isEmpty = names.isEmpty := by
    simpa using congrArg List.isEmpty hobjects
  unfold keyedPieces requestCall
  rw [textOf_callPieces, hempty]
  split <;> simp [← hobjects, Function.comp_def]

theorem textOf_memberPieces (piece : Piece) (object : String)
    (hobject : piece.text = object.toList) (name value : String) :
    textOf (memberPieces piece name value) = memberAssignment object name value := by
  simp [memberPieces, memberAssignment, hobject]

theorem propertyKey_everyName : propertyKey everyName.toList = wildcardKey := rfl

/-- What is written is the text of the pieces. -/
theorem textOf_requestPieces (scheme : Scheme) (request : Request) :
    textOf (requestPieces scheme request) = requestStatement scheme request := by
  obtain ⟨offset, specifier, use⟩ := request
  unfold requestPieces requestStatement
  rw [textOf_append]
  congr 1
  cases use with
  | bindings names objects =>
    dsimp only
    unfold bindingsPieces bindingsCall
    split
    · simp
    · rw [textOf_keyedPieces _ _ _ _ _ objects (by simp [Function.comp_def])]
      dsimp only
      rw [List.map_append, List.map_map]
      congr 2
      · simp [Function.comp_def]
      · have hmember (object : String) :=
          textOf_memberPieces (.outer object) object rfl
        split
        · rfl
        · simp [Function.comp_def, hmember, propertyKey_everyName]
  | reExport names =>
    dsimp only
    unfold reExportPieces reExportCall
    rw [textOf_keyedPieces _ _ _ _ _ [] rfl]
    simp [Function.comp_def]
  | reExportAll =>
    dsimp only
    unfold reExportAllPieces reExportAllCall
    rw [textOf_keyedPieces _ _ _ _ _ [] rfl]
    simp [propertyKey_everyName]
  | reExportNamespace exported =>
    dsimp only
    unfold reExportNamespacePieces reExportNamespaceCall
    dsimp only
    generalize freshName "o" [scheme.reference] = object
    have hkeyed (callbacks : List (List Piece)) := textOf_keyedPieces scheme.reference specifier
      callbacks offset [.parameter object] [object] rfl
    have hmember := textOf_memberPieces (.parameter object) object rfl
    simp [hkeyed, hmember, propertyKey_everyName]

/-! ### What identifiers stand for -/

section Resolving

variable {outside inside around : List String}

@[simp] theorem allResolve_separated {mark : String} {items : List (List Piece)}
    {punctuation : isPunctuation mark = true} :
    AllResolve outside inside around (separated mark items punctuation) ↔
      ∀ item ∈ items, AllResolve outside inside around item := by
  unfold separated
  induction items with
  | nil => simp
  | cons item rest ih =>
    cases rest with
    | nil => simp
    | cons second rest =>
      rw [List.intercalate_cons_cons, allResolve_append, allResolve_append, ih,
        List.forall_mem_cons]
      simp

@[simp] theorem allResolve_inBraces {pieces : List Piece} :
    AllResolve outside inside around (inBraces pieces) ↔
      AllResolve outside inside around pieces := by
  simp [inBraces]

@[simp] theorem allResolve_callPieces {reference operation : String}
    {arguments : List (List Piece)} :
    AllResolve outside inside around (callPieces reference operation arguments) ↔
      (reference ∈ outside ∧ reference ∉ around) ∧
        ∀ argument ∈ arguments, AllResolve outside inside around argument := by
  simp [callPieces]

@[simp] theorem allResolve_getterPieces {exported result : String} :
    AllResolve outside inside around (getterPieces exported result) ↔
      around.Nodup ∧ result ∈ around := by
  simp [getterPieces]

@[simp] theorem allResolve_exportPieces {reference : String} {getters : List (List Piece)} :
    AllResolve outside inside around (exportPieces reference getters) ↔
      (reference ∈ outside ∧ reference ∉ around) ∧
        ∀ getter ∈ getters, AllResolve outside inside around getter := by
  simp [exportPieces]

/-- The parameters of a callback stand for themselves in its list of parameters. -/
@[simp] theorem allResolve_callbackPieces {key : String} {parameters : List String}
    {body : List Piece} :
    AllResolve outside inside around (callbackPieces key parameters body) ↔
      parameters ⊆ inside ∧ (parameters ++ around).Nodup ∧
        AllResolve outside inside (parameters ++ around) body := by
  simp +contextual [callbackPieces]

theorem allResolve_assignmentPieces {scheme : Scheme} {value target : String}
    (hreference : scheme.reference ∈ outside ∧ scheme.reference ∉ around)
    (htarget : target ∈ outside ∧ target ∉ around) (hvalue : value ∈ around) :
    AllResolve outside inside around (assignmentPieces scheme value target) := by
  unfold assignmentPieces
  dsimp only
  split <;> simp [hreference, htarget, hvalue]

@[simp] theorem allResolve_memberPieces {object : Piece} {name value : String} :
    AllResolve outside inside around (memberPieces object name value) ↔
      object.Resolves outside inside around ∧ name ∈ around ∧ value ∈ around := by
  simp [memberPieces]

@[simp] theorem allResolve_keyedPieces {reference specifier : String}
    {callbacks : List (List Piece)} {offset : Nat} {objects : List Piece} :
    AllResolve outside inside around
        (keyedPieces reference specifier callbacks offset objects) ↔
      (reference ∈ outside ∧ reference ∉ around) ∧
        (∀ callback ∈ callbacks, AllResolve outside inside around callback) ∧
          ∀ object ∈ objects, object.Resolves outside inside around := by
  cases objects <;> simp [keyedPieces]

end Resolving

/-! ### Made-up names and what they stand beside -/

/-- A made-up name begins like its base. -/
theorem head?_freshName {base : String} (hbase : base.toList ≠ []) (taken : List String) :
    (freshName base taken).toList.head? = base.toList.head? := by
  obtain ⟨count, hname, -⟩ := (firstFree_freshName base taken).first
  rw [hname, underscored, String.toList_append, List.head?_append_of_ne_nil _ hbase]

theorem freshName_ne_of_head {base other : String} (hbase : base.toList ≠ [])
    (hhead : base.toList.head? ≠ other.toList.head?) (taken : List String) :
    freshName base taken ≠ other := by
  rintro rfl
  exact hhead (head?_freshName hbase taken).symm

theorem freshName_notMem_outside (base : String) (hbase : base.toList ≠ [])
    (hhead : base.toList.head? ≠ "Object".toList.head?) {taken outside : List String}
    (houtside : ∀ name ∈ outside, name = "Object" ∨ name ∈ taken) :
    freshName base taken ∉ outside := by
  intro hmem
  rcases houtside _ hmem with hname | hname
  · exact freshName_ne_of_head hbase hhead taken hname
  · exact freshName_not_mem base taken hname

/-- The names that are made up for a request are distinct. -/
theorem nodup_madeUpNames (scheme : Scheme) (request : Request) :
    (madeUpNames scheme request).Nodup := by
  obtain ⟨offset, specifier, use⟩ := request
  cases use with
  | bindings names objects => simpa [madeUpNames] using freshName_ne _
  | reExport names => simp [madeUpNames]
  | reExportAll => simpa [madeUpNames] using freshName_ne _
  | reExportNamespace exported =>
    have hobject (base : String) {object : String} :
        object ≠ freshName base [scheme.reference, object] := by
      intro hname
      exact freshName_not_mem base [scheme.reference, object] (by simp [← hname])
    simpa [madeUpNames] using ⟨⟨hobject "v", hobject "n"⟩, freshName_ne _⟩

/-- They are none of the variables that its code may mention. -/
theorem notMem_outsideNames (scheme : Scheme) (request : Request) :
    ∀ name ∈ madeUpNames scheme request, name ∉ outsideNames scheme request := by
  obtain ⟨offset, specifier, use⟩ := request
  cases use with
  | bindings names objects =>
    have hfresh (base : String) (hbase : base.toList ≠ [])
        (hhead : base.toList.head? ≠ "Object".toList.head?) :
        freshName base (names.map (·.2) ++ objects ++ [scheme.reference]) ∉
          outsideNames scheme ⟨offset, specifier, .bindings names objects⟩ := by
      refine freshName_notMem_outside base hbase hhead fun name hname => ?_
      simp only [outsideNames, Request.importedVariables, Request.importedNamespaces,
        List.mem_append, List.mem_cons, List.not_mem_nil, or_false] at hname ⊢
      tauto
    intro name hname
    rcases List.mem_pair.mp hname with rfl | rfl
    · exact hfresh "v" (by decide) (by decide)
    · exact hfresh "n" (by decide) (by decide)
  | reExport names =>
    simpa [madeUpNames] using freshName_notMem_outside "v" (by decide) (by decide)
      (by simp [outsideNames, Request.importedVariables, Request.importedNamespaces])
  | reExportAll =>
    have hfresh (base : String) (hbase : base.toList ≠ [])
        (hhead : base.toList.head? ≠ "Object".toList.head?) : freshName base [scheme.reference] ∉
          outsideNames scheme ⟨offset, specifier, .reExportAll⟩ :=
      freshName_notMem_outside base hbase hhead
        (by simp [outsideNames, Request.importedVariables, Request.importedNamespaces])
    simpa [madeUpNames] using ⟨hfresh "v" (by decide) (by decide), hfresh "n" (by decide) (by decide)⟩
  | reExportNamespace exported =>
    have hfresh (base : String) (hbase : base.toList ≠ [])
        (hhead : base.toList.head? ≠ "Object".toList.head?) (taken : List String) :
        freshName base (scheme.reference :: taken) ∉
          outsideNames scheme ⟨offset, specifier, .reExportNamespace exported⟩ :=
      freshName_notMem_outside base hbase hhead
        (by simp [outsideNames, Request.importedVariables, Request.importedNamespaces])
    simpa [madeUpNames] using ⟨hfresh "o" (by decide) (by decide) [],
      hfresh "v" (by decide) (by decide) _, hfresh "n" (by decide) (by decide) _⟩

/-! ### The scopes of a request -/

variable {outside inside : List String}

theorem allResolve_bindingsPieces {scheme : Scheme} {names : List (String × String)}
    {objects : List String} (hreference : scheme.reference ∈ outside)
    (htargets : ∀ target ∈ names.map (·.2) ++ objects, target ∈ outside) {value name : String}
    (hvalue : value = freshName "v" (names.map (·.2) ++ objects ++ [scheme.reference]))
    (hname : name = freshName "n" (names.map (·.2) ++ objects ++ [scheme.reference]))
    (hnodup : [value, name].Nodup) (hapart : ∀ other ∈ [value, name], other ∉ outside)
    (hinside : [value, name] ⊆ inside) (specifier : String) (offset : Nat) :
    AllResolve outside inside [] (bindingsPieces scheme specifier offset names objects) := by
  have hother {target : String} (htarget : target ∈ outside) : target ≠ value ∧ target ≠ name :=
    ⟨fun heq => hapart value (by simp) (heq ▸ htarget),
      fun heq => hapart name (by simp) (heq ▸ htarget)⟩
  unfold bindingsPieces
  split
  · simpa using hreference
  dsimp only
  rw [← hvalue, ← hname, allResolve_keyedPieces]
  refine ⟨⟨hreference, List.not_mem_nil⟩, fun callback hcallback => ?_, ?_⟩
  · rcases List.mem_append.mp hcallback with hcallback | hcallback
    · obtain ⟨group, hgroup, rfl⟩ := List.mem_map.mp hcallback
      simp only [allResolve_callbackPieces, allResolve_separated, List.forall_mem_map]
      refine ⟨fun other hother => hinside (by simp_all), by simp, fun target htarget => ?_⟩
      -- The variables of a group are variables of the import.
      rw [(((groupsOf_groupByFirst names).mem group.1 group.2).mp hgroup).1] at htarget
      have hmem : target ∈ outside :=
        htargets target (List.mem_append_left _ (List.mem_map_of_mem (mem_targetsOf.mp htarget)))
      exact allResolve_assignmentPieces ⟨hreference, by simpa using (hother hreference).1⟩
        ⟨hmem, by simpa using (hother hmem).1⟩ (by simp)
    · split at hcallback
      · cases hcallback
      · obtain rfl := List.mem_singleton.mp hcallback
        simp only [allResolve_callbackPieces, allResolve_separated, List.forall_mem_map]
        refine ⟨hinside, by simpa using hnodup, fun object hobject => ?_⟩
        have hmem : object ∈ outside := htargets object (List.mem_append_right _ hobject)
        simpa [hmem] using hother hmem
  · rw [List.forall_mem_map]
    exact fun object hobject =>
      ⟨htargets object (List.mem_append_right _ hobject), List.not_mem_nil⟩

theorem allResolve_reExportPieces {reference value : String} (hreference : reference ∈ outside)
    (hvalue : value = freshName "v" [reference]) (hapart : value ∉ outside)
    (hinside : value ∈ inside) (specifier : String) (offset : Nat)
    (names : List (String × String)) :
    AllResolve outside inside [] (reExportPieces reference specifier offset names) := by
  have hother : reference ≠ value := fun heq => hapart (heq ▸ hreference)
  unfold reExportPieces
  dsimp only
  rw [← hvalue, allResolve_keyedPieces]
  refine ⟨⟨hreference, List.not_mem_nil⟩, ?_, nofun⟩
  rw [List.forall_mem_map]
  intro group _
  simp [hinside, hreference, hother]

theorem allResolve_reExportAllPieces {reference value name : String}
    (hreference : reference ∈ outside) (hvalue : value = freshName "v" [reference])
    (hname : name = freshName "n" [reference]) (hnodup : [value, name].Nodup)
    (hapart : ∀ other ∈ [value, name], other ∉ outside) (hinside : [value, name] ⊆ inside)
    (specifier : String) (offset : Nat) :
    AllResolve outside inside [] (reExportAllPieces reference specifier offset) := by
  have hother : reference ≠ value ∧ reference ≠ name :=
    ⟨fun heq => hapart value (by simp) (heq ▸ hreference),
      fun heq => hapart name (by simp) (heq ▸ hreference)⟩
  unfold reExportAllPieces
  dsimp only
  rw [← hvalue, ← hname]
  simp_all

theorem allResolve_reExportNamespacePieces {reference object value name : String}
    (hreference : reference ∈ outside) (hobjects : "Object" ∈ outside)
    (hobject : object = freshName "o" [reference])
    (hvalue : value = freshName "v" [reference, object])
    (hname : name = freshName "n" [reference, object]) (hnodup : [object, value, name].Nodup)
    (hapart : ∀ other ∈ [object, value, name], other ∉ outside)
    (hinside : [object, value, name] ⊆ inside) (specifier : String) (offset : Nat)
    (exported : String) : AllResolve outside inside []
      (reExportNamespacePieces reference specifier offset exported) := by
  have hother {other : String} (hmem : other ∈ [object, value, name]) : reference ≠ other :=
    fun heq => hapart other hmem (heq ▸ hreference)
  have hrotated : [value, name, object].Nodup := by
    simp only [List.nodup_cons, List.mem_cons, List.not_mem_nil, or_false, not_or] at hnodup ⊢
    tauto
  unfold reExportNamespacePieces
  dsimp only
  rw [← hobject, ← hvalue, ← hname]
  simp_all

/-- Every identifier in the code of a request stands for what it is to stand for. -/
theorem allResolve_requestPieces (scheme : Scheme) (request : Request) :
    AllResolve (outsideNames scheme request) (madeUpNames scheme request) []
      (requestPieces scheme request) := by
  have hnodup := nodup_madeUpNames scheme request
  have hapart := notMem_outsideNames scheme request
  have hreference : scheme.reference ∈ outsideNames scheme request := by simp [outsideNames]
  unfold requestPieces
  rw [allResolve_append]
  refine ⟨?_, by simp⟩
  obtain ⟨offset, specifier, use⟩ := request
  cases use with
  | bindings names objects =>
    refine allResolve_bindingsPieces hreference (fun target htarget => ?_) rfl rfl hnodup hapart
      (List.Subset.refl _) specifier offset
    exact List.mem_append_right _ htarget
  | reExport names =>
    exact allResolve_reExportPieces hreference rfl (hapart _ (by simp [madeUpNames]))
      (by simp [madeUpNames]) specifier offset names
  | reExportAll =>
    exact allResolve_reExportAllPieces hreference rfl rfl hnodup hapart (List.Subset.refl _)
      specifier offset
  | reExportNamespace exported =>
    exact allResolve_reExportNamespacePieces hreference (by simp [outsideNames]) rfl rfl rfl hnodup
      hapart (List.Subset.refl _) specifier offset exported

/-- No function in the code of a request takes a name away from what it is to stand for. -/
structure Hygienic (scheme : Scheme) (request : Request) : Prop where
  /-- What is written is the text of the pieces. -/
  written : textOf (requestPieces scheme request) = requestStatement scheme request
  /-- The names that are made up for it are distinct. -/
  distinct : (madeUpNames scheme request).Nodup
  /-- None of them is the module reference, a variable or an object that the request fills, or the
  variable by which objects are made. -/
  apart : ∀ name ∈ madeUpNames scheme request, name ∉ outsideNames scheme request
  /-- They are all the parameters there are. A parameter is used within its function only, and a
  variable in no function that has a parameter of its name. -/
  resolves : AllResolve (outsideNames scheme request) (madeUpNames scheme request) []
    (requestPieces scheme request)

/-- **Hygiene.** Requests capture no name. The names in them are made up by a search that ends at the
first name that is free, however many are taken, and this is the search that goes on as long as the
name is taken. -/
theorem hygienic_request (scheme : Scheme) (request : Request) (base : String)
    (taken : List String) : Hygienic scheme request ∧ FirstFree base taken (freshName base taken) ∧
      freshName base taken = if base ∈ taken then freshName (base ++ "_") taken else base :=
  ⟨⟨textOf_requestPieces scheme request, nodup_madeUpNames scheme request,
      notMem_outsideNames scheme request, allResolve_requestPieces scheme request⟩,
    firstFree_freshName base taken, freshName_eq base taken⟩

/-- The module reference may itself be one of the names that are tried. -/
example : madeUpNames ⟨"v", []⟩ ⟨0, "m", .bindings [("a", "n"), ("b", "v_")] []⟩ = ["v__", "n_"] := by
  decide

end ModuleLinkage.Lowering
