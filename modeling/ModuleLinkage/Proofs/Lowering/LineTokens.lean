import ModuleLinkage.Proofs.Lowering.GeneratedLine
import ModuleLinkage.Proofs.Lowering.PieceTokens

/-!
# Names in the generated line

Specifiers and the names of exports may be any strings at all. In the generated line each of them stands
as a key or as a string literal, and is one token there, whatever it holds. So the line is read as the
tokens of its parts (`readAs_lineTokens`), and other names in the same places leave all of it but the
names as it is (`shape_lineParts`). `names_stay_tokens` puts this together with what is read where a
single name is written. A bare key is one token only where no name goes on behind it, as behind every
key of the line; `bareKey_lengthened` shows one that a further letter makes another name.
-/

set_option autoImplicit false

namespace ModuleLinkage.Lowering

open Syntax Text Unicode

/-! ### The line -/

/-- The tokens of a declaration: a word, a name behind a blank, and pieces. -/
def declarationTokens (word name : String) (pieces : List Piece) : List Syntax.Piece :=
  namePiece [] false word :: namePiece [' '] false name :: tokensOf pieces

/-- The tokens of the declaration of variables. -/
def variableTokens : List String → List Syntax.Piece
  | [] => []
  | name :: others => declarationTokens "let" name (furtherPieces others)

/-- The tokens of the declaration of an object that a namespace import fills. -/
def objectTokens (name : String) : List Syntax.Piece :=
  declarationTokens "const" name creationPieces

/-- A part of the generated line. -/
inductive LinePart where
  | statement (pieces : List Piece)
  /-- The declaration of the variables that imports assign. -/
  | variables (names : List String)
  /-- The declaration of an object that a namespace import fills. -/
  | object (name : String)

def LinePart.tokens : LinePart → List Syntax.Piece
  | .statement pieces => tokensOf pieces
  | .variables names => variableTokens names
  | .object name => objectTokens name

/-- The parts of the generated line. -/
def lineParts (reference : String) (constants : List String) (exports : List Export)
    (requests : List Request) : List LinePart :=
  let isConstant (item : Export) : Bool := constants.contains item.localName
  let scheme : Scheme := ⟨reference, exports.map Export.localName⟩
  [.statement (registrationPieces reference (exports.filter fun item => !isConstant item) false),
    .statement (registrationPieces reference (exports.filter isConstant) true),
    .variables (withoutRepetition (requests.flatMap fun request =>
      request.importedVariables.map (·.2)))] ++
    (requests.flatMap Request.importedNamespaces).map .object ++
    (inSourceOrder requests).map fun request => .statement (requestPieces scheme request)

/-- The tokens of the generated line. -/
def lineTokens (reference : String) (constants : List String) (exports : List Export)
    (requests : List Request) : List Syntax.Piece :=
  (lineParts reference constants exports requests).flatMap LinePart.tokens

section Line

variable {reference word name : String} {rest : List Char}

/-- A blank in front of a name is a gap. -/
theorem name_stands_behind_blank (hname : isIdentifier name.toList = true)
    (hrest : ¬ ContinuesName rest) : (namePiece [' '] false name).Stands rest := by
  have hstands := name_stands hname hrest
  refine ⟨hstands.valid, hstands.nonempty, .inr fun offset => ?_, hstands.token⟩
  exact skipGap_of_startsToken (startsToken_identifier hname) false (offset + 1)

theorem readAs_declarationTokens {pieces : List Piece} (hword : isIdentifier word.toList = true)
    (hname : isIdentifier name.toList = true)
    (hopens : ¬ ContinuesName (textOf pieces ++ rest)) (hpieces : Spelled pieces rest) :
    ReadAs (declarationTokens word name pieces)
      (word.toList ++ ' ' :: name.toList ++ textOf pieces) rest := by
  refine ⟨?_, ?_⟩
  · rw [declarationTokens, Syntax.textOf_cons, Syntax.textOf_cons, hpieces.1]
    simp [namePiece]
  · rw [declarationTokens]
    refine ⟨name_stands hword ?_, name_stands_behind_blank hname (hpieces.1 ▸ hopens), hpieces.2⟩
    rw [Syntax.textOf_cons]
    exact continuesName_cons.not.mpr (by decide)

variable {exports : List Export} {constant : Bool}

theorem textOf_registrationPieces :
    textOf (registrationPieces reference exports constant) = exportStatement reference exports constant := by
  unfold registrationPieces exportStatement
  split
  · rfl
  · have hgetter (item : Export) : textOf (exportGetter item) = getter item.exported item.localName := by
      simp [exportGetter, getter]
    cases constant <;> simp [exportCall, Function.comp_def, hgetter]

theorem spelled_registrationPieces (hreference : isIdentifier reference.toList = true)
    (hexports : ∀ item ∈ exports, isIdentifier item.localName.toList = true) :
    Spelled (registrationPieces reference exports constant) rest := by
  have hgetters : Readable (inBraces (separated "," (exports.map exportGetter))) := fun _ _ =>
    spelled_inBraces (readable_commas (List.forall_mem_map.mpr fun item hitem =>
      readable_getter (readable_outer (hexports item hitem))))
  unfold registrationPieces
  split
  · exact spelled_nil
  · refine (readable_callPieces hreference (by decide) ?_).append_mark (by decide) (by decide)
    refine List.forall_mem_cons.mpr ⟨hgetters, ?_⟩
    split
    · exact List.forall_mem_singleton.mpr readable_yes
    · exact List.forall_mem_nil _

theorem commaSeparated_cons (first : List Char) (others : List (List Char)) :
    commaSeparated (first :: others) = first ++ others.flatMap fun other => ',' :: other := by
  induction others generalizing first with
  | nil => simp [commaSeparated]
  | cons second others ih =>
    unfold commaSeparated at ih ⊢
    rw [List.intercalate_cons_cons, ih, List.flatMap_cons]
    simp

/-- Further variables are read up to the end of their declaration. -/
theorem spelled_furtherPieces {names : List String}
    (hnames : ∀ name ∈ names, isIdentifier name.toList = true) :
    ¬ ContinuesName (textOf (furtherPieces names) ++ rest) ∧ Spelled (furtherPieces names) rest := by
  induction names with
  | nil => exact ⟨not_continuesName_mark (by decide), spelled_mark (by decide)⟩
  | cons name names ih =>
    rw [List.forall_mem_cons] at hnames
    obtain ⟨hends, hspelled⟩ := ih hnames.2
    exact ⟨not_continuesName_mark (by decide),
      spelled_cons (spelled_mark (by decide)) (spelled_cons (spelled_outer hnames.1 hends) hspelled)⟩

theorem textOf_furtherPieces (names : List String) :
    textOf (furtherPieces names) = ((names.map String.toList).flatMap fun name => ',' :: name) ++ [';'] := by
  induction names with
  | nil => rfl
  | cons name names ih =>
    rw [furtherPieces, textOf, textOf, ih]
    simp

theorem readAs_variableTokens {names : List String}
    (hnames : ∀ name ∈ names, isIdentifier name.toList = true) :
    ReadAs (variableTokens names) (if names.isEmpty then []
      else "let ".toList ++ commaSeparated (names.map String.toList) ++ [';']) rest := by
  cases names with
  | nil => exact ⟨rfl, trivial⟩
  | cons name others =>
    rw [List.forall_mem_cons] at hnames
    obtain ⟨hends, hspelled⟩ := spelled_furtherPieces hnames.2
    have hread := readAs_declarationTokens (show isIdentifier "let".toList = true by decide) hnames.1 hends
      hspelled
    rw [textOf_furtherPieces] at hread
    simpa [variableTokens, commaSeparated_cons] using hread

theorem readAs_objectTokens (hname : isIdentifier name.toList = true) :
    ReadAs (objectTokens name) ("const ".toList ++ name.toList ++ "=Object.create(null);".toList) rest := by
  have hspelled : Spelled creationPieces rest :=
    spelled_append (spelled_cons (spelled_mark_before (by decide) (by decide))
      (spelled_creation (by decide) (by decide))) (spelled_mark (by decide))
  have hread := readAs_declarationTokens (show isIdentifier "const".toList = true by decide) hname
    (not_continuesName_mark (by decide)) hspelled
  simpa [objectTokens, creationPieces] using hread

/-- The variables that a line of generated code mentions. -/
def lineVariables (reference : String) (exports : List Export) (requests : List Request) : List String :=
  reference :: (exports.map Export.localName ++
    (requests.flatMap fun request => request.importedVariables.map (·.2)) ++
    requests.flatMap Request.importedNamespaces)

theorem lineTokens_eq (reference : String) (constants : List String) (exports : List Export)
    (requests : List Request) : lineTokens reference constants exports requests =
      tokensOf (registrationPieces reference
          (exports.filter fun item => !constants.contains item.localName) false) ++
        tokensOf (registrationPieces reference
          (exports.filter fun item => constants.contains item.localName) true) ++
        variableTokens (withoutRepetition (requests.flatMap fun request =>
          request.importedVariables.map (·.2))) ++
        (requests.flatMap Request.importedNamespaces).flatMap objectTokens ++
        (inSourceOrder requests).flatMap fun request =>
          tokensOf (requestPieces ⟨reference, exports.map Export.localName⟩ request) := by
  simp [lineTokens, lineParts, LinePart.tokens, List.flatMap_map]

/-- The generated line is read as the tokens of its pieces, whatever follows. -/
theorem readAs_lineTokens (constants : List String) {requests : List Request}
    (hnames : ∀ name ∈ lineVariables reference exports requests, isIdentifier name.toList = true) :
    ReadAs (lineTokens reference constants exports requests)
      (hoistedCode reference constants exports requests) rest := by
  simp only [lineVariables, List.forall_mem_cons, List.forall_mem_append, List.forall_mem_map] at hnames
  obtain ⟨hreference, ⟨hexports, hvariables⟩, hobjects⟩ := hnames
  have hregistration (items : List Export) (hitems : items ⊆ exports) (constant : Bool) {rest : List Char} :
      ReadAs (tokensOf (registrationPieces reference items constant))
        (exportStatement reference items constant) rest := by
    have hspelled : Spelled (registrationPieces reference items constant) rest :=
      spelled_registrationPieces hreference fun item hitem => hexports item (hitems hitem)
    rwa [Spelled, textOf_registrationPieces] at hspelled
  have hdeclared {rest : List Char} : ReadAs (variableTokens (withoutRepetition (requests.flatMap
      fun request => request.importedVariables.map (·.2)))) (importVariables requests) rest :=
    readAs_variableTokens fun name hname => by
      obtain ⟨request, hrequest, hname⟩ := List.mem_flatMap.mp (mem_withoutRepetition.mp hname)
      exact hvariables name (List.mem_flatMap.mpr ⟨request, hrequest, hname⟩)
  have hmade {rest : List Char} : ReadAs ((requests.flatMap Request.importedNamespaces).flatMap
      objectTokens) (importObjects requests) rest :=
    readAs_flatMap fun name hname rest => readAs_objectTokens (hobjects name hname)
  have hrequested {rest : List Char} (scheme : Scheme) (hscheme : scheme.reference = reference) :
      ReadAs ((inSourceOrder requests).flatMap fun request => tokensOf (requestPieces scheme request))
        ((inSourceOrder requests).flatMap (requestStatement scheme)) rest := by
    refine readAs_flatMap fun request hrequest rest => ?_
    have hmem : request ∈ requests := List.mem_mergeSort.mp hrequest
    have hspelled : Spelled (requestPieces scheme request) rest :=
      spelled_requestPieces (hscheme ▸ hreference)
        (fun pair hpair => hvariables _
          (List.mem_flatMap.mpr ⟨request, hmem, List.mem_map_of_mem hpair⟩))
        fun object hobject => hobjects _ (List.mem_flatMap.mpr ⟨request, hmem, hobject⟩)
    rwa [Spelled, textOf_requestPieces] at hspelled
  rw [lineTokens_eq]
  exact readAs_append (readAs_append (readAs_append (readAs_append
    (hregistration _ (List.filter_subset_self _) _) (hregistration _ (List.filter_subset_self _) _)) hdeclared)
    hmade) (hrequested _ rfl)

end Line

/-! ### Other names in the same places -/

mutual

/-- A piece without the names in its keys and literals. -/
def Piece.shape : Piece → Piece
  | .key _ => .key ""
  | .literal _ => .literal ""
  | .function parameters pieces => .function parameters (shapeOf pieces)
  | .mark text punctuation => .mark text punctuation
  | .yes => .yes
  | .null => .null
  | .property name => .property name
  | .number value => .number value
  | .outer name => .outer name
  | .parameter name => .parameter name

def shapeOf : List Piece → List Piece
  | [] => []
  | piece :: rest => piece.shape :: shapeOf rest

end

/-- Names of exports and specifiers that are put in the place of others. -/
structure Renaming where
  specifier : String → String
  /-- The name under which this module exports. -/
  exported : String → String
  /-- The name of an export of another module. -/
  imported : String → String
  /-- Different exports of other modules stay different. -/
  injective : Function.Injective imported

def Renaming.use (names : Renaming) : RequestUse → RequestUse
  | .bindings pairs objects => .bindings (pairs.map (Prod.map names.imported id)) objects
  | .reExport pairs => .reExport (pairs.map (Prod.map names.imported names.exported))
  | .reExportAll => .reExportAll
  | .reExportNamespace exported => .reExportNamespace (names.exported exported)

/-- A request under other names. -/
def Renaming.request (names : Renaming) (request : Request) : Request :=
  ⟨request.offset, names.specifier request.specifier, names.use request.use⟩

/-- An export under another name. -/
def Renaming.export (names : Renaming) (item : Export) : Export :=
  { item with exported := names.exported item.exported }

section Shapes

variable {first second : List Piece}

@[simp] theorem shapeOf_append : shapeOf (first ++ second) = shapeOf first ++ shapeOf second := by
  induction first with
  | nil => rfl
  | cons piece first ih => rw [List.cons_append, shapeOf, ih, shapeOf, List.cons_append]

@[simp] theorem shapeOf_separated (mark : String) (items : List (List Piece))
    (punctuation : isPunctuation mark = true) :
    shapeOf (separated mark items punctuation) = separated mark (items.map shapeOf) punctuation := by
  unfold separated
  induction items with
  | nil => rfl
  | cons item items ih =>
    cases items with
    | nil => simp
    | cons second items =>
      rw [List.intercalate_cons_cons, shapeOf_append, shapeOf_append, ih]
      exact List.intercalate_cons_cons.symm

@[simp] theorem shapeOf_inBraces (pieces : List Piece) :
    shapeOf (inBraces pieces) = inBraces (shapeOf pieces) := by
  simp [inBraces, shapeOf, Piece.shape]

@[simp] theorem shapeOf_callPieces (reference operation : String) (arguments : List (List Piece)) :
    shapeOf (callPieces reference operation arguments) =
      callPieces reference operation (arguments.map shapeOf) := by
  simp [callPieces, shapeOf, Piece.shape]

@[simp] theorem shapeOf_exportPieces (reference : String) (getters : List (List Piece)) :
    shapeOf (exportPieces reference getters) = exportPieces reference (getters.map shapeOf) := by
  simp [exportPieces, shapeOf, Piece.shape]

@[simp] theorem shapeOf_getterPieces (exported result : String) :
    shapeOf (getterPieces exported result) = getterPieces "" result :=
  rfl

@[simp] theorem shapeOf_callbackPieces (key : String) (parameters : List String) (body : List Piece) :
    shapeOf (callbackPieces key parameters body) = callbackPieces "" parameters (shapeOf body) := by
  simp [callbackPieces, shapeOf, Piece.shape, Function.comp_def]

@[simp] theorem shapeOf_keyedPieces (reference specifier : String) (callbacks : List (List Piece))
    (offset : Nat) (objects : List Piece) :
    shapeOf (keyedPieces reference specifier callbacks offset objects) =
      keyedPieces reference "" (callbacks.map shapeOf) offset (objects.map Piece.shape) := by
  unfold keyedPieces
  rw [shapeOf_callPieces, List.isEmpty_map]
  split <;> simp [shapeOf, Piece.shape, Function.comp_def]

/-- Pairs with other first components that are distinct alike are grouped alike. -/
theorem groupByFirst_map {key : String → String} (hkey : Function.Injective key) (value : String → String)
    (pairs : List (String × String)) : groupByFirst (pairs.map (Prod.map key value)) =
      (groupByFirst pairs).map (Prod.map key (List.map value)) := by
  have hadd (first second : String) (groups : List (String × List String)) :
      addToGroup (key first) (value second) (groups.map (Prod.map key (List.map value))) =
        (addToGroup first second groups).map (Prod.map key (List.map value)) := by
    induction groups with
    | nil => rfl
    | cons group groups ih =>
      obtain ⟨present, values⟩ := group
      rw [List.map_cons, Prod.map_apply, addToGroup, addToGroup, ih]
      by_cases hsame : present = first
      · simp [hsame]
      · simp [hsame, hkey.ne hsame]
  have hfold (groups : List (String × List String)) :
      (pairs.map (Prod.map key value)).foldl (fun groups pair => addToGroup pair.1 pair.2 groups)
          (groups.map (Prod.map key (List.map value))) =
        (pairs.foldl (fun groups pair => addToGroup pair.1 pair.2 groups) groups).map
          (Prod.map key (List.map value)) := by
    induction pairs generalizing groups with
    | nil => rfl
    | cons pair pairs ih => rw [List.map_cons, List.foldl_cons, List.foldl_cons, ← ih, ← hadd]; rfl
  exact hfold []

/-- Under other names a request is written with the same pieces but for these names. -/
theorem shapeOf_requestPieces (names : Renaming) (scheme : Scheme) (request : Request) :
    shapeOf (requestPieces scheme (names.request request)) = shapeOf (requestPieces scheme request) := by
  obtain ⟨offset, specifier, use⟩ := request
  unfold requestPieces Renaming.request
  rw [shapeOf_append, shapeOf_append]
  congr 1
  cases use with
  | bindings pairs objects =>
    have hvariables : (pairs.map (Prod.map names.imported id)).map (·.2) = pairs.map (·.2) := by
      simp [Function.comp_def]
    simp only [Renaming.use, bindingsPieces, hvariables, List.isEmpty_map,
      groupByFirst_map names.injective]
    split
    · simp [shapeOf, Piece.shape]
    · simp [Piece.shape, Function.comp_def]
  | reExport pairs =>
    simp [Renaming.use, reExportPieces, groupByFirst_map names.injective, Function.comp_def]
  | reExportAll => simp [Renaming.use, reExportAllPieces]
  | reExportNamespace exported =>
    simp [Renaming.use, reExportNamespacePieces, shapeOf, Piece.shape]

theorem shapeOf_registrationPieces (names : Renaming) (reference : String) (exports : List Export)
    (constant : Bool) : shapeOf (registrationPieces reference (exports.map names.export) constant) =
      shapeOf (registrationPieces reference exports constant) := by
  unfold registrationPieces
  rw [List.isEmpty_map]
  split
  · rfl
  · cases constant <;> simp [Function.comp_def, exportGetter, Renaming.export, shapeOf, Piece.shape]

/-- A part of the line without the names in its keys and literals. -/
def LinePart.shape : LinePart → LinePart
  | .statement pieces => .statement (shapeOf pieces)
  | .variables names => .variables names
  | .object name => .object name

/-- Under other names the line has the same parts but for these names. -/
theorem shape_lineParts (names : Renaming) (reference : String) (constants : List String)
    (exports : List Export) (requests : List Request) :
    (lineParts reference constants (exports.map names.export) (requests.map names.request)).map
        LinePart.shape = (lineParts reference constants exports requests).map LinePart.shape := by
  have hregistration (test : String → Bool) (constant : Bool) :
      shapeOf (registrationPieces reference
          ((exports.map names.export).filter fun item => test item.localName) constant) =
        shapeOf (registrationPieces reference (exports.filter fun item => test item.localName) constant) := by
    rw [List.filter_map]
    exact shapeOf_registrationPieces names ..
  have hvariables (request : Request) : (names.request request).importedVariables.map (·.2) =
      request.importedVariables.map (·.2) := by
    obtain ⟨offset, specifier, use⟩ := request
    cases use <;> simp [Renaming.request, Renaming.use, Request.importedVariables, Function.comp_def]
  have hobjects (request : Request) :
      (names.request request).importedNamespaces = request.importedNamespaces := by
    obtain ⟨offset, specifier, use⟩ := request
    cases use <;> rfl
  have horder : inSourceOrder (requests.map names.request) = (inSourceOrder requests).map names.request := by
    unfold inSourceOrder
    rw [List.map_mergeSort]
    intros
    rfl
  have hlocal : (exports.map names.export).map Export.localName = exports.map Export.localName := by
    simp [Renaming.export, Function.comp_def]
  unfold lineParts
  dsimp only
  rw [hlocal, horder]
  simp only [List.map_append, List.map_cons, List.map_nil, List.map_map, List.flatMap_map,
    Function.comp_def, LinePart.shape, shapeOf_requestPieces, hvariables, hobjects]
  rw [hregistration (fun name => !constants.contains name), hregistration constants.contains]

end Shapes

/-! ### Names that are free to choose -/

/-- What is read where a name is written in front of a text. -/
structure SurvivesQuoting (name rest : List Char) (offset : Nat) : Prop where
  /-- In quotes it is one string literal with the name as its value, whatever follows. -/
  literal : readToken ⟨quote name ++ rest, offset⟩ =
    (.string ⟨String.ofList name, true⟩, ⟨rest, offset + width (quote name)⟩)
  /-- As a key it is one token, if it is in quotes or the text does not make a bare name longer. -/
  key : readToken ⟨Text.propertyKey name ++ rest, offset⟩ =
      (Syntax.keyToken name, ⟨rest, offset + width (Text.propertyKey name)⟩) ↔
    (isPlainIdentifier name = true → ¬ ContinuesName rest)
  /-- That token is the name of the property. -/
  named : propertyName? (Syntax.keyToken name) = some (String.ofList name)
  /-- Neither has more than one line. -/
  oneLine : ∀ c ∈ quote name ++ Text.propertyKey name, c ≠ '\n' ∧ c ≠ '\r'

theorem survivesQuoting (name rest : List Char) (offset : Nat) : SurvivesQuoting name rest offset where
  literal := readToken_quoted name rest offset
  key := readToken_propertyKey_iff name rest offset
  named := propertyName?_keyToken name
  oneLine := by
    have hquote := lineBreaks_eq_nil_iff.mp (lineBreaks_quote name)
    have hkey := lineBreaks_eq_nil_iff.mp (lineBreaks_propertyKey name)
    intro c hc
    rcases List.mem_append.mp hc with hc | hc
    · exact ⟨ne_of_mem_of_not_mem hc hquote.1, ne_of_mem_of_not_mem hc hquote.2⟩
    · exact ⟨ne_of_mem_of_not_mem hc hkey.1, ne_of_mem_of_not_mem hc hkey.2⟩

/-- **Names in generated code.** Whatever a specifier or the name of an export holds, in quotes it is
one string literal, and as a key one property name. In the generated line of a module whose variables
are identifiers, every specifier and name is one token where it stands, the line is read as these tokens
and those of the pieces around them, and with other names only the names are others. -/
theorem names_stay_tokens (name rest : List Char) (offset : Nat) (names : Renaming) (reference : String)
    (constants : List String) (exports : List Export) (requests : List Request) :
    SurvivesQuoting name rest offset ∧
      ((∀ identifier ∈ lineVariables reference exports requests, isIdentifier identifier.toList = true) →
        ReadAs (lineTokens reference constants exports requests)
          (hoistedCode reference constants exports requests) rest) ∧
      (lineParts reference constants (exports.map names.export) (requests.map names.request)).map
          LinePart.shape = (lineParts reference constants exports requests).map LinePart.shape :=
  ⟨survivesQuoting name rest offset, readAs_lineTokens constants,
    shape_lineParts names reference constants exports requests⟩

/-- A bare key in front of a letter is another name. -/
theorem bareKey_lengthened :
    readToken ⟨Text.propertyKey "a".toList ++ "b".toList, 0⟩ = (.word "ab" false, ⟨[], 2⟩) ∧
      readToken ⟨Text.propertyKey "a".toList ++ "b".toList, 0⟩ ≠
        (Syntax.keyToken "a".toList, ⟨"b".toList, width (Text.propertyKey "a".toList)⟩) := by
  have hname : isIdentifier "ab".toList = true := by decide
  have hread : readToken ⟨"ab".toList ++ [], 0⟩ = (.word "ab" false, ⟨[], 0 + width "ab".toList⟩) :=
    readToken_identifier hname (by simp [ContinuesName]) 0
  have hjoined : Text.propertyKey "a".toList ++ "b".toList = "ab".toList ++ [] := by decide
  rw [hjoined]
  exact ⟨hread, fun hkey => absurd (Prod.mk.inj (hread.symm.trans hkey)).1 (by decide)⟩

/-- Requests whose specifiers hold quotes, breaks of lines and what ends a call. -/
def hostileRequests : List Request :=
  [⟨9, "\"\x7d);\n\u2028throw \\", .bindings [("a-b\r", "x"), ("default", "é")] ["space"]⟩,
    ⟨4, "*/ //", .reExport [("\"", "*"), ("b", "\x00")]⟩, ⟨7, "", .reExportNamespace "__proto__"⟩]

theorem names_stay_tokens_hostile : (∀ identifier ∈ lineVariables "module" [⟨"\":", "x"⟩] hostileRequests,
      isIdentifier identifier.toList = true) ∧
    ReadAs (lineTokens "module" ["x"] [⟨"\":", "x"⟩] hostileRequests)
      (hoistedCode "module" ["x"] [⟨"\":", "x"⟩] hostileRequests) "throw".toList :=
  have hvariables : ∀ identifier ∈ lineVariables "module" [⟨"\":", "x"⟩] hostileRequests,
      isIdentifier identifier.toList = true := by
    decide +kernel
  ⟨hvariables, (names_stay_tokens "\n".toList "throw".toList 0 ⟨id, id, id, Function.injective_id⟩ "module"
    ["x"] [⟨"\":", "x"⟩] hostileRequests).2.1 hvariables⟩

end ModuleLinkage.Lowering
