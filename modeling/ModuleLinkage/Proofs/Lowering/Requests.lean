import ModuleLinkage.Proofs.Lowering.TopLevel

/-!
# The modules that are requested

Imports and exports from other modules request these modules (`requested?`). A program makes one
request for each such declaration, with its specifier (`statementRequest?_eq_some_iff`), and the
requests are put in the order in which the declarations stand in the text (`pairwise_orderedItems`).
-/

set_option autoImplicit false

namespace ModuleLinkage.Lowering

open Syntax Text

variable {subject : Subject}

/-! ### What a statement requests -/

/-- Whether a list of exports has names, those of types left aside. -/
def exportsNames (statement : Node) : Bool :=
  !(statement.parts.filterMap exportedPair?).isEmpty

/-- Whether an import imports something, or nothing at all; one of types alone does neither. -/
def importsValues (statement : Node) : Bool :=
  !((statement.parts.filterMap importedPair?).isEmpty &&
    (statement.parts.filterMap importedNamespace?).isEmpty && statement.parts.any importsType)

/-- The specifier of the module that a statement requests. -/
def requested? (statement : Node) : Option String :=
  match statement.form with
  | .importDeclaration false => if importsValues statement then specifier? statement else none
  | .exportNames false => if exportsNames statement then specifier? statement else none
  | .exportAll false => specifier? statement
  | _ => none

theorem requests_register {α : Type} (item : α → Export) (values : List α) :
    (values.map fun value => Finding.register (item value)).filterMap Finding.request? = [] := by
  induction values with
  | nil => rfl
  | cons value rest ih => exact ih

theorem requests_demand {α : Type} (request : α → Request) (item : Option α) :
    (item.map fun value => Finding.demand (request value)).toList.filterMap Finding.request? =
      (item.map request).toList := by
  cases item <;> rfl

theorem requests_exportDefaultFindings (statement : Node) :
    (exportDefaultFindings subject statement).filterMap Finding.request? = [] := by
  unfold exportDefaultFindings
  split
  · next inner _ =>
    dsimp only
    cases inner.form with
    | function style ambient =>
      cases style with
      | declaration => cases inner.ownName? <;> rfl
      | expression => rfl
    | classDefinition style ambient =>
      cases style with
      | declaration => cases inner.ownName? <;> rfl
      | expression => rfl
    | _ => rfl
  · rfl

/-- The request that a statement makes. -/
def statementRequest? (statement : Node) : Option Request :=
  match statement.form with
  | .importDeclaration false => importRequest? statement
  | .exportNames false =>
    if exportsNames statement then
      (specifier? statement).map fun specifier =>
        ⟨statement.span.start, specifier, .reExport (statement.parts.filterMap exportedPair?)⟩
    else none
  | .exportAll false =>
    (specifier? statement).map fun specifier =>
      ⟨statement.span.start, specifier, exportAllUse statement⟩
  | _ => none

theorem requests_exportListFindings (statement : Node) :
    (exportListFindings statement).filterMap Finding.request? =
      (if exportsNames statement then
        (specifier? statement).map fun specifier => Request.mk statement.span.start specifier
          (.reExport (statement.parts.filterMap exportedPair?))
      else none).toList := by
  unfold exportListFindings exportsNames
  dsimp only
  cases specifier? statement with
  | none =>
    dsimp only
    rw [requests_register (fun pair : String × String => ⟨pair.2, pair.1⟩)]
    split <;> rfl
  | some specifier =>
    dsimp only
    cases (statement.parts.filterMap exportedPair?).isEmpty <;> rfl

theorem ownRequests_eq (subject : Subject) (statement : Node) :
    ownRequests subject statement = (statementRequest? statement).toList := by
  obtain ⟨span, form, parts⟩ := statement
  cases form with
  | importDeclaration typeOnly =>
    cases typeOnly with
    | true => rfl
    | false => exact (requests_demand id _).trans (congrArg Option.toList Option.map_id_apply)
  | exportDeclaration typeOnly =>
    rcases parts with _ | ⟨declaration, _ | ⟨second, rest⟩⟩
    · cases typeOnly <;> rfl
    · cases typeOnly with
      | true => rfl
      | false => exact requests_register (fun name : String => ⟨name, name⟩) _
    · cases typeOnly <;> rfl
  | exportNames typeOnly =>
    cases typeOnly with
    | true => rfl
    | false => exact requests_exportListFindings (.mk span (.exportNames false) parts)
  | exportDefault => exact requests_exportDefaultFindings _
  | exportAll typeOnly =>
    cases typeOnly with
    | true => rfl
    | false => exact requests_demand _ _
  | _ => rfl

/-- The request of a statement has the specifier that the statement requests, and its offset. -/
theorem statementRequest?_eq_some_iff {statement : Node} {offset : Nat} {specifier : String} :
    (∃ use, statementRequest? statement = some ⟨offset, specifier, use⟩) ↔
      requested? statement = some specifier ∧ statement.span.start = offset := by
  unfold statementRequest? requested? importRequest? importsValues
  cases statement.form with
  | importDeclaration typeOnly =>
    cases typeOnly with
    | true => simp
    | false =>
      dsimp only
      cases specifier? statement <;>
        cases (statement.parts.filterMap importedPair?).isEmpty &&
          (statement.parts.filterMap importedNamespace?).isEmpty &&
            statement.parts.any importsType <;> simp [and_comm]
  | exportNames typeOnly =>
    cases typeOnly with
    | true => simp
    | false =>
      dsimp only
      cases specifier? statement <;> cases exportsNames statement <;> simp [and_comm]
  | exportAll typeOnly =>
    cases typeOnly with
    | true => simp
    | false =>
      dsimp only
      cases specifier? statement <;> simp [and_comm]
  | _ => simp

/-! ### Source order -/

/-- The statements of a program that request a module, each with its request. -/
def requestItems (program : Node) : List (Node × Request) :=
  program.parts.filterMap fun statement =>
    (statementRequest? statement).map fun request => (statement, request)

theorem mem_requestItems {program : Node} {item : Node × Request}
    (hitem : item ∈ requestItems program) :
    item.2.offset = item.1.span.start ∧ requested? item.1 = some item.2.specifier := by
  obtain ⟨statement, -, hrequest⟩ := List.mem_filterMap.mp hitem
  obtain ⟨request, hsome, rfl⟩ := Option.map_eq_some_iff.mp hrequest
  obtain ⟨hrequested, hoffset⟩ := statementRequest?_eq_some_iff.mp ⟨request.use, hsome⟩
  exact ⟨hoffset.symm, hrequested⟩

/-- A statement has a request exactly if it requests a module. -/
theorem isSome_statementRequest? (statement : Node) :
    (statementRequest? statement).isSome = (requested? statement).isSome := by
  rw [Bool.eq_iff_iff, Option.isSome_iff_exists, Option.isSome_iff_exists]
  constructor
  · rintro ⟨request, hrequest⟩
    exact ⟨_, (statementRequest?_eq_some_iff.mp ⟨request.use, hrequest⟩).1⟩
  · rintro ⟨specifier, hspecifier⟩
    obtain ⟨use, hrequest⟩ := statementRequest?_eq_some_iff.mpr ⟨hspecifier, rfl⟩
    exact ⟨_, hrequest⟩

theorem map_fst_requestItems (program : Node) : (requestItems program).map Prod.fst =
    program.parts.filter fun statement => (requested? statement).isSome := by
  unfold requestItems
  induction program.parts with
  | nil => rfl
  | cons statement rest ih =>
    rw [List.filter_cons, ← isSome_statementRequest?, ← ih]
    cases hrequest : statementRequest? statement <;> simp [hrequest]

theorem map_snd_requestItems {program : Node} (hprogram : program.form = .program)
    (htop : linksAtTop program = true) :
    (requestItems program).map Prod.snd = programRequests subject program := by
  rw [programRequests_of_linksAtTop hprogram htop, requestItems, List.map_filterMap,
    List.filterMap_eq_flatMap_toList]
  refine List.flatMap_congr fun statement _ => ?_
  rw [ownRequests_eq]
  cases statementRequest? statement <;> rfl

/-- The specifiers that statements with requests have are those of the requests. -/
theorem filterMap_requested?_fst {items : List (Node × Request)}
    (hitems : ∀ item ∈ items, requested? item.1 = some item.2.specifier) :
    (items.map Prod.fst).filterMap requested? = items.map fun item => item.2.specifier := by
  induction items with
  | nil => rfl
  | cons item rest ih =>
    rw [List.map_cons, List.filterMap_cons_some (hitems item (by simp)), List.map_cons,
      ih fun other hother => hitems other (by simp [hother])]

/-- Requests that are put in order have offsets that do not decrease. -/
theorem pairwise_mergeSort_offset (items : List (Node × Request)) :
    (items.mergeSort fun first second => first.2.offset ≤ second.2.offset).Pairwise
      fun first second => first.2.offset ≤ second.2.offset := by
  have hsorted := @List.pairwise_mergeSort (Node × Request)
    (fun first second => first.2.offset ≤ second.2.offset)
    (fun _ _ _ h h' => decide_eq_true ((of_decide_eq_true h).trans (of_decide_eq_true h')))
    (fun first second => by simpa using Nat.le_total first.2.offset second.2.offset)
    items
  exact hsorted.imp of_decide_eq_true

/-- Statements with requests in the order in which they stand in the text. -/
def orderedItems (program : Node) : List (Node × Request) :=
  (requestItems program).mergeSort fun first second => first.2.offset ≤ second.2.offset

theorem perm_orderedItems (program : Node) : (orderedItems program).Perm (requestItems program) :=
  List.mergeSort_perm _ _

theorem map_snd_orderedItems {program : Node} (hprogram : program.form = .program)
    (htop : linksAtTop program = true) :
    (orderedItems program).map Prod.snd = inSourceOrder (programRequests subject program) := by
  rw [← map_snd_requestItems hprogram htop]
  exact List.map_mergeSort fun _ _ _ _ => rfl

theorem pairwise_orderedItems (program : Node) : (orderedItems program).Pairwise
    fun first second => first.2.offset ≤ second.2.offset :=
  pairwise_mergeSort_offset (requestItems program)

/-! ### The whole program -/

/-- Where the statements of a program are listed as they stand, so are those with requests. -/
theorem orderedItems_of_pairwise {program : Node}
    (hpairwise : program.parts.Pairwise fun first second => first.span.start ≤ second.span.start) :
    orderedItems program = requestItems program := by
  refine List.mergeSort_of_pairwise ?_
  have hfst : ((requestItems program).map Prod.fst).Pairwise
      fun first second => first.span.start ≤ second.span.start := by
    rw [map_fst_requestItems]
    exact hpairwise.sublist List.filter_sublist
  refine (List.pairwise_map.mp hfst).imp_of_mem fun {first second} hfirst hsecond hle => ?_
  rw [(mem_requestItems hfirst).1, (mem_requestItems hsecond).1]
  exact decide_eq_true hle

theorem generatedCode_ne_nil {program : Node}
    (hrequests : inSourceOrder (programRequests subject program) ≠ []) :
    generatedCode subject program ≠ [] := by
  intro hnil
  rw [generatedCode_eq] at hnil
  have hcode : requestCode subject program = [] := by
    simp only [List.append_eq_nil_iff] at hnil
    exact hnil.2.2.2.2
  obtain ⟨request, rest, hlist⟩ := List.exists_cons_of_ne_nil hrequests
  rw [requestCode, hlist, List.flatMap_cons, List.append_eq_nil_iff] at hcode
  simp [requestStatement] at hcode

theorem hoistingEdit_eq (source : List Char) (program : Node) (code : List Char) :
    ∃ text, hoistingEdit source program code = .hoisting (hoistOffset program) text ∧
      (text = code ∨ text = ';' :: code) := by
  unfold hoistingEdit hoistOffset
  cases lastDirective? program with
  | none => exact ⟨code, rfl, .inl rfl⟩
  | some directive =>
    dsimp only
    split
    · exact ⟨code, rfl, .inl rfl⟩
    · exact ⟨_, rfl, .inr rfl⟩

end ModuleLinkage.Lowering
