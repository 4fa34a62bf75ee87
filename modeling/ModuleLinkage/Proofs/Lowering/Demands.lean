import ModuleLinkage.Proofs.Lowering.Standing
import ModuleLinkage.Proofs.Syntax.Tally.Programs

/-!
# Requests in the order of their declarations

Each request that a program makes comes from one declaration, which stands anywhere in the program
(`mem_demands_iff`). No two declarations begin at one offset, so that the offsets of the requests,
put in order, increase strictly (`pairwise_orderedDemands`): each of them tells its request from
all others.
-/

set_option autoImplicit false

namespace ModuleLinkage.Lowering

open Syntax

variable {subject : Subject} {program declaration : Node}

/-! ### Declarations that request -/

/-- The request that a declaration makes. In a namespace a list of exports makes none. -/
def requestInside? (inNamespace : Bool) (declaration : Node) : Option Request :=
  match inNamespace, declaration.form with
  | true, .exportNames _ => none
  | _, _ => statementRequest? declaration

theorem requests_nodeFindings (subject : Subject) (inNamespace : Bool) (declaration : Node) :
    (nodeFindings subject inNamespace declaration).filterMap Finding.request? =
      (requestInside? inNamespace declaration).toList := by
  have hplain := ownRequests_eq subject declaration
  cases inNamespace with
  | false => exact hplain
  | true =>
    obtain ⟨span, form, parts⟩ := declaration
    cases form with
    | importDeclaration typeOnly => cases typeOnly <;> exact hplain
    | exportDeclaration typeOnly => rcases parts with _ | ⟨declared, _ | ⟨second, rest⟩⟩ <;> rfl
    | exportNames typeOnly => rfl
    | exportAll typeOnly => cases typeOnly <;> exact hplain
    | _ => exact hplain

/-- The declarations in a program that request a module, each with its request. -/
def demands (program : Node) : List (Node × Request) :=
  collect (fun inNamespace declaration =>
    ((requestInside? inNamespace declaration).map fun request => (declaration, request)).toList)
    false program

theorem map_snd_demands (subject : Subject) (program : Node) :
    (demands program).map Prod.snd = programRequests subject program := by
  rw [programRequests, programFindings_filterMap, demands, List.map_eq_flatMap, collect_flatMap]
  congr 1
  funext inNamespace declaration
  rw [requests_nodeFindings]
  cases requestInside? inNamespace declaration <;> rfl

/-- A declaration that stands in a program requests a module. In a namespace a list of exports requests
none. -/
def Demands (program declaration : Node) (specifier : String) : Prop :=
  ∃ inNamespace, Stands declaration false inNamespace program ∧
    (∀ typeOnly, declaration.form = .exportNames typeOnly → inNamespace = false) ∧
    requested? declaration = some specifier

theorem requestInside?_eq_some_iff {inNamespace : Bool} {request : Request} :
    requestInside? inNamespace declaration = some request ↔
      (∀ typeOnly, declaration.form = .exportNames typeOnly → inNamespace = false) ∧
        statementRequest? declaration = some request := by
  unfold requestInside?
  split
  · next typeOnly hform => simp [hform]
  · next hother =>
    exact (and_iff_right fun typeOnly hform =>
      Bool.eq_false_iff.mpr fun hinside => hother typeOnly hinside hform).symm

theorem mem_demands {item : Node × Request} : item ∈ demands program ↔
    ∃ inNamespace, Stands item.1 false inNamespace program ∧
      requestInside? inNamespace item.1 = some item.2 := by
  obtain ⟨declaration, request⟩ := item
  rw [demands, mem_collect_iff]
  · refine exists_comm.trans (exists_congr fun inNamespace => ?_)
    simp [and_left_comm]
  · intro inNamespace node ambient hform
    obtain ⟨span, form, parts⟩ := node
    obtain rfl : form = .namespaceDeclaration ambient := hform
    cases inNamespace <;> rfl

theorem statementRequest?_of_mem_demands {item : Node × Request} (hitem : item ∈ demands program) :
    statementRequest? item.1 = some item.2 := by
  obtain ⟨inNamespace, -, hrequest⟩ := mem_demands.mp hitem
  exact (requestInside?_eq_some_iff.mp hrequest).2

/-- A request has the offset of its declaration. -/
theorem offset_of_mem_demands {item : Node × Request} (hitem : item ∈ demands program) :
    item.2.offset = item.1.span.start :=
  (statementRequest?_eq_some_iff.mp ⟨item.2.use, statementRequest?_of_mem_demands hitem⟩).2.symm

/-- **Demands.** The declarations with requests are those that request a module. -/
theorem mem_demands_iff : (∃ request, (declaration, request) ∈ demands program) ↔
    ∃ specifier, Demands program declaration specifier := by
  constructor
  · rintro ⟨request, hmem⟩
    obtain ⟨inNamespace, hstands, hrequest⟩ := mem_demands.mp hmem
    obtain ⟨hnames, hrequest⟩ := requestInside?_eq_some_iff.mp hrequest
    exact ⟨request.specifier, inNamespace, hstands, hnames,
      (statementRequest?_eq_some_iff.mp ⟨request.use, hrequest⟩).1⟩
  · rintro ⟨specifier, inNamespace, hstands, hnames, hrequested⟩
    obtain ⟨use, hrequest⟩ := statementRequest?_eq_some_iff.mpr ⟨hrequested, rfl⟩
    exact ⟨_, mem_demands.mpr ⟨inNamespace, hstands,
      requestInside?_eq_some_iff.mpr ⟨hnames, hrequest⟩⟩⟩

/-! ### No two at one offset -/

/-- What is collected from declarations that may request a module, of each at most one item, is no
more at an offset than is counted there. -/
theorem countP_collect_le {α : Type} {own : Bool → Node → List α} {test : α → Bool} {offset : Nat}
    (hown : ∀ inNamespace node, (own inNamespace node).countP test ≤
      if node.form.mayRequest then tallyStart offset node.span.start else 0)
    (inNamespace : Bool) (root : Node) :
    (collect own inNamespace root).countP test ≤ tally offset root := by
  induction root using Node.induction generalizing inNamespace with
  | step span form parts ih =>
    have hparts (inside : Bool) : (listCollect own inside parts).countP test ≤ tally offset parts := by
      rw [listCollect_eq]
      -- What is known of each part by the outer induction is added up by one on their list.
      clear hown
      induction parts with
      | nil => exact Nat.le_refl _
      | cons part rest ihRest =>
        rw [List.flatMap_cons, List.countP_append, tally_cons]
        exact Nat.add_le_add (ih part (by simp) inside)
          (ihRest fun other hother => ih other (by simp [hother]))
    rw [tally_mk]
    unfold collect
    split
    · exact Nat.zero_le _
    · exact (hparts true).trans (Nat.le_add_left _ _)
    · rw [List.countP_append]
      exact Nat.add_le_add (hown inNamespace _) (hparts inNamespace)

/-- Only what may request a module does. -/
theorem mayRequest_of_requestInside? {inNamespace : Bool} {request : Request}
    (hrequest : requestInside? inNamespace declaration = some request) :
    declaration.form.mayRequest = true := by
  have hstatement := (requestInside?_eq_some_iff.mp hrequest).2
  unfold statementRequest? at hstatement
  split at hstatement
  · next hform => rw [hform]
  · next hform => rw [hform]
  · next hform => rw [hform]
  · cases hstatement

/-- No two declarations with requests begin at one offset, if no two declarations that may request a
module do. -/
theorem nodup_starts_demands (hunique : ∀ offset, tally offset program ≤ 1) :
    ((demands program).map fun item => item.1.span.start).Nodup := by
  rw [List.nodup_iff_count_le_one]
  intro offset
  rw [List.count_eq_countP, List.countP_map]
  refine (countP_collect_le (fun inNamespace node => ?_) false program).trans (hunique offset)
  cases hrequest : requestInside? inNamespace node with
  | none => exact Nat.zero_le _
  | some request =>
    rw [if_pos (mayRequest_of_requestInside? hrequest)]
    simp [tallyStart, List.countP_cons]

/-! ### Source order -/

/-- The declarations that request a module in the order in which they stand in the text, each with its
request. -/
def orderedDemands (program : Node) : List (Node × Request) :=
  (demands program).mergeSort fun first second => first.2.offset ≤ second.2.offset

theorem map_snd_orderedDemands (subject : Subject) (program : Node) :
    (orderedDemands program).map Prod.snd = inSourceOrder (programRequests subject program) := by
  rw [← map_snd_demands subject program]
  exact List.map_mergeSort fun _ _ _ _ => rfl

theorem mem_orderedDemands {item : Node × Request} :
    item ∈ orderedDemands program ↔ item ∈ demands program :=
  List.mem_mergeSort

/-- **Source order.** The offsets of the declarations increase from each to the next. -/
theorem pairwise_orderedDemands (hunique : ∀ offset, tally offset program ≤ 1) :
    (orderedDemands program).Pairwise fun first second => first.1.span.start < second.1.span.start := by
  have hdistinct : ((orderedDemands program).map fun item => item.1.span.start).Nodup :=
    ((List.mergeSort_perm _ _).map _).nodup_iff.mpr (nodup_starts_demands hunique)
  rw [List.nodup_iff_pairwise_ne, List.pairwise_map] at hdistinct
  refine ((pairwise_mergeSort_offset _).and hdistinct).imp_of_mem
    fun {first second} hfirst hsecond hboth => ?_
  obtain ⟨hle, hne⟩ := hboth
  rw [offset_of_mem_demands (mem_orderedDemands.mp hfirst),
    offset_of_mem_demands (mem_orderedDemands.mp hsecond)] at hle
  exact Nat.lt_of_le_of_ne hle hne

end ModuleLinkage.Lowering
