import Mathlib.Data.List.Basic
import ModuleLinkage.Compile
import ModuleLinkage.Proofs.Scope.Places
import ModuleLinkage.Proofs.Text.Rendering

/-!
# Which writes are wrapped

The pass over a program records, for every expression that writes an exported variable, the two
insertions that make it the argument of a call. `loweringEdits_at_write` says of each place of a program
what the pass records there: the insertions for the parts and then, exactly if one of the names
written is exported, not bound by a scope around, and not hidden, the two insertions for the
expression itself.

So a write to an exported variable is missed in two ways only. Its name is hidden: it is bound
somewhere inside the parameters of a function around, or declared by the body of a function in whose
parameters the write stands, or declared by the cases of a switch in whose subject it stands. Or the
target's type is changed, for which the entities that the type mentions are taken for the names
written; otherwise these are the names assigned (`targetNames_eq_assignedNames`).
-/

set_option autoImplicit false

namespace ModuleLinkage

open Syntax Text

/-! ### Targets -/

namespace Scope

mutual

/-- The variables that an assignment target assigns. Parentheses and changes of type stand in
between without changing what is assigned. -/
def assignedNames : Node → List String
  | .mk _ form parts =>
    match form, parts with
    | .reference name, _ => [name]
    | .objectTarget, parts => listAssignedNames parts
    | .arrayTarget, parts => listAssignedNames parts
    | .propertyTarget, [_, target] => assignedNames target
    | .shorthandTarget, reference :: _ => assignedNames reference
    | .defaultTarget, target :: _ => assignedNames target
    | .restTarget, [target] => assignedNames target
    | .parenthesized, target :: _ => assignedNames target
    | .cast, target :: _ => assignedNames target
    | .nonNull, target :: _ => assignedNames target
    | .instantiation, target :: _ => assignedNames target
    | _, _ => []

def listAssignedNames : List Node → List String
  | [] => []
  | target :: rest => assignedNames target ++ listAssignedNames rest

end

mutual

/-- Whether the type of a variable is changed where it is assigned. -/
def changesType : Node → Bool
  | .mk _ form parts =>
    match form, parts with
    | .objectTarget, parts => anyChangesType parts
    | .arrayTarget, parts => anyChangesType parts
    | .propertyTarget, [_, target] => changesType target
    | .shorthandTarget, reference :: _ => changesType reference
    | .defaultTarget, target :: _ => changesType target
    | .restTarget, [target] => changesType target
    | .parenthesized, _ => true
    | .cast, _ => true
    | .nonNull, _ => true
    | .instantiation, _ => true
    | _, _ => false

def anyChangesType : List Node → Bool
  | [] => false
  | target :: rest => changesType target || anyChangesType rest

end

theorem allTargetNames_eq (targets : List Node) :
    allTargetNames targets = targets.flatMap targetNames := by
  induction targets with
  | nil => rfl
  | cons target rest ih => rw [allTargetNames, ih, List.flatMap_cons]

theorem listAssignedNames_eq (targets : List Node) :
    listAssignedNames targets = targets.flatMap assignedNames := by
  induction targets with
  | nil => rfl
  | cons target rest ih => rw [listAssignedNames, ih, List.flatMap_cons]

theorem anyChangesType_eq (targets : List Node) :
    anyChangesType targets = targets.any changesType := by
  induction targets with
  | nil => rfl
  | cons target rest ih => rw [anyChangesType, ih, List.any_cons]

/-- Unless a type is changed, the names written are the variables assigned. -/
theorem targetNames_eq_assignedNames (target : Node) (htype : changesType target = false) :
    targetNames target = assignedNames target := by
  induction target using Node.induction with
  | step span form parts ih =>
    have hlist (hparts : anyChangesType parts = false) :
        allTargetNames parts = listAssignedNames parts := by
      rw [allTargetNames_eq, listAssignedNames_eq]
      rw [anyChangesType_eq, List.any_eq_false] at hparts
      exact List.flatMap_congr fun part hpart => ih part hpart (by simpa using hparts part hpart)
    unfold changesType at htype
    unfold targetNames assignedNames
    split at htype
    · exact hlist htype
    · exact hlist htype
    · exact ih _ (by simp) htype
    · exact ih _ (by simp) htype
    · exact ih _ (by simp) htype
    · exact ih _ (by simp) htype
    · cases htype
    · cases htype
    · cases htype
    · cases htype
    · split <;> simp_all

/-- What an expression writes to, if it is a write. -/
def writeTarget? (node : Node) : Option Node :=
  match node.form with
  | .assignment _ => node.parts.head?
  | .update _ => node.parts.head?
  | _ => none

theorem writtenNames_of_writeTarget? {node target : Node} (h : writeTarget? node = some target) :
    writtenNames node = targetNames target := by
  obtain ⟨span, form, parts⟩ := node
  unfold writeTarget? at h
  unfold writtenNames
  cases form <;> cases parts <;> simp_all

theorem form_of_writeTarget? {node target : Node} (h : writeTarget? node = some target) :
    node.form ≠ .parameters ∧ node.form ≠ .parameter ∧
      node.form ≠ .namespaceDeclaration true := by
  unfold writeTarget? at h
  split at h <;> simp_all

theorem scopeNames_of_writeTarget? {node target : Node} (h : writeTarget? node = some target) :
    scopeNames node = [] := by
  unfold writeTarget? at h
  unfold scopeNames
  split at h <;> simp_all

end Scope

namespace Lowering

open Scope (places listPlaces Surroundings)

/-! ### Exports come with edits -/

/-- The variables that a program exports. -/
def exportedVariables (subject : Subject) (program : Node) : List String :=
  ((programFindings subject program).filterMap Finding.export?).map Export.localName

/-- Findings that register nothing unless they change something. -/
def IsBacked (found : List Finding) : Prop :=
  found.filterMap Finding.edit? = [] → found.filterMap Finding.export? = []

theorem isBacked_nil : IsBacked [] :=
  fun _ => rfl

theorem isBacked_change (edit : Edit) (found : List Finding) :
    IsBacked (.change edit :: found) := by
  intro h
  simp [Finding.edit?] at h

theorem IsBacked.append {first second : List Finding} (hfirst : IsBacked first)
    (hsecond : IsBacked second) : IsBacked (first ++ second) := by
  intro h
  rw [List.filterMap_append, List.append_eq_nil_iff] at h
  rw [List.filterMap_append, hfirst h.1, hsecond h.2, List.append_nil]

theorem isBacked_exportDefault (subject : Subject) (declaration : Node) :
    IsBacked (exportDefaultFindings subject declaration) := by
  unfold exportDefaultFindings
  split
  · dsimp only
    split
    · split <;> exact isBacked_change _ _
    · split <;> exact isBacked_change _ _
    · exact isBacked_change _ _
    · exact isBacked_change _ _
  · exact isBacked_nil

theorem isBacked_nodeFindings (subject : Subject) (inNamespace : Bool) (node : Node) :
    IsBacked (nodeFindings subject inNamespace node) := by
  unfold nodeFindings
  dsimp only
  split
  · exact isBacked_change _ _
  · exact isBacked_change _ _
  · split
    · exact isBacked_nil
    · exact isBacked_change _ _
  · split
    · exact isBacked_nil
    · exact isBacked_change _ _
  · exact isBacked_exportDefault subject node
  · exact isBacked_change _ _
  · exact isBacked_change _ _
  · exact isBacked_change _ _
  · exact isBacked_nil

/-- Every variable that is exported somewhere in a tree comes with an edit. -/
theorem isBacked_findings (subject : Subject) (node : Node) (inNamespace : Bool) :
    IsBacked (findings subject inNamespace node) := by
  induction node using Node.induction generalizing inNamespace with
  | step span form parts ih =>
    have hparts (inside : Bool) : IsBacked (listFindings subject inside parts) := by
      clear * - ih
      induction parts with
      | nil => exact isBacked_nil
      | cons part rest ihRest =>
        exact (ih part (by simp) inside).append (ihRest fun other hother => ih other (by simp [hother]))
    unfold findings
    split
    · exact isBacked_nil
    · exact hparts true
    · exact (isBacked_nodeFindings subject inNamespace _).append (hparts inNamespace)

/-! ### The pass, place by place -/

theorem listWraps_eq (reference : String) (exported shadowed : List String) (nodes : List Node) :
    listWraps reference exported shadowed nodes =
      nodes.flatMap (wraps reference exported shadowed) := by
  induction nodes with
  | nil => rfl
  | cons node rest ih => rw [listWraps, ih, List.flatMap_cons]

/-- What the pass records for an expression itself. -/
def ownWraps (reference : String) (exported shadowed : List String) (node : Node) : List Edit :=
  if writesExport exported shadowed (Scope.writtenNames node) then wrapping reference node.span
  else []

/-- The insertions for a node are those for its parts and then its own. -/
theorem wraps_eq {node : Node} (hform : node.form ≠ .namespaceDeclaration true)
    (reference : String) (exported shadowed : List String) :
    wraps reference exported shadowed node =
      listWraps reference exported (Scope.scopeNames node ++ shadowed) node.parts ++
        ownWraps reference exported shadowed node := by
  obtain ⟨span, form, parts⟩ := node
  unfold wraps ownWraps
  split
  · exact absurd rfl hform
  · dsimp only [Node.parts_mk, Node.span_mk]
    split
    · rfl
    · rw [List.append_nil]

/-- Nothing is wrapped if nothing is exported. -/
theorem wraps_eq_nil (reference : String) (shadowed : List String) (node : Node) :
    wraps reference [] shadowed node = [] := by
  induction node using Node.induction generalizing shadowed with
  | step span form parts ih =>
    by_cases hform : form = .namespaceDeclaration true
    · subst hform
      rfl
    · have hown : ownWraps reference [] shadowed (.mk span form parts) = [] := by
        simp [ownWraps, writesExport]
      rw [wraps_eq (by simpa using hform), hown, List.append_nil, listWraps_eq,
        List.flatMap_eq_nil_iff]
      exact fun part hpart => ih part hpart _

/-- The names that the pass takes for bound are those of a place. -/
def IsAt (shadowed : List String) (place : Surroundings) : Prop :=
  ∀ name, name ∈ shadowed ↔ name ∈ place.names

/-- The pass comes to every place of a tree with the names of that place. -/
theorem exists_wraps_of_mem_places (reference : String) (exported : List String) {root : Node}
    {start : Surroundings} {shadowed : List String} (hstart : IsAt shadowed start) {node : Node}
    {place : Surroundings} (hmem : (node, place) ∈ places start root) :
    ∃ before inner after, IsAt inner place ∧
      wraps reference exported shadowed root =
        before ++ wraps reference exported inner node ++ after := by
  induction root using Node.induction generalizing start shadowed with
  | step span form parts ih =>
    unfold places at hmem
    rcases List.mem_cons.mp hmem with hself | hmem
    · cases hself
      exact ⟨[], shadowed, [], hstart, by simp⟩
    by_cases hform : form = .namespaceDeclaration true
    · rw [hform] at hmem
      cases hmem
    have hparts : (node, place) ∈ listPlaces (.mk span form parts) start parts := by
      split at hmem
      · exact absurd rfl hform
      · exact hmem
    rw [Scope.listPlaces_eq, List.mem_flatMap] at hparts
    obtain ⟨part, hpart, hinner⟩ := hparts
    have henter : IsAt (Scope.scopeNames (.mk span form parts) ++ shadowed)
        (start.enter (.mk span form parts) part) := by
      intro name
      rw [Surroundings.mem_names_enter, List.mem_append, hstart]
    obtain ⟨before, inner, after, hplace, hwraps⟩ := ih part hpart henter hinner
    obtain ⟨first, last, hsplit⟩ := List.append_of_mem hpart
    have hall (record : Node → List Edit) :
        parts.flatMap record = first.flatMap record ++ (record part ++ last.flatMap record) := by
      rw [hsplit, List.flatMap_append, List.flatMap_cons]
    refine ⟨first.flatMap (wraps reference exported
        (Scope.scopeNames (.mk span form parts) ++ shadowed)) ++ before, inner,
      after ++ (last.flatMap (wraps reference exported
        (Scope.scopeNames (.mk span form parts) ++ shadowed)) ++
          ownWraps reference exported shadowed (.mk span form parts)), hplace, ?_⟩
    rw [wraps_eq (by simpa using hform), listWraps_eq, Node.parts_mk, hall, hwraps]
    simp only [List.append_assoc]

/-- The edits of a program hold those for its writes, if it exports anything. -/
theorem exists_loweringEdits (subject : Subject) (program : Node) :
    ∃ before after, loweringEdits subject program = before ++
      wraps subject.reference (exportedVariables subject program) [] program ++ after := by
  by_cases hedits : (programFindings subject program).filterMap Finding.edit? = []
  · have hexports := isBacked_findings subject program false hedits
    have hnone : exportedVariables subject program = [] := by
      unfold exportedVariables programFindings
      rw [hexports, List.map_nil]
    refine ⟨[], [], ?_⟩
    rw [hnone, wraps_eq_nil]
    unfold loweringEdits
    simp [hedits]
  · unfold loweringEdits
    dsimp only
    rw [if_neg (by simpa using hedits)]
    exact ⟨_, _, rfl⟩

/-- Whether what an expression writes makes the pass wrap it. -/
theorem writesExport_iff {exported shadowed names : List String} :
    writesExport exported shadowed names = true ↔
      ∃ name ∈ names, name ∈ exported ∧ name ∉ shadowed := by
  simp [writesExport]

theorem ownWraps_eq_nil_iff {reference : String} {exported shadowed : List String} {node : Node} :
    ownWraps reference exported shadowed node = [] ↔
      ∀ name ∈ Scope.writtenNames node, name ∈ exported → name ∈ shadowed := by
  unfold ownWraps
  split
  · next h =>
    obtain ⟨name, hname, hexported, hfree⟩ := writesExport_iff.mp h
    refine iff_of_false (by simp [wrapping]) fun hall => ?_
    exact hfree (hall name hname hexported)
  · next h =>
    refine iff_of_true rfl fun name hname hexported => ?_
    by_contra hfree
    exact h (writesExport_iff.mpr ⟨name, hname, hexported, hfree⟩)

/-- **Writes.** For every write of a program that stands in no ambient namespace, the pass records the
insertions for its parts, and then the two that wrap it, unless each exported name that it writes is
bound by a scope around or hidden. The names written are the variables assigned, unless the type of
one is changed. -/
theorem loweringEdits_at_write {subject : Subject} {program node target : Node}
    {place : Surroundings} (hmem : (node, place) ∈ places .top program)
    (htarget : Scope.writeTarget? node = some target) :
    ∃ before shadowed own after,
      loweringEdits subject program = before ++
        wraps subject.reference (exportedVariables subject program) shadowed node ++ after ∧
      wraps subject.reference (exportedVariables subject program) shadowed node =
        listWraps subject.reference (exportedVariables subject program) shadowed node.parts ++ own ∧
      (own = [] ∨ own = wrapping subject.reference node.span) ∧
      (own = [] ↔ ∀ name ∈ Scope.targetNames target, name ∈ exportedVariables subject program →
        name ∉ place.lexical → name ∈ place.hidden) ∧
      (Scope.changesType target = false →
        Scope.targetNames target = Scope.assignedNames target) := by
  have htop : IsAt [] Surroundings.top := by
    intro name
    simp [Surroundings.top]
  obtain ⟨outerBefore, outerAfter, hedits⟩ := exists_loweringEdits subject program
  obtain ⟨before, shadowed, after, hat, hwraps⟩ :=
    exists_wraps_of_mem_places subject.reference (exportedVariables subject program) htop hmem
  have hforms := Scope.form_of_writeTarget? htarget
  have hwaiting : place.waiting = [] := by
    rcases Scope.waiting_eq_nil (.inl rfl) hmem with h | h | h
    · exact h
    · exact absurd h hforms.1
    · exact absurd h hforms.2.1
  have hshadowed (name : String) : name ∈ shadowed ↔ name ∈ place.lexical ∨ name ∈ place.hidden := by
    rw [hat, Surroundings.mem_names, hwaiting]
    simp
  refine ⟨outerBefore ++ before, shadowed,
    ownWraps subject.reference (exportedVariables subject program) shadowed node,
    after ++ outerAfter, ?_, ?_, ?_, ?_, Scope.targetNames_eq_assignedNames target⟩
  · rw [hedits, hwraps]
    simp only [List.append_assoc]
  · rw [wraps_eq hforms.2.2, Scope.scopeNames_of_writeTarget? htarget, List.nil_append]
  · unfold ownWraps
    split
    · exact .inr rfl
    · exact .inl rfl
  · rw [ownWraps_eq_nil_iff, Scope.writtenNames_of_writeTarget? htarget]
    refine forall_congr' fun name => forall_congr' fun _ => forall_congr' fun _ => ?_
    rw [hshadowed]
    tauto

/-- Whether a program writes a variable where no scope around binds its name. -/
def writesFree (name : String) (program : Node) : Bool :=
  (places .top program).any fun (node, place) =>
    match Scope.writeTarget? node with
    | some target => (Scope.assignedNames target).contains name && !place.lexical.contains name
    | none => false

theorem writesFree_iff {name : String} {program : Node} :
    writesFree name program = true ↔ ∃ node target place, (node, place) ∈ places .top program ∧
      Scope.writeTarget? node = some target ∧ name ∈ Scope.assignedNames target ∧
      name ∉ place.lexical := by
  unfold writesFree
  rw [List.any_eq_true]
  constructor
  · rintro ⟨⟨node, place⟩, hmem, hwrite⟩
    dsimp only at hwrite
    split at hwrite
    · next target htarget => exact ⟨node, target, place, hmem, htarget, by simpa using hwrite⟩
    · cases hwrite
  · rintro ⟨node, target, place, hmem, htarget, hname, hfree⟩
    refine ⟨(node, place), hmem, ?_⟩
    simp [htarget, hname, hfree]

/-- A module that writes its export in a function one of whose parameters has an arrow function for
its default value, the parameter of which has the name of the export. -/
def hiddenWrite : List Char :=
  "export let x = 0; function f(cb = (x) => x) \x7b x = 1; \x7d".toList

/-- The parameter of the arrow function hides the write, though no scope around the write binds the
name: the module is compiled without a call around it. -/
theorem hiddenWrite_not_wrapped :
    (∃ program node target place, parse ⟨false, false, true⟩ hiddenWrite = .ok program ∧
      "x" ∈ exportedVariables ⟨hiddenWrite, "module"⟩ program ∧
      (node, place) ∈ places .top program ∧ Scope.writeTarget? node = some target ∧
      "x" ∈ Scope.assignedNames target ∧ "x" ∉ place.lexical) ∧
    compile { sourceGoal := .module } hiddenWrite =
      .ok ⟨"module.export(\x7bx:()=>x\x7d);".toList ++ hiddenWrite.drop 7, .module⟩ := by
  have hprogram : ((parse ⟨false, false, true⟩ hiddenWrite).toOption.any fun program =>
      (exportedVariables ⟨hiddenWrite, "module"⟩ program).contains "x" &&
        writesFree "x" program) = true := by
    decide +kernel
  refine ⟨?_, ?_⟩
  swap
  · unfold compile compileText lowerModule
    simp only [EditList.render_recordAll_ofSource]
    decide +kernel
  cases hparse : parse ⟨false, false, true⟩ hiddenWrite with
  | error offset =>
    rw [hparse] at hprogram
    cases hprogram
  | ok program =>
    rw [hparse] at hprogram
    replace hprogram := Bool.and_eq_true_iff.mp hprogram
    obtain ⟨node, target, place, hwrite⟩ := writesFree_iff.mp hprogram.2
    exact ⟨program, node, target, place, rfl, List.contains_iff_mem.mp hprogram.1, hwrite⟩

/-- The increment in `counter`. -/
def increment : Node :=
  .mk ⟨18, 21⟩ (.update "++") [.mk ⟨18, 19⟩ (.reference "x") []]

/-- The program `export let x = 0; x++;`. -/
def counter : Node :=
  .mk ⟨0, 22⟩ .program
    [.mk ⟨0, 17⟩ (.exportDeclaration false)
      [.mk ⟨7, 17⟩ (.variableDeclaration .let false)
        [.mk ⟨11, 16⟩ .declarator [.mk ⟨11, 12⟩ (.binding "x") [], .mk ⟨15, 16⟩ .literal []]]],
      .mk ⟨18, 22⟩ .expressionStatement [increment]]

/-- The increment is wrapped. -/
theorem loweringEdits_counter :
    (increment, Surroundings.top) ∈ places .top counter ∧
      Scope.writeTarget? increment = some (.mk ⟨18, 19⟩ (.reference "x") []) ∧
      ∃ before after, loweringEdits ⟨"export let x = 0; x++;".toList, "module"⟩ counter =
        before ++ wrapping "module" increment.span ++ after := by
  have hmem : (increment, Surroundings.top) ∈ places .top counter :=
    List.mem_of_getElem? (i := 7) rfl
  obtain ⟨before, shadowed, own, after, hedits, hwraps, hown, hhidden, -⟩ :=
    @loweringEdits_at_write ⟨"export let x = 0; x++;".toList, "module"⟩ _ _ _ _ hmem rfl
  have hexported : exportedVariables ⟨"export let x = 0; x++;".toList, "module"⟩ counter = ["x"] := by
    decide +kernel
  have hwrapped : own = wrapping "module" increment.span := by
    refine hown.resolve_left fun hnil => ?_
    have hfree := hhidden.mp hnil "x" (by decide) (by rw [hexported]; decide) (by decide)
    cases hfree
  refine ⟨hmem, rfl, before ++ listWraps "module" ["x"] shadowed increment.parts, after, ?_⟩
  rw [hedits, hwraps, hwrapped, hexported]
  simp only [List.append_assoc]

end Lowering

end ModuleLinkage
