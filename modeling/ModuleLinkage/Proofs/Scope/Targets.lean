import ModuleLinkage.Proofs.Lowering.Writes

/-!
# What an assignment target assigns

A target is a variable, a member, or a pattern of targets (`IsTarget`). What becomes of it when it is
assigned to is told by the steps that are performed (`performed`): the objects and keys of members,
computed keys and default values are evaluated, variables are assigned, and values are stored in
members. The names collected from a target are those of the variables that are assigned, one for each
time and in this order; and of all references that stand in the target, in whatever nested function,
pattern or further assignment, each is either one of these or stands in what is evaluated
(`targetNames_exact`).
-/

set_option autoImplicit false

namespace ModuleLinkage.Scope

open Syntax
open Text (Span)

/-! ### The grammar of targets -/

/-- Where in a target a part of it stands. -/
inductive TargetPlace where
  | whole
  | element
  | property
  deriving Repr, DecidableEq

/-- What may stand at a place of an assignment target. Objects, keys and default values are any
expressions; holes of an array are no parts of it, and that what is collected stands last makes no
difference. -/
inductive IsTarget : TargetPlace → Node → Prop
  | named (span : Span) (name : String) : IsTarget .whole (.mk span (.reference name) [])
  | member (span : Span) (object property : Node) :
      IsTarget .whole (.mk span .member [object, property])
  | index (span : Span) (object key : Node) : IsTarget .whole (.mk span .index [object, key])
  | object (span : Span) {properties : List Node}
      (hproperties : ∀ property ∈ properties, IsTarget .property property) :
      IsTarget .whole (.mk span .objectTarget properties)
  | array (span : Span) {elements : List Node}
      (helements : ∀ element ∈ elements, IsTarget .element element) :
      IsTarget .whole (.mk span .arrayTarget elements)
  | element {target : Node} (htarget : IsTarget .whole target) : IsTarget .element target
  | withDefault (span : Span) {target : Node} (value : Node) (htarget : IsTarget .whole target) :
      IsTarget .element (.mk span .defaultTarget [target, value])
  | restElement (span : Span) {target : Node} (htarget : IsTarget .whole target) :
      IsTarget .element (.mk span .restTarget [target])
  | shorthand (span inner : Span) (name : String) :
      IsTarget .property (.mk span .shorthandTarget [.mk inner (.reference name) []])
  | shorthandDefault (span inner : Span) (name : String) (value : Node) :
      IsTarget .property (.mk span .shorthandTarget [.mk inner (.reference name) [], value])
  | property (span : Span) (key : Node) {element : Node} (helement : IsTarget .element element) :
      IsTarget .property (.mk span .propertyTarget [key, element])
  | restProperty (span : Span) {target : Node} (htarget : IsTarget .whole target) :
      IsTarget .property (.mk span .restTarget [target])

/-! ### What an assignment performs -/

/-- A step of an assignment. -/
inductive Step where
  /-- An expression is evaluated, with whatever that does. -/
  | evaluate (expression : Node)
  | assign (name : String)
  /-- A value is stored in a member. -/
  | store
  deriving Repr, Inhabited

namespace Step

/-- The variable that a step assigns. -/
def assigned? : Step → Option String
  | assign name => some name
  | _ => none

/-- The expression that a step evaluates. -/
def evaluated? : Step → Option Node
  | evaluate expression => some expression
  | _ => none

end Step

mutual

/-- The steps that an assignment to a target performs, in their order, if those in `supply` give the
value: the place of a member is found first, and a value that is missing is given by default. A name
that is not computed counts as an expression in which nothing is read. -/
def performed (supply : List Step) : Node → List Step
  | .mk _ form parts =>
    match form, parts with
    | .reference name, _ => supply ++ [.assign name]
    | .member, [object, property] => .evaluate object :: .evaluate property :: (supply ++ [.store])
    | .index, [object, key] => .evaluate object :: .evaluate key :: (supply ++ [.store])
    | .objectTarget, properties => supply ++ listPerformed properties
    | .arrayTarget, elements => supply ++ listPerformed elements
    | .propertyTarget, [key, element] => .evaluate key :: performed supply element
    | .shorthandTarget, [reference] => performed supply reference
    | .shorthandTarget, [reference, value] => performed (supply ++ [.evaluate value]) reference
    | .defaultTarget, [target, value] => performed (supply ++ [.evaluate value]) target
    | .restTarget, [target] => performed supply target
    | _, _ => []

def listPerformed : List Node → List Step
  | [] => []
  | part :: rest => performed [] part ++ listPerformed rest

end

/-- The variables that some steps assign. -/
def assignedBy (steps : List Step) : List String :=
  steps.filterMap Step.assigned?

mutual

/-- The references that stand anywhere in a tree, from left to right. -/
def references : Node → List String
  | .mk _ form parts =>
    match form with
    | .reference name => name :: listReferences parts
    | _ => listReferences parts

def listReferences : List Node → List String
  | [] => []
  | node :: rest => references node ++ listReferences rest

end

/-- The references that stand in the expressions which some steps evaluate. -/
def readBy (steps : List Step) : List String :=
  (steps.filterMap Step.evaluated?).flatMap references

/-! ### Laws -/

section Laws

variable {name : String} {supply first second : List Step}

@[simp] theorem assignedBy_nil : assignedBy [] = [] := rfl

@[simp] theorem assignedBy_evaluate (expression : Node) (steps : List Step) :
    assignedBy (.evaluate expression :: steps) = assignedBy steps := rfl

@[simp] theorem assignedBy_assign (steps : List Step) :
    assignedBy (.assign name :: steps) = name :: assignedBy steps := rfl

@[simp] theorem assignedBy_store (steps : List Step) :
    assignedBy (.store :: steps) = assignedBy steps := rfl

@[simp] theorem assignedBy_append :
    assignedBy (first ++ second) = assignedBy first ++ assignedBy second :=
  List.filterMap_append

@[simp] theorem readBy_nil : readBy [] = [] := rfl

@[simp] theorem readBy_evaluate (expression : Node) (steps : List Step) :
    readBy (.evaluate expression :: steps) = references expression ++ readBy steps := rfl

@[simp] theorem readBy_assign (steps : List Step) : readBy (.assign name :: steps) = readBy steps := rfl

@[simp] theorem readBy_store (steps : List Step) : readBy (.store :: steps) = readBy steps := rfl

@[simp] theorem readBy_append : readBy (first ++ second) = readBy first ++ readBy second := by
  rw [readBy, List.filterMap_append, List.flatMap_append]
  rfl

end Laws

/-- The names collected from a target are those of the variables that are assigned. -/
theorem assignedBy_performed {place : TargetPlace} {target : Node} (htarget : IsTarget place target)
    (supply : List Step) :
    assignedBy (performed supply target) = assignedBy supply ++ targetNames target := by
  have hlist {parts : List Node}
      (hparts : ∀ part ∈ parts, assignedBy (performed [] part) = targetNames part) :
      assignedBy (listPerformed parts) = allTargetNames parts := by
    induction parts with
    | nil => rfl
    | cons part rest ih =>
      rw [listPerformed, allTargetNames, assignedBy_append, hparts part List.mem_cons_self,
        ih fun other hother => hparts other (List.mem_cons_of_mem _ hother)]
  induction htarget generalizing supply with
  | named => simp [performed, targetNames]
  | member => simp [performed, targetNames]
  | index => simp [performed, targetNames]
  | object span _ ih =>
    rw [performed, targetNames, assignedBy_append, hlist fun part hpart => ih part hpart []]
  | array span _ ih =>
    rw [performed, targetNames, assignedBy_append, hlist fun part hpart => ih part hpart []]
  | element _ ih => exact ih supply
  | withDefault span value _ ih => simp [performed, targetNames, ih]
  | restElement span _ ih => simp [performed, targetNames, ih]
  | shorthand => simp [performed, targetNames]
  | shorthandDefault => simp [performed, targetNames]
  | property span key _ ih => simp [performed, targetNames, ih]
  | restProperty span _ ih => simp [performed, targetNames, ih]

/-- Every reference in a target is that of a variable which is assigned, or it stands in what is
evaluated. -/
theorem count_references_add {place : TargetPlace} {target : Node} (htarget : IsTarget place target)
    (supply : List Step) (name : String) :
    (references target).count name + (readBy supply).count name =
      (targetNames target).count name + (readBy (performed supply target)).count name := by
  have hlist {parts : List Node} (hparts : ∀ part ∈ parts, (references part).count name =
      (targetNames part).count name + (readBy (performed [] part)).count name) :
      (listReferences parts).count name = (allTargetNames parts).count name +
        (readBy (listPerformed parts)).count name := by
    induction parts with
    | nil => rfl
    | cons part rest ih =>
      have hpart := hparts part List.mem_cons_self
      have hrest := ih fun other hother => hparts other (List.mem_cons_of_mem _ hother)
      simp only [listReferences, allTargetNames, listPerformed, readBy_append, List.count_append]
      omega
  induction htarget generalizing supply with
  | named => simp [references, listReferences, performed, targetNames]
  | member => simp [references, listReferences, performed, targetNames]; omega
  | index => simp [references, listReferences, performed, targetNames]; omega
  | object span _ ih =>
    have hparts := hlist fun part hpart => by simpa using ih part hpart []
    simp only [references, performed, targetNames, readBy_append, List.count_append]
    omega
  | array span _ ih =>
    have hparts := hlist fun part hpart => by simpa using ih part hpart []
    simp only [references, performed, targetNames, readBy_append, List.count_append]
    omega
  | element _ ih => exact ih supply
  | withDefault span value _ ih =>
    have htarget := ih (supply ++ [.evaluate value])
    simp [references, listReferences, performed, targetNames] at htarget ⊢
    omega
  | restElement span _ ih => simpa [references, listReferences, performed, targetNames] using ih supply
  | shorthand => simp [references, listReferences, performed, targetNames]
  | shorthandDefault => simp [references, listReferences, performed, targetNames, List.count_cons]; omega
  | property span key _ ih =>
    have helement := ih supply
    simp [references, listReferences, performed, targetNames] at helement ⊢
    omega
  | restProperty span _ ih => simpa [references, listReferences, performed, targetNames] using ih supply

/-! ### Targets are collected exactly -/

/-- **Targets.** The names that are collected from a target are those of the variables which an
assignment to it assigns, in this order. Of the references that stand anywhere in the target, they are
all but those in what is evaluated: objects and keys of members, computed keys and default values. And
they are what an assignment, increment or decrement of the target is taken to write. -/
theorem targetNames_exact {target : Node} (htarget : IsTarget .whole target) :
    targetNames target = assignedBy (performed [] target) ∧
      (references target).Perm (targetNames target ++ readBy (performed [] target)) ∧
      ∀ write, writeTarget? write = some target → writtenNames write = targetNames target := by
  refine ⟨(assignedBy_performed htarget []).symm, List.perm_iff_count.mpr fun name => ?_,
    fun write => writtenNames_of_writeTarget?⟩
  rw [List.count_append]
  exact count_references_add htarget [] name

/-- The target in `[a, {b: c[d = e], [f]: g = () => h = g, ...i}, ...j] = k`. -/
def nestedTarget : Node :=
  .mk ⟨0, 52⟩ .arrayTarget
    [.mk ⟨1, 2⟩ (.reference "a") [],
      .mk ⟨4, 45⟩ .objectTarget
        [.mk ⟨5, 16⟩ .propertyTarget
            [.mk ⟨5, 6⟩ (.propertyName "b") [],
              .mk ⟨8, 16⟩ .index
                [.mk ⟨8, 9⟩ (.reference "c") [],
                  .mk ⟨10, 15⟩ (.assignment "=")
                    [.mk ⟨10, 11⟩ (.reference "d") [], .mk ⟨14, 15⟩ (.reference "e") []]]],
          .mk ⟨18, 38⟩ .propertyTarget
            [.mk ⟨18, 21⟩ .computedName [.mk ⟨19, 20⟩ (.reference "f") []],
              .mk ⟨23, 38⟩ .defaultTarget
                [.mk ⟨23, 24⟩ (.reference "g") [],
                  .mk ⟨27, 38⟩ .arrow
                    [.mk ⟨27, 29⟩ .parameters [],
                      .mk ⟨33, 38⟩ .body
                        [.mk ⟨33, 38⟩ .expressionStatement
                          [.mk ⟨33, 38⟩ (.assignment "=")
                            [.mk ⟨33, 34⟩ (.reference "h") [],
                              .mk ⟨37, 38⟩ (.reference "g") []]]]]]],
          .mk ⟨40, 44⟩ .restTarget [.mk ⟨43, 44⟩ (.reference "i") []]],
      .mk ⟨47, 51⟩ .restTarget [.mk ⟨50, 51⟩ (.reference "j") []]]

theorem isTarget_nestedTarget : IsTarget .whole nestedTarget := by
  refine .array _ (List.forall_mem_cons.mpr ⟨.element (.named _ _), List.forall_mem_cons.mpr
    ⟨.element (.object _ (List.forall_mem_cons.mpr ⟨?_, List.forall_mem_cons.mpr ⟨?_,
      List.forall_mem_singleton.mpr ?_⟩⟩)), List.forall_mem_singleton.mpr ?_⟩⟩)
  · exact .property _ _ (.element (.index _ _ _))
  · exact .property _ _ (.withDefault _ _ (.named _ _))
  · exact .restProperty _ (.named _ _)
  · exact .restElement _ (.named _ _)

/-- What the nested assignments write, and what is read, is not collected. -/
theorem targetNames_exact_nested :
    IsTarget .whole nestedTarget ∧ targetNames nestedTarget = ["a", "g", "i", "j"] ∧
      (references nestedTarget).Perm
        (["a", "g", "i", "j"] ++ ["c", "d", "e", "f", "h", "g"]) := by
  obtain ⟨hnames, hreferences, -⟩ := targetNames_exact isTarget_nestedTarget
  have hcollected : targetNames nestedTarget = ["a", "g", "i", "j"] := by
    rw [hnames]
    decide
  refine ⟨isTarget_nestedTarget, hcollected, ?_⟩
  rw [hcollected] at hreferences
  exact hreferences

end ModuleLinkage.Scope
