import Mathlib.Tactic.Tauto
import ModuleLinkage.Scope.DeclaredNames
import ModuleLinkage.Scope.TargetNames

/-!
# Scopes, place by place

`Scope.scopeNames` gives one list of names for each construct that opens a scope, and the pass that
looks for writes takes all of them for bound in everything that stands in the construct. Lexical
scoping is finer. What the body of a function declares is not bound in the parameters; the
parameters are not bound in their own decorators; of the names bound somewhere inside the parameters,
such as the parameters of a function that is a default value or of a function type, only the
parameters themselves are bound in the function; and what the cases of a switch declare is not bound
in its subject.

The `Surroundings` of a node keep these apart: the names that the scopes around bind there
(`lexical`), and those that the pass only takes for bound (`hidden`). Together they are all that the
pass takes for bound (`Surroundings.mem_names_enter`). Classes are no scopes here, so the names that
they bind count as free.
-/

set_option autoImplicit false

namespace ModuleLinkage.Scope

open Syntax

/-! ### Functions -/

/-- The name by which a function expression knows itself. -/
def definedName (function : Node) : List String :=
  match function.form with
  | .function .expression _ => function.ownName?.toList
  | _ => []

/-- The names that a parameter binds. Its decorators, type and default value bind none for the
function. -/
def parameterNames (parameter : Node) : List String :=
  match parameter.form with
  | .parameter => parameter.parts.flatMap patternNames
  | _ => []

/-- The names that the parameters in a part of a function bind. -/
def partParameterNames (part : Node) : List String :=
  match part.form with
  | .parameters => part.parts.flatMap parameterNames
  | _ => []

/-- All names that are bound anywhere inside a part that holds parameters. -/
def partBindingNames (part : Node) : List String :=
  match part.form with
  | .parameters => listBindingNames (part.parts.filter fun parameter => !isThisParameter parameter)
  | _ => []

/-- The names that a part of a function declares as its body. -/
def partBodyNames (part : Node) : List String :=
  match part.form with
  | .body => functionNames part.parts
  | _ => []

/-- The names of the parameters of a function. -/
def ownParameterNames (function : Node) : List String :=
  function.parts.flatMap partParameterNames

/-- The names that are bound inside the parameters of a function, but not by them. -/
def strayNames (function : Node) : List String :=
  (function.parts.flatMap partBindingNames).filter fun name =>
    !(ownParameterNames function).contains name

/-- The names that the body of a function declares. -/
def bodyNames (function : Node) : List String :=
  function.parts.flatMap partBodyNames

/-- The names that the cases of a switch declare. -/
def switchNames (statement : Node) : List String :=
  statement.parts.flatMap caseNames

/-! ### Surroundings -/

/-- What is known of names at a place where a node stands. -/
structure Surroundings where
  /-- The names that the scopes around bind. -/
  lexical : List String
  /-- The parameters of the list around, bound as soon as one of them is entered. -/
  waiting : List String
  /-- The names that are taken for bound without being so. -/
  hidden : List String

namespace Surroundings

/-- Outside of every scope. -/
def top : Surroundings :=
  ⟨[], [], []⟩

/-- All names that are taken for bound. -/
def names (place : Surroundings) : List String :=
  place.lexical ++ (place.waiting ++ place.hidden)

/-- One scope more, with the given names. -/
def bind (place : Surroundings) (names : List String) : Surroundings :=
  ⟨names ++ (place.waiting ++ place.lexical), [], place.hidden⟩

/-- Names that are taken for bound without being so. -/
def hide (place : Surroundings) (names : List String) : Surroundings :=
  { place with hidden := names ++ place.hidden }

/-- The surroundings of a part of a function. -/
def enterFunction (place : Surroundings) (function part : Node) : Surroundings :=
  let outer := place.bind (definedName function)
  match part.form with
  | .parameters =>
    { outer.hide (strayNames function ++ bodyNames function) with
      waiting := ownParameterNames function }
  | .body =>
    (outer.bind (bodyNames function ++ ownParameterNames function)).hide (strayNames function)
  | _ => outer.hide (ownParameterNames function ++ (strayNames function ++ bodyNames function))

/-- The surroundings of a part of a list of parameters. -/
def enterParameters (place : Surroundings) (part : Node) : Surroundings :=
  match part.form with
  | .parameter => place
  | _ => place.bind []

/-- The surroundings of a part of a parameter. Decorators stand outside of the function. -/
def enterParameter (place : Surroundings) (part : Node) : Surroundings :=
  match part.form with
  | .decorator => ⟨place.lexical, [], place.waiting ++ place.hidden⟩
  | _ => place.bind []

/-- The surroundings of a part of a switch. Its subject stands outside of the block of its cases. -/
def enterSwitch (place : Surroundings) (statement part : Node) : Surroundings :=
  match part.form with
  | .switchCase | .defaultCase => place.bind (switchNames statement)
  | _ => (place.bind []).hide (switchNames statement)

/-- The surroundings of a part of a node. What is no function and no switch binds its names in all
that stands in it: blocks, loops, catch clauses and namespaces. -/
def enter (place : Surroundings) (node part : Node) : Surroundings :=
  match node.form with
  | .function _ _ | .arrow => place.enterFunction node part
  | .parameters => place.enterParameters part
  | .parameter => place.enterParameter part
  | .switchStatement => place.enterSwitch node part
  | _ => place.bind (scopeNames node)

end Surroundings

mutual

/-- The nodes of a tree with their surroundings, but for what stands in ambient namespaces. -/
def places (place : Surroundings) : Node → List (Node × Surroundings)
  | .mk span form parts =>
    (.mk span form parts, place) ::
      match form with
      | .namespaceDeclaration true => []
      | _ => listPlaces (.mk span form parts) place parts

def listPlaces (node : Node) (place : Surroundings) : List Node → List (Node × Surroundings)
  | [] => []
  | part :: rest => places (place.enter node part) part ++ listPlaces node place rest

end

/-! ### What is taken for bound -/

theorem listBindingNames_eq (nodes : List Node) :
    listBindingNames nodes = nodes.flatMap bindingNames := by
  induction nodes with
  | nil => rfl
  | cons node rest ih => rw [listBindingNames, ih, List.flatMap_cons]

theorem allPatternNames_eq (patterns : List Node) :
    allPatternNames patterns = patterns.flatMap patternNames := by
  induction patterns with
  | nil => rfl
  | cons pattern rest ih => rw [allPatternNames, ih, List.flatMap_cons]

theorem listPlaces_eq (node : Node) (place : Surroundings) (parts : List Node) :
    listPlaces node place parts = parts.flatMap fun part => places (place.enter node part) part := by
  induction parts with
  | nil => rfl
  | cons part rest ih => rw [listPlaces, ih, List.flatMap_cons]

/-- What is bound in a part of a node is bound in the node. -/
theorem mem_bindingNames_of_mem_part {node part : Node} {name : String} (hpart : part ∈ node.parts)
    (hname : name ∈ bindingNames part) : name ∈ bindingNames node := by
  obtain ⟨span, form, parts⟩ := node
  have hparts : name ∈ listBindingNames parts := by
    rw [listBindingNames_eq, List.mem_flatMap]
    exact ⟨part, hpart, hname⟩
  unfold bindingNames
  split
  · exact List.mem_cons_of_mem _ hparts
  · exact hparts

/-- What a pattern binds is bound in it. -/
theorem mem_bindingNames_of_mem_patternNames {name : String} (pattern : Node)
    (hname : name ∈ patternNames pattern) : name ∈ bindingNames pattern := by
  induction pattern using Node.induction with
  | step span form parts ih =>
    have hpart {part : Node} (hmem : part ∈ parts) (hname : name ∈ patternNames part) :
        name ∈ bindingNames (.mk span form parts) :=
      mem_bindingNames_of_mem_part hmem (ih part hmem hname)
    unfold patternNames at hname
    split at hname
    · rw [List.mem_singleton] at hname
      subst hname
      exact List.mem_cons_self
    · rw [allPatternNames_eq] at hname
      obtain ⟨part, hmem, hname⟩ := List.mem_flatMap.mp hname
      exact hpart hmem hname
    · rw [allPatternNames_eq] at hname
      obtain ⟨part, hmem, hname⟩ := List.mem_flatMap.mp hname
      exact hpart hmem hname
    · exact hpart (by simp) hname
    · exact hpart (by simp) hname
    · exact hpart (by simp) hname
    · cases hname

/-- The parameters of a part of a function are bound in that part. -/
theorem mem_partBindingNames_of_mem_partParameterNames {part : Node} {name : String}
    (hname : name ∈ partParameterNames part) : name ∈ partBindingNames part := by
  unfold partParameterNames at hname
  unfold partBindingNames
  cases hform : part.form <;> simp only [hform] at hname ⊢ <;> try cases hname
  obtain ⟨parameter, hparameter, hname⟩ := List.mem_flatMap.mp hname
  have hform : parameter.form = .parameter := by
    unfold parameterNames at hname
    split at hname
    · assumption
    · cases hname
  unfold parameterNames at hname
  rw [hform] at hname
  obtain ⟨pattern, hpattern, hname⟩ := List.mem_flatMap.mp hname
  rw [listBindingNames_eq, List.mem_flatMap]
  refine ⟨parameter, List.mem_filter.mpr ⟨hparameter, by simp [isThisParameter, hform]⟩, ?_⟩
  exact mem_bindingNames_of_mem_part hpattern (mem_bindingNames_of_mem_patternNames _ hname)

/-- The names of a function's scope: its own name, its parameters, what is bound inside these, and
what its body declares. -/
theorem mem_functionPartNames {function : Node} {name : String} :
    name ∈ function.parts.flatMap functionPartNames ↔
      name ∈ ownParameterNames function ∨ name ∈ strayNames function ∨
        name ∈ bodyNames function := by
  have hpart (part : Node) : name ∈ functionPartNames part ↔
      name ∈ partBindingNames part ∨ name ∈ partBodyNames part := by
    unfold functionPartNames partBindingNames partBodyNames
    cases part.form <;> simp
  have hstray : name ∈ strayNames function ↔
      name ∈ function.parts.flatMap partBindingNames ∧ name ∉ ownParameterNames function := by
    simp [strayNames]
  have hown (h : name ∈ ownParameterNames function) :
      name ∈ function.parts.flatMap partBindingNames := by
    obtain ⟨part, hmem, hname⟩ := List.mem_flatMap.mp h
    exact List.mem_flatMap.mpr ⟨part, hmem, mem_partBindingNames_of_mem_partParameterNames hname⟩
  have hsplit : name ∈ function.parts.flatMap functionPartNames ↔
      name ∈ function.parts.flatMap partBindingNames ∨ name ∈ bodyNames function := by
    simp only [bodyNames, List.mem_flatMap, hpart]
    constructor
    · rintro ⟨part, hmem, hname | hname⟩
      · exact .inl ⟨part, hmem, hname⟩
      · exact .inr ⟨part, hmem, hname⟩
    · rintro (⟨part, hmem, hname⟩ | ⟨part, hmem, hname⟩)
      · exact ⟨part, hmem, .inl hname⟩
      · exact ⟨part, hmem, .inr hname⟩
  rw [hsplit, hstray]
  by_cases hmem : name ∈ ownParameterNames function
  · simp [hmem, hown hmem]
  · simp [hmem]

/-- The scope of a function or arrow function, name by name. -/
theorem mem_scopeNames_function {function : Node} {name : String}
    (hform : (∃ style ambient, function.form = .function style ambient) ∨ function.form = .arrow) :
    name ∈ scopeNames function ↔ name ∈ definedName function ∨ name ∈ ownParameterNames function ∨
      name ∈ strayNames function ∨ name ∈ bodyNames function := by
  rw [← mem_functionPartNames]
  unfold scopeNames definedName
  rcases hform with ⟨style, ambient, hform⟩ | hform
  · cases style <;> simp [hform]
  · simp [hform]

namespace Surroundings

@[simp] theorem mem_names {place : Surroundings} {name : String} : name ∈ place.names ↔
    name ∈ place.lexical ∨ name ∈ place.waiting ∨ name ∈ place.hidden := by
  simp [names]

/-- At the place of a part, what is taken for bound is what was taken for bound around the node and
what the node opens a scope for. -/
theorem mem_names_enter (place : Surroundings) (node part : Node) (name : String) :
    name ∈ (place.enter node part).names ↔ name ∈ scopeNames node ∨ name ∈ place.names := by
  unfold enter
  split
  · next style ambient hform =>
    rw [mem_scopeNames_function (.inl ⟨_, _, hform⟩)]
    unfold enterFunction
    split
    · simp [bind, hide]
      tauto
    · simp [bind, hide]
      tauto
    · simp [bind, hide]
      tauto
  · next hform =>
    rw [mem_scopeNames_function (.inr hform)]
    unfold enterFunction
    split
    · simp [bind, hide]
      tauto
    · simp [bind, hide]
      tauto
    · simp [bind, hide]
      tauto
  · next hform =>
    unfold enterParameters
    split
    · simp [scopeNames, hform]
    · simp [bind, scopeNames, hform]
      tauto
  · next hform =>
    unfold enterParameter
    split
    · simp [scopeNames, hform]
    · simp [bind, scopeNames, hform]
      tauto
  · next hform =>
    have hscope : scopeNames node = switchNames node := by simp [scopeNames, switchNames, hform]
    unfold enterSwitch
    split <;> simp [bind, hide, hscope] <;> tauto
  · simp [bind]
    tauto

/-- Only a list of parameters and its parameters have names around them that wait to be bound. -/
theorem waiting_enter (place : Surroundings) (node part : Node) :
    (place.enter node part).waiting = [] ∨ part.form = .parameters ∨ part.form = .parameter := by
  by_cases hparameters : part.form = .parameters
  · exact .inr (.inl hparameters)
  by_cases hparameter : part.form = .parameter
  · exact .inr (.inr hparameter)
  left
  unfold enter
  split
  · unfold enterFunction
    split
    · contradiction
    · rfl
    · rfl
  · unfold enterFunction
    split
    · contradiction
    · rfl
    · rfl
  · unfold enterParameters
    split
    · contradiction
    · rfl
  · unfold enterParameter
    split <;> rfl
  · unfold enterSwitch
    split <;> rfl
  · rfl

end Surroundings

/-- No names wait to be bound around what is neither a list of parameters nor one of them. -/
theorem waiting_eq_nil {root : Node} {start : Surroundings} {node : Node} {place : Surroundings}
    (hstart : start.waiting = [] ∨ root.form = .parameters ∨ root.form = .parameter)
    (hmem : (node, place) ∈ places start root) :
    place.waiting = [] ∨ node.form = .parameters ∨ node.form = .parameter := by
  induction root using Node.induction generalizing start with
  | step span form parts ih =>
    unfold places at hmem
    rcases List.mem_cons.mp hmem with hself | hmem
    · cases hself
      exact hstart
    split at hmem
    · cases hmem
    · rw [listPlaces_eq, List.mem_flatMap] at hmem
      obtain ⟨part, hpart, hinner⟩ := hmem
      exact ih part hpart (start.waiting_enter _ part) hinner

end ModuleLinkage.Scope
