import Mathlib.Data.List.Forall2
import Mathlib.Data.List.Induction
import Mathlib.Data.List.Nodup
import Mathlib.Data.List.Perm.Subperm
import ModuleLinkage.Lowering.Hoisted
import ModuleLinkage.Proofs.Ledger.Intake

/-!
# The methods that imports pass

A request passes an object with methods, each under a key (`Method`), which are made of identifiers.
What an identifier stands for where a method runs depends on the method's parameters, and so
`Method.row?` reads a method as a consumer of the ledger. The parameters are made up (`freshName`), and
they hide no variable that the methods use (`freshName_not_mem`). So the methods of an import
(`importMethods`) are read as what they should be: one for each imported name, which puts the value into
the variables that take it, and one that fills the objects (`forall₂_importMethods`).
-/

set_option autoImplicit false

namespace ModuleLinkage.Lowering

open Text Ledger

/-! ### Methods as they are written -/

/-- A statement of a method, with its identifiers. -/
inductive MethodStatement where
  | assign (target value : String)
  /-- An assignment that is passed to the module reference. -/
  | announce (reference target value : String)
  | put (object name value : String)
  deriving DecidableEq

/-- A method under its key. -/
structure Method where
  key : String
  parameters : List String
  body : List MethodStatement
  deriving DecidableEq

/-! ### What methods do -/

/-- What an identifier in a method gives: the first parameter the value that was received, the second
one its name. What others give is left open. -/
def received? (parameters : List String) (identifier : String) : Option ValueTerm :=
  if parameters[0]? = some identifier then some .receivedValue
  else if parameters[1]? = some identifier then some .receivedName
  else none

/-- The lines that a statement is. An identifier that is a parameter is no variable of the module. -/
def MethodStatement.lines? (parameters : List String) : MethodStatement → Option Program
  | assign target value =>
    if target ∈ parameters then none
    else (received? parameters value).map fun term => [(Command.setBinding target term).line]
  | announce reference target value =>
    if target ∈ parameters ∨ reference ∈ parameters then none
    else (received? parameters value).map fun term =>
      [(Command.setBinding target term).line, (Command.propagate none term).line]
  | put object name value =>
    if object ∈ parameters ∨ parameters[1]? ≠ some name then none
    else (received? parameters value).map fun term =>
      [(Command.setMember (.named object) .received term).line]

/-- The consumer that a method is, under its key. -/
def Method.row? (method : Method) : Option (NameTerm × ConsumerTerm) :=
  if method.parameters.Nodup then
    (method.body.mapM (MethodStatement.lines? method.parameters)).map fun lines =>
      (.fixed method.key, .callback none lines.flatten)
  else none

/-! ### Made-up names -/

variable {taken : List String}

/-- A made-up name begins as it should. -/
theorem exists_freshNameUpTo_eq (taken : List String) (bound : Nat) (name : String) :
    ∃ marks, freshNameUpTo taken bound name = name ++ marks := by
  induction bound generalizing name with
  | zero => exact ⟨"", String.append_empty.symm⟩
  | succ bound ih =>
    rw [freshNameUpTo]
    split
    · obtain ⟨marks, hmarks⟩ := ih (name ++ "_")
      exact ⟨"_" ++ marks, hmarks.trans String.append_assoc⟩
    · exact ⟨"", String.append_empty.symm⟩

/-- Either a made-up name is not taken, or all names that were tried are. -/
theorem freshNameUpTo_cases (taken : List String) (bound : Nat) (name : String) :
    freshNameUpTo taken bound name ∉ taken ∨
      ∃ tried : List String, tried.length = bound + 1 ∧ tried.Nodup ∧
        ∀ other ∈ tried, other ∈ taken ∧ name.length ≤ other.length := by
  induction bound generalizing name with
  | zero =>
    by_cases hname : name ∈ taken
    · refine .inr ⟨[name], rfl, List.nodup_singleton name, fun other hother => ?_⟩
      rw [List.mem_singleton.mp hother]
      exact ⟨hname, Nat.le_refl _⟩
    · exact .inl hname
  | succ bound ih =>
    rw [freshNameUpTo]
    split
    · next hname =>
      rw [List.contains_iff_mem] at hname
      refine (ih (name ++ "_")).imp_right ?_
      rintro ⟨tried, hlength, hnodup, htried⟩
      have hlonger {other : String} (hother : other ∈ tried) : name.length < other.length := by
        have hle := (htried other hother).2
        rw [String.length_append] at hle
        exact hle
      refine ⟨name :: tried, by rw [List.length_cons, hlength], ?_, fun other hother => ?_⟩
      · exact List.nodup_cons.mpr ⟨fun h => Nat.lt_irrefl _ (hlonger h), hnodup⟩
      · rcases List.mem_cons.mp hother with rfl | hother
        · exact ⟨hname, Nat.le_refl _⟩
        · exact ⟨(htried other hother).1, Nat.le_of_lt (hlonger hother)⟩
    · next hname =>
      rw [List.contains_iff_mem] at hname
      exact .inl hname

/-- A made-up name is not taken: there are more names to try than are taken. -/
theorem freshName_not_mem (base : String) (taken : List String) : freshName base taken ∉ taken := by
  refine (freshNameUpTo_cases taken taken.length base).resolve_right ?_
  rintro ⟨tried, hlength, hnodup, htried⟩
  have hle := (hnodup.subperm fun other hother => (htried other hother).1).length_le
  omega

/-- Names made up from different letters are different. -/
theorem freshName_ne (taken : List String) : freshName "v" taken ≠ freshName "n" taken := by
  obtain ⟨marks, hvalue⟩ := exists_freshNameUpTo_eq taken taken.length "v"
  obtain ⟨marks', hname⟩ := exists_freshNameUpTo_eq taken taken.length "n"
  intro heq
  have hlists := congrArg String.toList (hvalue.symm.trans (heq.trans hname))
  rw [String.toList_append, String.toList_append] at hlists
  exact absurd (List.cons.inj hlists).1 (by decide)

/-! ### The methods of an import -/

/-- The statement for a variable that takes an imported value. -/
def assignment (scheme : Scheme) (value target : String) : MethodStatement :=
  if scheme.exported.contains target then .announce scheme.reference target value
  else .assign target value

/-- The methods that an import passes: for each imported name one that puts the value into the variables
that take it, and one for all names that fills the objects. -/
def importMethods (scheme : Scheme) (names : List (String × String)) (objects : List String) :
    List Method :=
  let taken := names.map (·.2) ++ objects ++ [scheme.reference]
  let value := freshName "v" taken
  let name := freshName "n" taken
  (groupByFirst names).map (fun (imported, targets) =>
      ⟨imported, [value], targets.map (assignment scheme value)⟩) ++
    if objects.isEmpty then []
    else [⟨everyName, [value, name], objects.map fun object => .put object name value⟩]

/-! ### Groups -/

/-- The variables that take the value of an imported name. -/
def targetsOf (names : List (String × String)) (imported : String) : List String :=
  (names.filter fun pair => pair.1 == imported).map (·.2)

theorem mem_targetsOf {names : List (String × String)} {imported target : String} :
    target ∈ targetsOf names imported ↔ (imported, target) ∈ names := by
  unfold targetsOf
  rw [List.mem_map]
  constructor
  · rintro ⟨pair, hpair, rfl⟩
    obtain ⟨hmem, hkey⟩ := List.mem_filter.mp hpair
    exact (beq_iff_eq.mp hkey) ▸ hmem
  · intro hmem
    exact ⟨(imported, target), List.mem_filter.mpr ⟨hmem, beq_self_eq_true imported⟩, rfl⟩

theorem targetsOf_concat (names : List (String × String)) (pair : String × String)
    (imported : String) : targetsOf (names ++ [pair]) imported =
      if pair.1 = imported then targetsOf names imported ++ [pair.2] else targetsOf names imported := by
  unfold targetsOf
  by_cases hpair : pair.1 = imported
  · simp [List.filter_append, hpair]
  · simp [List.filter_append, hpair]

theorem addToGroup_of_not_mem {key : String} {groups : List (String × List String)}
    (hkey : key ∉ groups.map (·.1)) (value : String) :
    addToGroup key value groups = groups ++ [(key, [value])] := by
  induction groups with
  | nil => rfl
  | cons group rest ih =>
    rw [List.map_cons, List.mem_cons, not_or] at hkey
    have hne : ¬ (group.1 == key) = true := fun h => hkey.1 (beq_iff_eq.mp h).symm
    rw [addToGroup, if_neg hne, ih hkey.2, List.cons_append]

theorem addToGroup_of_mem {key : String} {left right : List (String × List String)}
    (hkey : key ∉ left.map (·.1)) (values : List String) (value : String) :
    addToGroup key value (left ++ (key, values) :: right) =
      left ++ (key, values ++ [value]) :: right := by
  induction left with
  | nil => simp [addToGroup]
  | cons group rest ih =>
    rw [List.map_cons, List.mem_cons, not_or] at hkey
    have hne : ¬ (group.1 == key) = true := fun h => hkey.1 (beq_iff_eq.mp h).symm
    rw [List.cons_append, addToGroup, if_neg hne, ih hkey.2, List.cons_append]

/-- The groups are those of the names, each with its variables, and no name has two. -/
structure GroupsOf (names : List (String × String)) (groups : List (String × List String)) :
    Prop where
  distinct : (groups.map (·.1)).Nodup
  mem : ∀ imported targets, (imported, targets) ∈ groups ↔
    targets = targetsOf names imported ∧ targets ≠ []

/-- One more name goes into the group that it has, or into one of its own. -/
theorem GroupsOf.concat {names : List (String × String)} {groups : List (String × List String)}
    (h : GroupsOf names groups) (key value : String) :
    GroupsOf (names ++ [(key, value)]) (addToGroup key value groups) := by
  by_cases hkey : key ∈ groups.map (·.1)
  · obtain ⟨⟨present, values⟩, hgroup, heq⟩ := List.mem_map.mp hkey
    obtain rfl : present = key := heq
    obtain ⟨left, right, rfl⟩ := List.append_of_mem hgroup
    have hvalues := ((h.mem present values).mp hgroup).1
    have hdistinct := h.distinct
    rw [List.map_append, List.map_cons, List.nodup_middle, List.nodup_cons, List.mem_append,
      not_or] at hdistinct
    rw [addToGroup_of_mem hdistinct.1.1]
    constructor
    · rw [List.map_append, List.map_cons]
      exact List.nodup_middle.mpr
        (List.nodup_cons.mpr ⟨fun h => (List.mem_append.mp h).elim hdistinct.1.1 hdistinct.1.2,
          hdistinct.2⟩)
    · intro imported targets
      have hold := h.mem imported targets
      have hleft (h : (imported, targets) ∈ left) : imported ∈ left.map (·.1) :=
        List.mem_map_of_mem h
      have hright (h : (imported, targets) ∈ right) : imported ∈ right.map (·.1) :=
        List.mem_map_of_mem h
      rw [List.mem_append, List.mem_cons, Prod.mk.injEq] at hold ⊢
      rw [targetsOf_concat]
      by_cases himported : present = imported
      · subst himported
        rw [if_pos rfl, ← hvalues]
        constructor
        · rintro (hmem | ⟨-, rfl⟩ | hmem)
          · exact absurd (hleft hmem) hdistinct.1.1
          · exact ⟨rfl, by simp⟩
          · exact absurd (hright hmem) hdistinct.1.2
        · rintro ⟨rfl, -⟩
          exact .inr (.inl ⟨rfl, rfl⟩)
      · rw [if_neg himported, ← hold]
        simp [Ne.symm himported]
  · have hnone : targetsOf names key = [] := by
      by_contra hsome
      exact hkey (List.mem_map_of_mem ((h.mem key _).mpr ⟨rfl, hsome⟩))
    rw [addToGroup_of_not_mem hkey]
    constructor
    · rw [List.map_append, List.map_singleton, List.nodup_append]
      refine ⟨h.distinct, List.nodup_singleton key, fun other hother last hlast heq => hkey ?_⟩
      obtain rfl : last = key := List.mem_singleton.mp hlast
      exact heq ▸ hother
    · intro imported targets
      rw [List.mem_append, List.mem_singleton, h.mem, targetsOf_concat, Prod.mk.injEq]
      by_cases himported : key = imported
      · subst himported
        rw [if_pos rfl, hnone]
        constructor
        · rintro (⟨rfl, hne⟩ | ⟨-, rfl⟩)
          · exact absurd rfl hne
          · exact ⟨rfl, by simp⟩
        · rintro ⟨rfl, -⟩
          exact .inr ⟨rfl, rfl⟩
      · rw [if_neg himported]
        simp [Ne.symm himported]

theorem groupsOf_groupByFirst (names : List (String × String)) :
    GroupsOf names (groupByFirst names) := by
  induction names using List.reverseRecOn with
  | nil => exact ⟨List.nodup_nil, fun imported targets => by simp [groupByFirst, targetsOf]⟩
  | append_singleton names pair ih =>
    rw [groupByFirst, List.foldl_append]
    exact ih.concat pair.1 pair.2

/-! ### What the methods of an import do -/

/-- The lines for each name that an import takes in. -/
def importPrograms (exported : List String) (names : List (String × String)) (objects : List String) :
    List (String × Program) :=
  (groupByFirst names).map (fun group => (group.1, group.2.flatMap (feedLines exported))) ++
    if objects.isEmpty then [] else [(everyName, objects.map memberLine)]

theorem mapM_eq_some_map {α β : Type} {read : α → Option β} {result : α → β} {items : List α}
    (h : ∀ item ∈ items, read item = some (result item)) :
    items.mapM read = some (items.map result) := by
  induction items with
  | nil => rfl
  | cons item rest ih =>
    rw [List.mapM_cons, h item List.mem_cons_self,
      ih fun other hother => h other (List.mem_cons_of_mem _ hother)]
    rfl

/-- A statement for a variable is read as the lines that feed it, where no parameter hides the variable
or the module reference. -/
theorem lines?_assignment (scheme : Scheme) {value target : String} (htarget : target ≠ value)
    (hreference : scheme.reference ≠ value) :
    (assignment scheme value target).lines? [value] = some (feedLines scheme.exported target) := by
  unfold assignment feedLines
  split
  · simp [MethodStatement.lines?, received?, htarget, hreference]
  · simp [MethodStatement.lines?, received?, htarget]

theorem lines?_put {object name value : String} (hvalue : object ≠ value) (hname : object ≠ name) :
    (MethodStatement.put object name value).lines? [value, name] = some [memberLine object] := by
  simp [MethodStatement.lines?, received?, hvalue, hname, memberLine]

/-- The method for an imported name is read as the lines that feed the variables. -/
theorem row?_assignments (scheme : Scheme) (imported : String) {value : String} {targets : List String}
    (htargets : ∀ target ∈ targets, target ≠ value) (hreference : scheme.reference ≠ value) :
    Method.row? ⟨imported, [value], targets.map (assignment scheme value)⟩ =
      some (.fixed imported, .callback none (targets.flatMap (feedLines scheme.exported))) := by
  have hbody : (targets.map (assignment scheme value)).mapM (MethodStatement.lines? [value]) =
      some (targets.map (feedLines scheme.exported)) := by
    rw [List.mapM_map]
    exact mapM_eq_some_map fun target htarget =>
      lines?_assignment scheme (htargets target htarget) hreference
  simp only [Method.row?, List.nodup_singleton, if_true, hbody, Option.map_some, List.flatMap_def]

/-- The method for all names is read as the lines that fill the objects. -/
theorem row?_puts {value name : String} (hne : value ≠ name) {objects : List String}
    (hobjects : ∀ object ∈ objects, object ≠ value ∧ object ≠ name) :
    Method.row? ⟨everyName, [value, name], objects.map fun object => .put object name value⟩ =
      some (.fixed everyName, .callback none (objects.map memberLine)) := by
  have hbody : (objects.map fun object => MethodStatement.put object name value).mapM
      (MethodStatement.lines? [value, name]) = some (objects.map fun object => [memberLine object]) := by
    rw [List.mapM_map]
    exact mapM_eq_some_map fun object hobject =>
      lines?_put (hobjects object hobject).1 (hobjects object hobject).2
  have hnodup : [value, name].Nodup := by simpa using hne
  simp only [Method.row?, hnodup, if_true, hbody, Option.map_some]
  rw [← List.flatMap_def, ← List.map_eq_flatMap]

/-- **Methods.** The methods of an import are read as consumers that run the lines for its names. -/
theorem forall₂_importMethods (scheme : Scheme) (names : List (String × String))
    (objects : List String) :
    List.Forall₂ (fun (method : Method) (row : String × Program) =>
        method.row? = some (.fixed row.1, .callback none row.2))
      (importMethods scheme names objects) (importPrograms scheme.exported names objects) := by
  have hfresh (base : String) :=
    freshName_not_mem base (names.map (·.2) ++ objects ++ [scheme.reference])
  have hne := freshName_ne (names.map (·.2) ++ objects ++ [scheme.reference])
  unfold importMethods importPrograms
  dsimp only
  generalize hvalue : freshName "v" (names.map (·.2) ++ objects ++ [scheme.reference]) = value at hne ⊢
  generalize hname : freshName "n" (names.map (·.2) ++ objects ++ [scheme.reference]) = name at hne ⊢
  have hvalues := hvalue ▸ hfresh "v"
  have hnames := hname ▸ hfresh "n"
  simp only [List.mem_append, List.mem_singleton, not_or] at hvalues hnames
  refine List.rel_append ?_ ?_
  · rw [List.forall₂_map_left_iff, List.forall₂_map_right_iff, List.forall₂_same]
    intro group hgroup
    refine row?_assignments scheme group.1 (fun target htarget heq => ?_) (Ne.symm hvalues.2)
    rw [(((groupsOf_groupByFirst names).mem group.1 group.2).mp hgroup).1] at htarget
    exact hvalues.1.1 (heq ▸ List.mem_map_of_mem (mem_targetsOf.mp htarget))
  · split
    · exact .nil
    · refine .cons (row?_puts hne fun object hobject => ⟨?_, ?_⟩) .nil
      · rintro rfl
        exact hvalues.1.2 hobject
      · rintro rfl
        exact hnames.1.2 hobject

end ModuleLinkage.Lowering
