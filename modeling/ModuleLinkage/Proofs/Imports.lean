import ModuleLinkage.Proofs.Ledger.ImportGraph.Opening
import ModuleLinkage.Proofs.Ledger.Reentry.Overtaking
import ModuleLinkage.Proofs.Lowering.Hygiene
import ModuleLinkage.Proofs.Lowering.Standing
import ModuleLinkage.Proofs.Syntax.Keys

/-!
# What imports bring in

An import declaration becomes a request that passes methods, and these are registered as the consumers
of a batch. `served_program` follows the names of a declaration all the way: the generated text is made
of methods, each under a key that is read as its name; a variable is announced where it is assigned
exactly if the module exports it, before the import or behind it; and whatever is delivered to the
batch, each variable holds what was delivered last under its own imported name, and each object has
everything that was delivered.

One name is not safe. The ledger takes the mark of every name for just that, and a module may import a
string name that is the mark: its variable takes every value (`wildcardName_gathers`).
-/

set_option autoImplicit false

namespace ModuleLinkage.Lowering

open Syntax Text Ledger

variable {subject : Subject} {declaration : Node}

/-! ### The names in a declaration -/

/-- A declaration imports a name into a variable. -/
inductive Imports (declaration : Node) : String → String → Prop
  | default {specifier binding : Node} {target : String} (hmem : specifier ∈ declaration.parts)
      (hform : specifier.form = .importDefault) (hparts : specifier.parts = [binding])
      (htarget : binding.name? = some target) : Imports declaration "default" target
  | named {specifier imported binding : Node} {name target : String}
      (hmem : specifier ∈ declaration.parts) (hform : specifier.form = .importName false)
      (hparts : specifier.parts = [imported, binding]) (hname : imported.name? = some name)
      (htarget : binding.name? = some target) : Imports declaration name target

/-- A declaration imports all names into an object. -/
def ImportsAll (declaration : Node) (object : String) : Prop :=
  ∃ specifier ∈ declaration.parts, specifier.form = .importNamespace ∧
    ∃ binding, specifier.parts = [binding] ∧ binding.name? = some object

/-- The names that a declaration imports, each with its variable. -/
def importedNames (declaration : Node) : List (String × String) :=
  declaration.parts.filterMap importedPair?

/-- The objects that a declaration fills. -/
def importedObjects (declaration : Node) : List String :=
  declaration.parts.filterMap importedNamespace?

theorem mem_importedNames_iff {name target : String} :
    (name, target) ∈ importedNames declaration ↔ Imports declaration name target := by
  unfold importedNames
  rw [List.mem_filterMap]
  constructor
  · rintro ⟨specifier, hmem, hpair⟩
    unfold importedPair? at hpair
    split at hpair
    · next binding hform hparts =>
      obtain ⟨found, hfound, heq⟩ := Option.map_eq_some_iff.mp hpair
      cases heq
      exact .default hmem hform hparts hfound
    · next imported binding hform hparts =>
      simp only [Option.bind_eq_bind, Option.bind_eq_some_iff, Option.pure_def,
        Option.some.injEq] at hpair
      obtain ⟨name, hname, target, htarget, heq⟩ := hpair
      cases heq
      exact .named hmem hform hparts hname htarget
    · cases hpair
  · intro himports
    cases himports with
    | @default specifier binding target hmem hform hparts htarget =>
      exact ⟨specifier, hmem, by simp [importedPair?, hform, hparts, htarget]⟩
    | @named specifier imported binding name target hmem hform hparts hname htarget =>
      exact ⟨specifier, hmem, by simp [importedPair?, hform, hparts, hname, htarget]⟩

theorem mem_importedObjects_iff {object : String} :
    object ∈ importedObjects declaration ↔ ImportsAll declaration object := by
  unfold importedObjects ImportsAll
  rw [List.mem_filterMap]
  refine exists_congr fun specifier => and_congr_right fun _ => ?_
  unfold importedNamespace?
  constructor
  · intro hobject
    split at hobject
    · next binding hform hparts => exact ⟨hform, binding, hparts, hobject⟩
    · cases hobject
  · rintro ⟨hform, binding, hparts, hobject⟩
    simp [hform, hparts, hobject]

/-! ### The registration of an import -/

section Registration

variable {exported : List String} {names : List (String × String)} {objects : List String}
  {scope : Scope} {world : World}

/-- What an import subscribes with: the consumers that its methods are, its key, and its objects. -/
def importSubscription (rows : List (NameTerm × ConsumerTerm)) (key : Nat) (objects : List String) :
    Subscription ConsumerTerm :=
  { consumers := some rows, key := some key.repr, spaces := objects.map .named }

/-- The consumers that run some lines under their names. -/
def callbacks (scope : Scope) (programs : List (String × Program)) : List (String × Consumer) :=
  programs.map fun row => (row.1, .callback none row.2 scope)

/-- The import that is registered next in a world. -/
def importIntake (exported : List String) (names : List (String × String)) (objects : List String)
    (scope : Scope) (world : World) : Intake where
  batch := ⟨world.batches.size⟩
  scope := scope
  targets := targetsOf names
  exported := exported
  objects := objects
  binding target := (world.names.bindings.get? target).getD default
  space object := (world.names.spaces.get? object).getD default

/-- Names are valid if no two of them stand for one thing, and each for one that is there. -/
theorem namesValid_of_rows {names : Table BindingRef} {count : Nat}
    (hlt : ∀ row ∈ names.rows, row.2.index < count)
    (hinj : ∀ row ∈ names.rows, ∀ other ∈ names.rows, row.2 = other.2 → row.1 = other.1) :
    World.NamesValid names count := by
  have hmem {name : String} {ref : BindingRef} (h : names.get? name = some ref) :
      (name, ref) ∈ names.rows := by
    obtain ⟨row, hrow, rfl⟩ := Option.map_eq_some_iff.mp h
    obtain rfl : row.1 = name := by simpa using List.find?_some hrow
    exact List.mem_of_find?_eq_some hrow
  constructor
  · intro name ref h
    exact hlt _ (hmem h)
  · intro first second ref h h'
    exact hinj _ (hmem h) _ (hmem h') rfl

/-- The variables and objects of an import are there. -/
structure Declared (names : List (String × String)) (objects : List String) (world : World) : Prop where
  valid : World.NamesValid world.names.bindings world.bindings.size
  targets : ∀ name target, (name, target) ∈ names →
    ∃ ref, world.names.bindings.get? target = some ref
  objects : ∀ object ∈ objects, ∃ ref, world.names.spaces.get? object = some ref ∧
    ref.index < world.spaces.size

theorem outcome_newConsumers (scope : Scope) (programs : List (String × Program)) (world : World) :
    (newConsumers scope (programs.map fun row => (.fixed row.1, .callback none row.2))).outcome world =
      (.ok (callbacks scope programs), world) := by
  induction programs with
  | nil => rfl
  | cons row rest ih =>
    rw [List.map_cons, newConsumers, Effect.outcome_bind]
    change (newConsumers scope _ >>= _).outcome world = _
    rw [Effect.outcome_bind, ih]
    rfl

theorem outcome_find_objects (hobjects : ∀ object ∈ objects, ∃ ref,
      world.names.spaces.get? object = some ref ∧ ref.index < world.spaces.size) :
    ((objects.map NamespaceTerm.named).mapM NamespaceTerm.find).outcome world =
      (.ok (objects.map fun object => (world.names.spaces.get? object).getD default), world) := by
  induction objects with
  | nil => rfl
  | cons object rest ih =>
    obtain ⟨ref, hnamed, -⟩ := hobjects object List.mem_cons_self
    have hfind : (NamespaceTerm.named object).find.outcome world = (.ok ref, world) := by
      simp only [NamespaceTerm.find, Effect.outcome_bind, Effect.outcome_get, hnamed]
      rfl
    have hrest := ih fun other hother => hobjects other (List.mem_cons_of_mem _ hother)
    simp only [List.map_cons, List.mapM_cons, Effect.outcome_bind, hfind, hrest, hnamed]
    rfl

/-- Where its objects are there, what an import subscribes with is worked out without more ado. -/
theorem outcome_evaluate_importSubscription (hdeclared : Declared names objects world) (key : Nat)
    (programs : List (String × Program)) :
    ((importSubscription (programs.map fun row => (.fixed row.1, .callback none row.2)) key
      objects).evaluate scope).outcome world =
      (.ok ⟨some (Table.ofList (callbacks scope programs)), some key.repr,
        objects.map fun object => (world.names.spaces.get? object).getD default⟩, world) := by
  simp only [Subscription.evaluate, importSubscription, Effect.outcome_bind,
    outcome_newConsumers, Effect.outcome_pure, outcome_find_objects hdeclared.objects]

/-- The group of a name is found under it. -/
theorem find?_groupByFirst (names : List (String × String)) (name : String) :
    ((groupByFirst names).find? fun group => group.1 == name) =
      if targetsOf names name = [] then none else some (name, targetsOf names name) := by
  have hgroups := groupsOf_groupByFirst names
  cases hfind : (groupByFirst names).find? fun group => group.1 == name with
  | some group =>
    obtain ⟨key, targets⟩ := group
    obtain rfl : key = name := by simpa using List.find?_some hfind
    obtain ⟨rfl, hne⟩ := (hgroups.mem key targets).mp (List.mem_of_find?_eq_some hfind)
    rw [if_neg hne]
  | none =>
    by_cases hne : targetsOf names name = []
    · rw [if_pos hne]
    · have hmem := (hgroups.mem name (targetsOf names name)).mpr ⟨rfl, hne⟩
      simpa using List.find?_eq_none.mp hfind _ hmem

/-- The consumer that is registered for a name. -/
theorem find?_callbacks (scope : Scope) (exported : List String) (names : List (String × String))
    (objects : List String) (name : String) :
    ((callbacks scope (importPrograms exported names objects)).find? fun row => row.1 == name) =
      if targetsOf names name ≠ [] then
        some (name, .callback none ((targetsOf names name).flatMap (feedLines exported)) scope)
      else if name = everyName ∧ objects ≠ [] then
        some (everyName, .callback none (objects.map memberLine) scope)
      else none := by
  have hsame : ((fun row : String × Consumer => row.1 == name) ∘ fun row : String × Program =>
      (row.1, Consumer.callback none row.2 scope)) = fun row => row.1 == name := rfl
  have hgroup : ((fun row : String × Program => row.1 == name) ∘ fun group : String × List String =>
      (group.1, group.2.flatMap (feedLines exported))) = fun group => group.1 == name := rfl
  rw [callbacks, List.find?_map, hsame, importPrograms, List.find?_append, List.find?_map, hgroup,
    find?_groupByFirst]
  by_cases htargets : targetsOf names name = []
  · rw [if_pos htargets, if_neg (not_not.mpr htargets)]
    by_cases hobjects : objects = []
    · simp [hobjects]
    · by_cases hname : name = everyName
      · simp [hobjects, hname]
      · have hname' : (everyName == name) = false := beq_eq_false_iff_ne.mpr (Ne.symm hname)
        simp [hobjects, hname, hname']
  · rw [if_neg htargets, if_pos htargets]
    rfl

/-- Where no name is imported from the mark of every name, an import registers each name once. -/
theorem nodup_importPrograms (exported : List String) {names : List (String × String)}
    (hwildcard : targetsOf names everyName = []) (objects : List String) :
    ((importPrograms exported names objects).map (·.1)).Nodup := by
  have hgroups := groupsOf_groupByFirst names
  have hkeys : ((groupByFirst names).map fun group : String × List String =>
      (group.1, group.2.flatMap (feedLines exported))).map (·.1) =
        (groupByFirst names).map (·.1) := by
    rw [List.map_map]
    rfl
  rw [importPrograms, List.map_append, hkeys]
  split
  · rw [List.map_nil, List.append_nil]
    exact hgroups.distinct
  · rw [List.map_singleton, List.nodup_append]
    refine ⟨hgroups.distinct, List.nodup_singleton _, fun key hkey last hlast heq => ?_⟩
    obtain rfl : last = everyName := List.mem_singleton.mp hlast
    obtain ⟨⟨found, targets⟩, hmem, rfl⟩ := List.mem_map.mp hkey
    obtain rfl : found = everyName := heq
    obtain ⟨rfl, hne⟩ := (hgroups.mem _ _).mp hmem
    exact hne hwildcard

/-- Different names have different variables, where no variable takes two names. -/
theorem apart_importIntake (hdeclared : Declared names objects world)
    (hwildcard : ∀ target, (everyName, target) ∉ names)
    (hsingle : ∀ name name' target, (name, target) ∈ names → (name', target) ∈ names → name = name') :
    (importIntake exported names objects scope world).Apart where
  noWildcard := List.eq_nil_iff_forall_not_mem.mpr fun target htarget =>
    hwildcard target (mem_targetsOf.mp htarget)
  binding {name name' target target'} htarget htarget' heq := by
    have hmem := mem_targetsOf.mp htarget
    have hmem' := mem_targetsOf.mp htarget'
    obtain ⟨ref, href⟩ := hdeclared.targets name target hmem
    obtain ⟨ref', href'⟩ := hdeclared.targets name' target' hmem'
    simp only [importIntake, href, href', Option.getD_some] at heq
    subst heq
    obtain rfl := hdeclared.valid.inj href href'
    exact hsingle name name' target hmem hmem'

/-- **Registration.** The batch that is registered for an import is linked. -/
theorem linked_addConsumers (hdeclared : Declared names objects world)
    (hwildcard : ∀ target, (everyName, target) ∉ names) (entry : EntryRef) (module : ModuleRef)
    (key : Option String) :
    (importIntake exported names objects scope world).Linked (world.addConsumers entry module
      (Table.ofList (callbacks scope (importPrograms exported names objects))) key
      (objects.map (importIntake exported names objects scope world).space)) := by
  have hrenewed := world.renewed_addConsumers entry module
    (Table.ofList (callbacks scope (importPrograms exported names objects))) key
    (objects.map (importIntake exported names objects scope world).space)
  generalize world.addConsumers entry module _ key _ = enrolled at hrenewed ⊢
  have hnone : targetsOf names everyName = [] := List.eq_nil_iff_forall_not_mem.mpr
    fun target htarget => hwildcard target (mem_targetsOf.mp htarget)
  have hrows : (Table.ofList (callbacks scope (importPrograms exported names objects))).rows =
      callbacks scope (importPrograms exported names objects) := by
    refine Table.rows_ofList ?_
    rw [callbacks, List.map_map]
    exact nodup_importPrograms exported hnone objects
  have hnames : enrolled.names = world.names := (congrArg World.names hrenewed.rest).trans rfl
  have hbindings : enrolled.bindings = world.bindings :=
    (congrArg World.bindings hrenewed.rest).trans rfl
  have hconsumers (name : String) : (enrolled.batch ⟨world.batches.size⟩).consumers.get? name =
      ((callbacks scope (importPrograms exported names objects)).find?
        fun row => row.1 == name).map (·.2) := by
    rw [hrenewed.added, Table.get?, hrows]
  constructor
  · exact congrArg Batch.isActive hrenewed.added
  · intro name hname
    refine (hconsumers name).trans ?_
    rw [find?_callbacks]
    by_cases htargets : targetsOf names name = []
    · simp [importIntake, htargets, hname]
    · simp [importIntake, htargets, Intake.feed]
  · refine (hconsumers everyName).trans ?_
    rw [find?_callbacks]
    by_cases hobjects : objects = []
    · simp [importIntake, hnone, hobjects]
    · simp [importIntake, hnone, hobjects, Intake.gather]
  · exact congrArg Batch.spaces hrenewed.added
  · intro name target htarget
    obtain ⟨ref, href⟩ := hdeclared.targets name target (mem_targetsOf.mp htarget)
    rw [hnames]
    simp only [importIntake, href, Option.getD_some]
  · intro name target htarget
    obtain ⟨ref, href⟩ := hdeclared.targets name target (mem_targetsOf.mp htarget)
    rw [hbindings]
    simp only [importIntake, href, Option.getD_some]
    exact hdeclared.valid.lt href
  · intro object hobject
    obtain ⟨ref, href, -⟩ := hdeclared.objects object hobject
    rw [hnames]
    simp only [importIntake, href, Option.getD_some]
  · intro object hobject
    obtain ⟨ref, href, hlt⟩ := hdeclared.objects object hobject
    rw [hrenewed.spaceCount]
    simpa only [importIntake, href, Option.getD_some] using hlt

end Registration

/-! ### The whole way -/

/-- The pieces of a statement in a method. -/
def MethodStatement.pieces : MethodStatement → List Piece
  | assign target value => [.outer target, .mark "=" isPunctuation_equals, .parameter value]
  | announce reference target value =>
    callPieces reference "runSetters" [[.outer target, .mark "=" isPunctuation_equals, .parameter value]]
  | put object name value => memberPieces (.outer object) name value

/-- The pieces of a method under its key. -/
def Method.pieces (method : Method) : List Piece :=
  callbackPieces method.key method.parameters
    (separated ";" (method.body.map MethodStatement.pieces) isPunctuation_semicolon)

/-- The statement that requests a module with some methods, or with nothing. -/
def importPieces (reference specifier : String) (methods : List Method) (offset : Nat)
    (objects : List String) : List Piece :=
  (if methods.isEmpty then callPieces reference "importSync" [[.literal specifier]]
    else keyedPieces reference specifier (methods.map Method.pieces) offset (objects.map .outer)) ++
      [.mark ";" isPunctuation_semicolon]

/-- The token that is read as a key. -/
def keyToken (key : String) : Token :=
  if isPlainIdentifier key.toList then .word key false else .string ⟨key, true⟩

/-- Each variable of a declaration holds what was delivered last under its imported name, and each
object has every name with what was delivered last under it. Where nothing was delivered, they are as
they were before. -/
structure Filled (declaration : Node) (intake : Intake) (before : World)
    (given : List (String × Value)) (after : World) : Prop where
  targets : ∀ name target, Imports declaration name target →
    after.binding (intake.binding target) =
      (lastUnder name given).or (before.binding (intake.binding target))
  objects : ∀ object, ImportsAll declaration object → ∀ name,
    after.member? (intake.space object) name =
      (lastUnder name given).or (before.member? (intake.space object) name)

/-- Whatever is delivered to the batch of an import, from the world on in which it was registered, fills
what the declaration imports, and the next delivery ends well. -/
def IsFilled (declaration : Node) (intake : Intake) (enrolled : World) : Prop :=
  ∀ depth safe, intake.Sheltered (runner depth) safe → safe enrolled → ∀ given after,
    intake.Supply (runner (depth + 1)) safe enrolled given after →
      Filled declaration intake enrolled given after ∧ ∀ name value, ∃ next,
        (deliver (runner (depth + 1)) intake.batch name value).outcome after = (.ok (), next)

/-- The world after a registration at an entry. -/
def registered (registration : Registration) (entry : EntryRef) (module : ModuleRef) (world : World) :
    World :=
  world.addConsumers entry module (registration.consumers.getD .empty) registration.key
    registration.spaces

/-- A statement in one of the methods of a declaration: it assigns a variable that takes the value
of the method's key, which it announces exactly if the variable is exported, or it fills an object.
-/
inductive Serves (subject : Subject) (program declaration : Node) (key : String) :
    MethodStatement → Prop
  | assign {target : String} (value : String) (himports : Imports declaration key target)
      (hexported : target ∉ exportedVariables subject program) :
      Serves subject program declaration key (.assign target value)
  | announce {target : String} (value : String) (himports : Imports declaration key target)
      (hexported : target ∈ exportedVariables subject program) :
      Serves subject program declaration key (.announce subject.reference target value)
  | put {object : String} (name value : String) (himports : ImportsAll declaration object)
      (hkey : key = everyName) : Serves subject program declaration key (.put object name value)

/-- What becomes of an import of a program. -/
structure ImportServed (subject : Subject) (program declaration : Node) (specifier : String)
    (methods : List Method) : Prop where
  /-- The code that is put ahead of the program holds a statement that requests the module with the
  methods. -/
  written : ∃ edits before after, loweringEdits subject program =
    edits ++ [hoistingEdit subject.source program (before ++
      (textOf (importPieces subject.reference specifier methods declaration.span.start
        (importedObjects declaration)) ++ after))]
  /-- The text of a method begins with its key. -/
  keys : ∀ method ∈ methods, ∀ rest offset, ∃ next,
    readToken ⟨textOf method.pieces ++ rest, offset⟩ = (keyToken method.key, next) ∧
      next.rest.head? = some '('
  /-- A method does nothing but serve the declaration. -/
  serves : ∀ method ∈ methods, ∀ statement ∈ method.body,
    Serves subject program declaration method.key statement
  /-- Each variable has a statement under its imported name, and each object one for all names. -/
  covers : (∀ name target, Imports declaration name target →
      ∃ method ∈ methods, method.key = name ∧ ∃ value,
        .assign target value ∈ method.body ∨ .announce subject.reference target value ∈ method.body) ∧
    ∀ object, ImportsAll declaration object →
      ∃ method ∈ methods, method.key = everyName ∧ ∃ name value, .put object name value ∈ method.body
  /-- The exported variables are those that a declaration anywhere in the program exports; what is
  exported in a namespace, but for a default, is exported from the namespace. -/
  exported : ∀ target, target ∈ exportedVariables subject program ↔
    ∃ statement inside name, Stands statement false inside program ∧
      (inside = true → statement.form = .exportDefault) ∧ Exports subject statement ⟨name, target⟩
  /-- Where no name is imported from the mark of every name and no variable takes two names, the methods
  are consumers for which a batch can be registered, and whatever is delivered to it ends well and
  fills the declaration's variables and objects. -/
  served : (∀ target, ¬ Imports declaration everyName target) →
    (∀ name name' target, Imports declaration name target → Imports declaration name' target →
      name = name') →
    ∃ rows, List.Forall₂ (fun (method : Method) row => method.row? = some row) methods rows ∧
      ∀ world, Declared (importedNames declaration) (importedObjects declaration) world →
        ∀ scope, ∃ registration, ((importSubscription rows declaration.span.start
            (importedObjects declaration)).evaluate scope).outcome world = (.ok registration, world) ∧
          ∀ entry module, IsFilled declaration
            (importIntake (exportedVariables subject program) (importedNames declaration)
              (importedObjects declaration) scope world)
            (registered registration entry module world)

/-- The text of a method begins with its key. -/
theorem readToken_pieces (method : Method) (rest : List Char) (offset : Nat) : ∃ next,
    readToken ⟨textOf method.pieces ++ rest, offset⟩ = (keyToken method.key, next) ∧
      next.rest.head? = some '(' := by
  obtain ⟨behind, htext⟩ : ∃ behind, textOf method.pieces ++ rest =
      Text.propertyKey method.key.toList ++ '(' :: behind := by
    simp only [Method.pieces, callbackPieces, textOf_cons, Piece.text_key, List.append_assoc]
    exact ⟨_, rfl⟩
  obtain ⟨stop, hread⟩ := readToken_propertyKey method.key.toList behind offset
  rw [String.ofList_toList] at hread
  exact ⟨⟨'(' :: behind, stop⟩, htext ▸ hread, rfl⟩

/-- An import has no methods exactly if it imports nothing. -/
theorem isEmpty_importMethods (scheme : Scheme) (names : List (String × String))
    (objects : List String) :
    (importMethods scheme names objects).isEmpty = (names.isEmpty && objects.isEmpty) := by
  have hgroups : (groupByFirst names).isEmpty = names.isEmpty := by
    cases names with
    | nil => rfl
    | cons pair rest =>
      have htarget : pair.2 ∈ targetsOf (pair :: rest) pair.1 := mem_targetsOf.mpr List.mem_cons_self
      have hgroup := ((groupsOf_groupByFirst (pair :: rest)).mem pair.1 _).mpr
        ⟨rfl, List.ne_nil_of_mem htarget⟩
      rw [List.isEmpty_cons, List.isEmpty_eq_false_iff]
      exact List.ne_nil_of_mem hgroup
  unfold importMethods
  dsimp only
  rw [← hgroups]
  cases groupByFirst names <;> cases objects <;> rfl

theorem pieces_assignment (scheme : Scheme) (value target : String) :
    (assignment scheme value target).pieces = assignmentPieces scheme value target := by
  unfold assignment assignmentPieces
  dsimp only
  split <;> rfl

/-- The statement that is generated for an import is written with its methods. -/
theorem requestPieces_bindings (scheme : Scheme) (specifier : String) (offset : Nat)
    (names : List (String × String)) (objects : List String) :
    requestPieces scheme ⟨offset, specifier, .bindings names objects⟩ =
      importPieces scheme.reference specifier (importMethods scheme names objects) offset objects := by
  have hbody (value : String) : MethodStatement.pieces ∘ assignment scheme value =
      assignmentPieces scheme value :=
    funext (pieces_assignment scheme value)
  unfold requestPieces importPieces
  rw [isEmpty_importMethods]
  dsimp only
  unfold bindingsPieces importMethods
  dsimp only
  rw [List.map_append, List.map_map]
  congr 4
  · refine List.map_congr_left fun group _ => ?_
    simp only [Function.comp_apply, Method.pieces, List.map_map, hbody]
  · split
    · rfl
    · simp only [List.map_singleton, Method.pieces, List.map_map]
      rfl

theorem serves_importMethods {program : Node} {method : Method}
    (hmethod : method ∈ importMethods ⟨subject.reference, exportedVariables subject program⟩
      (importedNames declaration) (importedObjects declaration)) {statement : MethodStatement}
    (hstatement : statement ∈ method.body) :
    Serves subject program declaration method.key statement := by
  rcases List.mem_append.mp hmethod with hmethod | hmethod
  · obtain ⟨⟨imported, targets⟩, hgroup, rfl⟩ := List.mem_map.mp hmethod
    obtain ⟨target, htarget, rfl⟩ := List.mem_map.mp hstatement
    rw [(((groupsOf_groupByFirst _).mem imported targets).mp hgroup).1] at htarget
    have himports := mem_importedNames_iff.mp (mem_targetsOf.mp htarget)
    by_cases hexported : (exportedVariables subject program).contains target = true
    · rw [assignment, if_pos hexported]
      exact .announce _ himports (List.contains_iff_mem.mp hexported)
    · rw [assignment, if_neg hexported]
      exact .assign _ himports fun h => hexported (List.contains_iff_mem.mpr h)
  · split at hmethod
    · cases hmethod
    · obtain rfl := List.mem_singleton.mp hmethod
      obtain ⟨object, hobject, rfl⟩ := List.mem_map.mp hstatement
      exact .put _ _ (mem_importedObjects_iff.mp hobject) rfl

theorem covers_importMethods {program : Node} {name target : String}
    (himports : Imports declaration name target) :
    ∃ method ∈ importMethods ⟨subject.reference, exportedVariables subject program⟩
        (importedNames declaration) (importedObjects declaration),
      method.key = name ∧ ∃ value, .assign target value ∈ method.body ∨
        .announce subject.reference target value ∈ method.body := by
  have htarget := mem_targetsOf.mpr (mem_importedNames_iff.mpr himports)
  have hgroup := ((groupsOf_groupByFirst (importedNames declaration)).mem name _).mpr
    ⟨rfl, List.ne_nil_of_mem htarget⟩
  unfold importMethods
  refine ⟨_, List.mem_append_left _ (List.mem_map_of_mem hgroup), rfl, ?_⟩
  by_cases hexported : (exportedVariables subject program).contains target = true
  · exact ⟨_, .inr (List.mem_map.mpr ⟨target, htarget, if_pos hexported⟩)⟩
  · exact ⟨_, .inl (List.mem_map.mpr ⟨target, htarget, if_neg hexported⟩)⟩

theorem covers_objects (scheme : Scheme) {object : String} (himports : ImportsAll declaration object) :
    ∃ method ∈ importMethods scheme (importedNames declaration) (importedObjects declaration),
      method.key = everyName ∧ ∃ name value, .put object name value ∈ method.body := by
  have hobject := mem_importedObjects_iff.mpr himports
  have hsome : ¬ (importedObjects declaration).isEmpty = true := by
    rw [List.isEmpty_iff]
    exact List.ne_nil_of_mem hobject
  unfold importMethods
  dsimp only
  rw [if_neg hsome]
  exact ⟨_, List.mem_append_right _ (List.mem_singleton_self _), rfl, _, _,
    List.mem_map_of_mem hobject⟩

/-- What is put ahead of a program holds the statement of each of its requests. -/
theorem exists_loweringEdits_request {program : Node} {request : Request}
    (hrequest : request ∈ programRequests subject program) :
    ∃ edits before after, loweringEdits subject program =
      edits ++ [hoistingEdit subject.source program (before ++
        (textOf (requestPieces ⟨subject.reference, exportedVariables subject program⟩ request) ++
          after))] := by
  rw [textOf_requestPieces]
  have hordered := (List.mergeSort_perm (programRequests subject program)
    fun first second => first.offset ≤ second.offset).mem_iff.mpr hrequest
  obtain ⟨left, right, hsplit⟩ := List.append_of_mem hordered
  obtain ⟨before, after, hcode⟩ : ∃ before after, generatedCode subject program = before ++
      (requestStatement ⟨subject.reference, exportedVariables subject program⟩ request ++ after) := by
    rw [generatedCode_eq, requestCode, inSourceOrder, hsplit, List.flatMap_append, List.flatMap_cons]
    simp only [← List.append_assoc]
    exact ⟨_, _, rfl⟩
  have hne : generatedCode subject program ≠ [] := by
    rw [hcode, requestStatement]
    simp
  obtain ⟨edits, -, hedits⟩ := exists_loweringEdits_generated subject program
  rw [if_neg (by simpa using hne), hcode] at hedits
  exact ⟨edits, before, after, hedits⟩

/-- The request of an import that requests a module. -/
theorem importRequest?_of_requested? (hform : declaration.form = .importDeclaration false)
    {specifier : String} (hrequested : requested? declaration = some specifier) :
    importRequest? declaration = some ⟨declaration.span.start, specifier,
      .bindings (importedNames declaration) (importedObjects declaration)⟩ := by
  unfold requested? at hrequested
  rw [hform] at hrequested
  dsimp only at hrequested
  split at hrequested
  · next hvalues =>
    unfold importsValues at hvalues
    unfold importRequest?
    dsimp only
    rw [Bool.not_eq_true'] at hvalues
    rw [hvalues, if_neg Bool.false_ne_true, hrequested]
    rfl
  · cases hrequested

/-- Where no name is imported from the mark of every name and no variable takes two names, what is
delivered to the batch of an import fills what the declaration imports. -/
theorem isFilled_importIntake {exported : List String} {scope : Scope} {world : World}
    (hdeclared : Declared (importedNames declaration) (importedObjects declaration) world)
    (hwildcard : ∀ target, ¬ Imports declaration everyName target)
    (hsingle : ∀ name name' target, Imports declaration name target →
      Imports declaration name' target → name = name') (entry : EntryRef) (module : ModuleRef)
    (key : Option String) :
    IsFilled declaration
      (importIntake exported (importedNames declaration) (importedObjects declaration) scope world)
      (world.addConsumers entry module
        (Table.ofList (callbacks scope (importPrograms exported (importedNames declaration)
          (importedObjects declaration)))) key
        ((importedObjects declaration).map fun object =>
          (world.names.spaces.get? object).getD default)) := by
  intro depth safe hsheltered hsafe given after hsupply
  have hnone (target : String) : (everyName, target) ∉ importedNames declaration :=
    fun h => hwildcard target (mem_importedNames_iff.mp h)
  have hapart : (importIntake exported (importedNames declaration) (importedObjects declaration) scope
      world).Apart :=
    apart_importIntake hdeclared hnone fun name name' target h h' =>
      hsingle name name' target (mem_importedNames_iff.mp h) (mem_importedNames_iff.mp h')
  have hrenewed := world.renewed_addConsumers entry module (Table.ofList (callbacks scope
    (importPrograms exported (importedNames declaration) (importedObjects declaration)))) key
    ((importedObjects declaration).map fun object => (world.names.spaces.get? object).getD default)
  obtain ⟨⟨-, hsupplied⟩, hnext⟩ := Intake.supplied_of_supply hapart hsheltered
    (linked_addConsumers hdeclared hnone entry module key) hsafe (congrArg Batch.seen hrenewed.added)
    hsupply
  refine ⟨⟨fun name target himports => ?_, fun object himports => ?_⟩, hnext⟩
  · exact hsupplied.binding name target (mem_targetsOf.mpr (mem_importedNames_iff.mpr himports))
  · exact hsupplied.member object (mem_importedObjects_iff.mpr himports)

/-- Deliveries one after the other fill what a declaration imports. -/
theorem IsFilled.exists_supply {intake : Intake} {enrolled : World}
    (h : IsFilled declaration intake enrolled) {depth : Nat} {safe : World → Prop}
    (hsheltered : intake.Sheltered (runner depth) safe) (hsafe : safe enrolled)
    (given : List (String × Value)) : ∃ after,
      intake.Supply (runner (depth + 1)) safe enrolled given after ∧
        Filled declaration intake enrolled given after := by
  have hsupply : ∃ after, intake.Supply (runner (depth + 1)) safe enrolled given after := by
    induction given using List.reverseRecOn with
    | nil => exact ⟨enrolled, .start⟩
    | append_singleton given row ih =>
      obtain ⟨after, hsupply⟩ := ih
      obtain ⟨next, houtcome⟩ := (h depth safe hsheltered hsafe given after hsupply).2 row.1 row.2
      exact ⟨next, .delivered row.1 row.2 hsupply houtcome⟩
  obtain ⟨after, hsupply⟩ := hsupply
  exact ⟨after, hsupply, (h depth safe hsheltered hsafe given after hsupply).1⟩

/-- **Imports.** For each import in a program the generated code requests the other module, with methods
under the imported names. Whatever is delivered to the batch that is registered for the methods, each
variable holds what was delivered last under its imported name, and each object has everything that
was delivered. A variable is announced where it is assigned exactly if it is exported. -/
theorem served_program (subject : Subject) {program : Node} {inside : Bool}
    (hstands : Stands declaration false inside program)
    (hform : declaration.form = .importDeclaration false) {specifier : String}
    (hrequested : requested? declaration = some specifier) :
    ∃ methods, ImportServed subject program declaration specifier methods := by
  have hrequest : _ ∈ programRequests subject program :=
    mem_programRequests hstands hform (importRequest?_of_requested? hform hrequested)
  have hrows := forall₂_importMethods
    ⟨subject.reference, exportedVariables subject program⟩ (importedNames declaration)
    (importedObjects declaration)
  refine ⟨importMethods ⟨subject.reference, exportedVariables subject program⟩
    (importedNames declaration) (importedObjects declaration), ?_⟩
  constructor
  · obtain ⟨edits, before, after, hedits⟩ := exists_loweringEdits_request hrequest
    rw [requestPieces_bindings] at hedits
    exact ⟨edits, before, after, hedits⟩
  · exact fun method _ => readToken_pieces method
  · exact fun method hmethod statement => serves_importMethods hmethod
  · exact ⟨fun _ _ himports => covers_importMethods himports,
      fun _ himports => covers_objects _ himports⟩
  · exact fun target => mem_exportedVariables_iff
  · intro hwildcard hsingle
    refine ⟨_, List.forall₂_map_right_iff.mpr hrows, fun world hdeclared scope =>
      ⟨_, outcome_evaluate_importSubscription hdeclared _ _, fun entry module => ?_⟩⟩
    exact isFilled_importIntake hdeclared hwildcard hsingle entry module _

/-! ### Examples -/

/-- Whether a node is an import that may import values. -/
def importsModule (node : Node) : Bool :=
  match node.form with
  | .importDeclaration false => true
  | _ => false

theorem form_of_importsModule {node : Node} (h : importsModule node = true) :
    node.form = .importDeclaration false := by
  unfold importsModule at h
  split at h
  · assumption
  · cases h

/-- A module that imports three names into four variables, and exports one of these. -/
def severalImports : List Char :=
  "import d, \x7ba, 'b c' as b, a as e\x7d from 'm'; export {a};".toList

/-- The names that it imports, with their variables. -/
def severalNames : List (String × String) :=
  [("default", "d"), ("a", "a"), ("b c", "b"), ("a", "e")]

/-- The world in which the variables are there, and two modules of which the first exports one. -/
def severalWorld : World :=
  (World.ofHost default).afterwards 2
    ((["d", "a", "b", "e"].map fun name => (Command.createBinding name none).line) ++
      [(Command.createModule "app" "app" true).line,
        (Command.provide (some "app") [(.fixed "a", .binding "a")] false).line,
        (Command.createModule "m" "m" true).line,
        (Command.provide (some "m") [(.fixed "a", .value (.text "value"))] true).line])

/-- The import of the module above, when it is registered in that world. -/
def severalIntake : Intake :=
  importIntake ["a"] severalNames [] { current := some "app" } severalWorld

theorem declared_severalWorld : Declared severalNames [] severalWorld where
  valid := namesValid_of_rows (by decide +kernel) (by decide +kernel)
  targets name target hmem := by
    have hnamed : ∀ row ∈ severalNames, (severalWorld.names.bindings.get? row.2).isSome = true := by
      decide +kernel
    exact Option.isSome_iff_exists.mp (hnamed _ hmem)
  objects _ h := absurd h List.not_mem_nil

theorem unimported_severalWorld : Intake.Unimported "app" ⟨0⟩ severalWorld where
  placed := ⟨⟨0⟩, by decide +kernel, by decide +kernel⟩
  batches := by decide +kernel
  plain := by
    have hall : ((severalWorld.entry ⟨0⟩).slots.rows.all fun row =>
        (severalWorld.provider row.2.provider).source.isPlain) = true := by
      decide +kernel
    exact List.all_eq_true.mp hall
  isModule := by decide +kernel

/-- The module is read as a program with the import, and whatever the other module delivers, its
variables are filled. -/
theorem served_severalImports : ∃ program declaration methods,
    parse ⟨false, false, true⟩ severalImports = .ok program ∧ Stands declaration false false program ∧
      importedNames declaration = severalNames ∧
      ImportServed ⟨severalImports, "module"⟩ program declaration "m" methods ∧
      ∃ registration, ∀ given, ∃ after,
        severalIntake.Supply (runner 2) (Intake.Unimported "app" ⟨0⟩)
            (registered registration ⟨1⟩ ⟨0⟩ severalWorld) given after ∧
          Filled declaration severalIntake (registered registration ⟨1⟩ ⟨0⟩ severalWorld) given
            after := by
  have hprogram : ((parse ⟨false, false, true⟩ severalImports).toOption.any fun program =>
      decide (exportedVariables ⟨severalImports, "module"⟩ program = ["a"]) &&
        program.parts.any fun declaration =>
          importsModule declaration &&
            (decide (requested? declaration = some "m") &&
              (decide (importedNames declaration = severalNames) &&
                decide (importedObjects declaration = [])))) = true := by
    decide +kernel
  obtain ⟨program, hparse, hall⟩ := exists_of_any hprogram
  simp only [Bool.and_eq_true, decide_eq_true_eq, List.any_eq_true] at hall
  obtain ⟨hexported, declaration, hmem, hform, hrequested, hnames, hobjects⟩ := hall
  have hnone : ∀ row ∈ severalNames, row.1 ≠ everyName := by
    decide
  have hsingle : ∀ row ∈ severalNames, ∀ other ∈ severalNames, row.2 = other.2 → row.1 = other.1 := by
    decide
  have hstands := stands_of_mem_parts (isSound_of_parse hparse).1 hmem
  obtain ⟨methods, hserved⟩ :=
    served_program ⟨severalImports, "module"⟩ hstands (form_of_importsModule hform) hrequested
  have himported {name target : String} (h : Imports declaration name target) :
      (name, target) ∈ severalNames :=
    hnames ▸ mem_importedNames_iff.mpr h
  obtain ⟨rows, -, hregistered⟩ := hserved.served (fun _ h => hnone _ (himported h) rfl)
    fun _ _ _ h h' => hsingle _ (himported h) _ (himported h') rfl
  rw [hexported, hnames, hobjects] at hregistered
  obtain ⟨registration, -, hfilled⟩ := hregistered severalWorld declared_severalWorld
    { current := some "app" }
  refine ⟨program, declaration, methods, hparse, hstands, hnames, hserved, registration,
    fun given => ?_⟩
  refine (hfilled ⟨1⟩ ⟨0⟩).exists_supply (Intake.Unimported.sheltered rfl rfl 1) ?_ given
  exact unimported_severalWorld.renewed (by decide) (severalWorld.renewed_addConsumers ⟨1⟩ ⟨0⟩ _ _ _)

/-- A module that imports a name that is the mark of every name, and another one. -/
def wildcardImport : List Char :=
  "import \x7b\"*\" as s, a\x7d from \"m\";".toList

/-- A host with one module, which exports a text under the other name. -/
def exportingText : Host where
  bodies := Table.ofList [("m", [(Command.provide none [(.fixed "a", .value (.text "value"))] true).line])]
  aliases := .empty
  failures := .empty

/-- The world after an import from that module into two variables. -/
def importedWith (rows : List (NameTerm × ConsumerTerm)) : World :=
  (World.ofHost exportingText).afterwards 4
    [(Command.createModule "app" "app" true).line, (Command.createBinding "s" none).line,
      (Command.createBinding "a" none).line,
      (Command.importNow (some "app") "m" (importSubscription rows 0 [])).line]

/-- The import passes a method under the mark of every name, and so the variable for this name holds the
text, although the other module exports nothing under it. -/
theorem wildcardName_gathers :
    compile { sourceGoal := .module } wildcardImport = .ok ⟨("let s,a;module.importSync(\"m\"," ++
      "\x7b\"*\"(v)\x7bs=v\x7d,a(v)\x7ba=v\x7d\x7d,0);").toList, .module⟩ ∧
    ∃ rows, (importMethods ⟨"module", []⟩ [(everyName, "s"), ("a", "a")] []).mapM Method.row? =
        some rows ∧
      ((importedWith rows).entry ⟨0⟩).slots.rows.map Prod.fst = ["a"] ∧
      (importedWith rows).names.bindings.get? "s" = some ⟨0⟩ ∧
      (importedWith rows).binding ⟨0⟩ = some (.text "value") := by
  constructor
  · unfold compile compileText lowerModule
    simp only [EditList.render_recordAll_ofSource]
    decide +kernel
  · refine ⟨_, rfl, by decide +kernel, by decide +kernel, ?_⟩
    exact Outlet.eq_some_of_same (by decide +kernel)

end ModuleLinkage.Lowering
