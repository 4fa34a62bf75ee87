import ModuleLinkage.Proofs.Ledger.Replacement.Writing

/-!
# What imports take in

A linked import is a batch whose consumers are callbacks (`Intake`): under each imported name one that
puts the received value into variables, and shows the exports of its module after each of these that
is exported; and under the mark of every name one that puts each value into objects. What the variables
and objects hold after any number of deliveries is what was delivered last under the right name
(`Intake.supplied_of_supply`), although a callback is passed over where it was told the same before.

Between two deliveries, and where a callback shows the exports of its module, other consumers run. What
is asked of them (`Intake.Sheltered`) is that they end well and leave alone what the import fills and
its batch.
-/

set_option autoImplicit false

namespace ModuleLinkage.Ledger

/-- The value that was given last under a name. -/
def lastUnder (name : String) (values : List (String × Value)) : Option Value :=
  (values.reverse.find? fun row => row.1 == name).map (·.2)

theorem lastUnder_concat (name other : String) (value : Value) (values : List (String × Value)) :
    lastUnder other (values ++ [(name, value)]) =
      if name = other then some value else lastUnder other values := by
  by_cases hname : name = other
  · simp [lastUnder, hname]
  · simp [lastUnder, hname]

/-- Writing a value through gives nothing a name. -/
theorem World.names_writeThrough (world : World) (batch : BatchRef) (name : String) (value : Value) :
    (world.writeThrough batch name value).names = world.names := by
  have hfold (spaces : List NamespaceRef) (start : World) :
      (spaces.foldl (fun world space => world.setMember space name value) start).names =
        start.names := by
    induction spaces generalizing start with
    | nil => rfl
    | cons space rest ih => exact ih (start.setMember space name value)
  rcases world.writeThrough_cases batch name value with ⟨_, h⟩ | h <;> rw [h]
  exact hfold _ world

/-! ### Linked imports -/

/-- Puts a received value into a variable, and shows the exports of the module if that is exported. -/
def feedLines (exported : List String) (target : String) : Program :=
  (Command.setBinding target .receivedValue).line ::
    if exported.contains target then [(Command.propagate none .receivedValue).line] else []

/-- Puts a received value into an object, under the name that comes with it. -/
def memberLine (object : String) : Line :=
  (Command.setMember (.named object) .received .receivedValue).line

/-- An import: its batch, where its callbacks run, the variables that it fills by imported name, the
variables of its module that are exported, the objects that it fills, and what these names stand for. -/
structure Intake where
  batch : BatchRef
  scope : Scope
  targets : String → List String
  exported : List String
  objects : List String
  binding : String → BindingRef
  space : String → NamespaceRef

namespace Intake

variable (intake : Intake)

/-- The cells that the import fills. -/
def Fills : Cell → Prop
  | .binding ref => ∃ name, ∃ target ∈ intake.targets name, ref = intake.binding target
  | .member space _ => ∃ object ∈ intake.objects, space = intake.space object

/-- The callback for the values of one name. -/
def feed (name : String) : Consumer :=
  .callback none ((intake.targets name).flatMap (feedLines intake.exported)) intake.scope

/-- The callback for all values. -/
def gather : Consumer :=
  .callback none (intake.objects.map memberLine) intake.scope

/-- Different imported names have different variables, and the mark of every name is not imported as if
it were a name. -/
structure Apart : Prop where
  noWildcard : intake.targets everyName = []
  binding : ∀ {name name' target target'}, target ∈ intake.targets name →
    target' ∈ intake.targets name' → intake.binding target = intake.binding target' → name = name'

/-- The import's batch is there, and its names stand for what they should. -/
structure Linked (world : World) : Prop where
  active : (world.batch intake.batch).isActive = true
  feeds : ∀ name, name ≠ everyName → (world.batch intake.batch).consumers.get? name =
    if intake.targets name = [] then none else some (intake.feed name)
  gathers : (world.batch intake.batch).consumers.get? everyName =
    if intake.objects = [] then none else some intake.gather
  spaces : (world.batch intake.batch).spaces = intake.objects.map intake.space
  bindingNamed : ∀ name, ∀ target ∈ intake.targets name,
    world.names.bindings.get? target = some (intake.binding target)
  bindingLt : ∀ name, ∀ target ∈ intake.targets name,
    (intake.binding target).index < world.bindings.size
  spaceNamed : ∀ object ∈ intake.objects,
    world.names.spaces.get? object = some (intake.space object)
  spaceLt : ∀ object ∈ intake.objects, (intake.space object).index < world.spaces.size

/-- Of what the import has to do with, some cells were written, in the order of the log. -/
structure Moved (log : List Cell.Write) (before after : World) : Prop where
  cell : ∀ cell, intake.Fills cell → after.cell cell = (cell.latest? log).or (before.cell cell)
  batch : after.batch intake.batch = before.batch intake.batch
  bindingNamed : ∀ name, ∀ target ∈ intake.targets name, ∀ ref,
    before.names.bindings.get? target = some ref → after.names.bindings.get? target = some ref
  bindingCount : before.bindings.size ≤ after.bindings.size
  spaceNamed : ∀ object ∈ intake.objects, ∀ ref,
    before.names.spaces.get? object = some ref → after.names.spaces.get? object = some ref
  spaceCount : before.spaces.size ≤ after.spaces.size

/-- While `safe` holds, showing the exports of the import's module, if one of its variables is among
these, ends well and leaves alone what the import has to do with. Whether `safe` holds depends on what
is registered, and it goes on to hold. -/
structure Sheltered (run : Runner) (safe : World → Prop) : Prop where
  kept : ∀ {first second : World}, first.Keeps second → safe first → safe second
  shown : (∃ name, ∃ target ∈ intake.targets name, intake.exported.contains target = true) →
    ∀ (world : World) (received : Value × String), safe world → intake.Linked world →
    (perform run { intake.scope with received := some received }
      (.propagate none .receivedValue)).Meets world
        (fun _ after => safe after ∧ intake.Moved [] world after) fun _ => False

variable {intake} {first second third world : World} {log log' : List Cell.Write}

namespace Moved

theorem refl (world : World) : intake.Moved [] world world where
  cell _ _ := rfl
  batch := rfl
  bindingNamed _ _ _ _ := id
  bindingCount := Nat.le_refl _
  spaceNamed _ _ _ := id
  spaceCount := Nat.le_refl _

theorem trans (h : intake.Moved log first second) (h' : intake.Moved log' second third) :
    intake.Moved (log ++ log') first third where
  cell cell hfills := by
    rw [h'.cell cell hfills, h.cell cell hfills, Cell.latest?_append, Option.or_assoc]
  batch := h'.batch.trans h.batch
  bindingNamed name target htarget ref hnamed :=
    h'.bindingNamed name target htarget ref (h.bindingNamed name target htarget ref hnamed)
  bindingCount := Nat.le_trans h.bindingCount h'.bindingCount
  spaceNamed object hobject ref hnamed :=
    h'.spaceNamed object hobject ref (h.spaceNamed object hobject ref hnamed)
  spaceCount := Nat.le_trans h.spaceCount h'.spaceCount

theorem addEvent (world : World) (event : Event) : intake.Moved [] world (world.addEvent event) where
  __ := refl world
  cell cell _ := by cases cell <;> rfl

theorem setBinding {ref : BindingRef} (hlt : ref.index < world.bindings.size) (value : Value) :
    intake.Moved [(.binding ref, value)] world (world.setBinding ref value) where
  __ := refl world
  cell cell _ := (world.wrote_setBinding hlt value).cell cell
  batch := rfl
  bindingCount := Nat.le_of_eq (Store.size_update ..).symm

theorem setMember {ref : NamespaceRef} (hlt : ref.index < world.spaces.size) (name : String)
    (value : Value) :
    intake.Moved [(.member ref name, value)] world (world.setMember ref name value) where
  __ := refl world
  cell cell _ := by
    have hwrites : World.memberWrites world.spaces.size [ref] name value =
        [(.member ref name, value)] := by
      simp [World.memberWrites, hlt]
    rw [← hwrites]
    exact (world.wrote_setMember ref name value).cell cell
  batch := rfl
  spaceCount := Nat.le_of_eq (Store.size_update ..).symm

end Moved

/-- An import stays linked where its batch and the names that it uses are left alone. -/
theorem Linked.congr (h : intake.Linked first)
    (hbatch : (second.batch intake.batch).registered = (first.batch intake.batch).registered)
    (hbindingNamed : ∀ name, ∀ target ∈ intake.targets name, ∀ ref,
      first.names.bindings.get? target = some ref → second.names.bindings.get? target = some ref)
    (hbindingCount : first.bindings.size ≤ second.bindings.size)
    (hspaceNamed : ∀ object ∈ intake.objects, ∀ ref,
      first.names.spaces.get? object = some ref → second.names.spaces.get? object = some ref)
    (hspaceCount : first.spaces.size ≤ second.spaces.size) : intake.Linked second := by
  simp only [Batch.registered, Prod.mk.injEq] at hbatch
  obtain ⟨-, -, hconsumers, hspaces, hactive⟩ := hbatch
  exact
    { active := hactive ▸ h.active
      feeds := fun name hname => hconsumers ▸ h.feeds name hname
      gathers := hconsumers ▸ h.gathers
      spaces := hspaces.trans h.spaces
      bindingNamed := fun name target htarget =>
        hbindingNamed name target htarget _ (h.bindingNamed name target htarget)
      bindingLt := fun name target htarget =>
        Nat.lt_of_lt_of_le (h.bindingLt name target htarget) hbindingCount
      spaceNamed := fun object hobject =>
        hspaceNamed object hobject _ (h.spaceNamed object hobject)
      spaceLt := fun object hobject =>
        Nat.lt_of_lt_of_le (h.spaceLt object hobject) hspaceCount }

theorem Linked.moved (h : intake.Linked first) (hmoved : intake.Moved log first second) :
    intake.Linked second :=
  h.congr (congrArg Batch.registered hmoved.batch) hmoved.bindingNamed hmoved.bindingCount
    hmoved.spaceNamed hmoved.spaceCount

/-! ### Modules that nobody imports -/

/-- A round over an entry without batches asks the providers and tells nobody. -/
theorem meets_propagate_of_no_batches {run : Runner} {allowed : Fault → Prop} {entry : EntryRef}
    (hbatches : (world.entry entry).batches = [])
    (hplain : ∀ row ∈ (world.entry entry).slots.rows,
      (world.provider row.2.provider).source.isPlain = true)
    (hslots : world.exportsItself entry = false) :
    (propagate run entry).Meets world (fun _ after =>
      ∃ values, world.Refreshed (world.entry entry).space values after) allowed := by
  simp only [propagate, Effect.meets_bind, Effect.meets_get, Effect.meets_holding]
  refine meets_refresh hplain hslots fun asked hasked _ => ?_
  rw [hasked.batches, hbatches]
  refine (Effect.meets_pure _).mpr ⟨world.roundValues (world.entry entry).slots.rows, ?_⟩
  exact (hasked.alike_right (World.alike_held _ _)).alike_right (World.alike_held _ _)

/-- A module with plain providers at its entry that nobody imports. -/
structure Unimported (id : String) (entry : EntryRef) (world : World) : Prop where
  placed : ∃ module, world.names.modules.get? id = some module ∧
    (world.space (world.module module).exports).entry = some entry
  batches : (world.entry entry).batches = []
  plain : ∀ row ∈ (world.entry entry).slots.rows,
    (world.provider row.2.provider).source.isPlain = true
  isModule : (world.space (world.entry entry).space).isModule = true

namespace Unimported

variable {id : String} {entry : EntryRef}

theorem keeps (h : Unimported id entry first) (hkeeps : first.Keeps second) :
    Unimported id entry second where
  placed := by
    obtain ⟨module, hmodule, hentry⟩ := h.placed
    exact ⟨module, hkeeps.moduleNames ▸ hmodule, by rw [hkeeps.module, hkeeps.entryOf, hentry]⟩
  batches := (hkeeps.batches entry).trans h.batches
  plain row hrow := by
    have hmem : (row.1, row.2.provider, row.2.isConstant) ∈ (first.entry entry).exported :=
      hkeeps.exported entry ▸ List.mem_map_of_mem hrow
    obtain ⟨other, hother, heq⟩ := List.mem_map.mp hmem
    have hprovider : other.2.provider = row.2.provider := (Prod.mk.inj (Prod.mk.inj heq).2).1
    rw [hkeeps.source, ← hprovider]
    exact h.plain other hother
  isModule := by rw [hkeeps.spaceOf, hkeeps.isModule, h.isModule]

/-- Subscribing to another entry makes no difference. -/
theorem renewed (h : Unimported id entry first) {other : EntryRef} (hother : entry ≠ other)
    {replaced : List BatchRef} {batch : Batch} (hrenewed : first.Renewed other replaced batch second) :
    Unimported id entry second where
  placed := by
    obtain ⟨module, hmodule, hentry⟩ := h.placed
    have hnames : second.names = first.names :=
      (congrArg World.names hrenewed.rest).trans rfl
    have hmodules : second.modules = first.modules :=
      (congrArg World.modules hrenewed.rest).trans rfl
    refine ⟨module, hnames ▸ hmodule, ?_⟩
    rw [hrenewed.entryOf, World.module, hmodules]
    exact hentry
  batches := (hrenewed.elsewhere entry (.inl hother)).trans h.batches
  plain row hrow := by
    have hproviders : second.providers = first.providers :=
      (congrArg World.providers hrenewed.rest).trans rfl
    rw [hrenewed.entries] at hrow
    rw [World.provider, hproviders]
    exact h.plain row hrow
  isModule := by rw [hrenewed.isModule, hrenewed.entries, h.isModule]

/-- Showing the exports of a module that nobody imports is safe for an import of the module that fills
no objects. -/
theorem sheltered (hobjects : intake.objects = []) (hcurrent : intake.scope.current = some id)
    (depth : Nat) : intake.Sheltered (runner depth) (Unimported id entry) where
  kept hkeeps h := h.keeps hkeeps
  shown _ world _ h _ := by
    obtain ⟨module, hmodule, hentry⟩ := h.placed
    refine meets_perform_propagate hcurrent hmodule hentry (fun start _ => ?_) fun start hstart => ?_
    · simp only [ValueTerm.evaluate, Option.map_some, Effect.meets_bound_some]
      exact .refl start
    · have hstart' := h.keeps hstart.toKeeps
      have hslots : start.exportsItself entry = false := by
        rw [World.exportsItself, hstart'.isModule, Bool.not_true, Bool.and_false]
      refine (meets_propagate_of_no_batches hstart'.batches hstart'.plain hslots).weaken ?_
      rintro _ after ⟨values, hasked⟩
      refine ⟨hasked.toKeeps, fun last hlast => ?_⟩
      have hall := hstart.toKeeps.trans (hasked.toKeeps.trans hlast.toKeeps)
      refine ⟨h.keeps hall, ?_⟩
      constructor
      · intro cell hfills
        cases cell with
        | binding ref =>
          exact (hlast.binding ref).trans ((hasked.binding ref).trans (hstart.binding ref))
        | member space name =>
          obtain ⟨object, hobject, _⟩ := hfills
          simp [hobjects] at hobject
      · exact (hlast.batch _).trans ((hasked.batch _).trans (hstart.batch _))
      · exact fun _ _ _ _ => hall.bindingNamed
      · exact hall.bindingCount
      · intro object hobject
        simp [hobjects] at hobject
      · exact Nat.le_of_eq hall.spaceCount.symm

end Unimported

/-! ### Callbacks -/

variable {run : Runner} {safe : World → Prop} {depth : Nat} {name label : String} {value : Value}

/-- Where it was received, the command that puts the value into a variable does so. -/
theorem meets_setBinding (scope : Scope) {target : String} {ref : BindingRef}
    (hnamed : world.names.bindings.get? target = some ref) {post : Answer → World → Prop}
    (h : post .done (world.setBinding ref value)) :
    (perform run { scope with received := some (value, name) }
      (.setBinding target .receivedValue)).Meets world post fun _ => False := by
  have hfound : world.bindingNamed target = (ref, world) := by
    unfold World.bindingNamed
    rw [hnamed]
  simp only [perform, findBinding, Effect.meets_bind, Effect.meets_modifyGet, hfound,
    ValueTerm.evaluate, Option.map_some, Effect.meets_bound_some, meets_silently, Effect.meets_modify]
  exact h

/-- Where it was received, the command that puts the value into an object does so. -/
theorem meets_setMember (scope : Scope) {object : String} {ref : NamespaceRef}
    (hnamed : world.names.spaces.get? object = some ref) {post : Answer → World → Prop}
    (h : post .done (world.setMember ref name value)) :
    (perform run { scope with received := some (value, name) }
      (.setMember (.named object) .received .receivedValue)).Meets world post fun _ => False := by
  simp only [perform, NamespaceTerm.find, Effect.meets_bind, Effect.meets_get, hnamed,
    Effect.meets_bound_some, ValueTerm.evaluate, Option.map_some, meets_silently, Effect.meets_modify]
  exact h

/-- Lines of an import go on where one line has moved it. -/
theorem meets_runLines_moved {scope : Scope} {command : Command} {rest : Program}
    (hcommand : (perform run scope command).Meets world
      (fun _ after => safe after ∧ intake.Moved log world after) fun _ => False)
    (hsheltered : intake.Sheltered run safe)
    (hrest : ∀ after, safe after → intake.Moved log world after →
      (runLines run scope label rest).Meets after
        (fun _ last => safe last ∧ intake.Moved log' after last) fun _ => False) :
    (runLines run scope label (command.line :: rest)).Meets world
      (fun _ last => safe last ∧ intake.Moved (log ++ log') world last) fun _ => False := by
  refine meets_runLines_cons_of_allowed (fun _ h => h) (hcommand.weaken ?_)
  intro answer after hafter
  obtain ⟨hsafe, hmoved⟩ := hafter
  have hreported := World.alike_addEvent after (.ran label command.line.name (.ok answer))
  have hmoved' := hmoved.trans (.addEvent after (.ran label command.line.name (.ok answer)))
  rw [List.append_nil] at hmoved'
  refine (hrest _ (hsheltered.kept hreported.toKeeps hsafe) hmoved').weaken ?_
  intro _ last hlast
  exact ⟨hlast.1, hmoved'.trans hlast.2⟩

/-- The lines that put a value into some of the variables of a name do so. -/
theorem meets_feeds (hsheltered : intake.Sheltered (runner depth) safe) {targets : List String}
    (htargets : ∀ target ∈ targets, target ∈ intake.targets name) (hlinked : intake.Linked world)
    (hsafe : safe world) :
    (runLines (runner depth) { intake.scope with received := some (value, name) } label
      (targets.flatMap (feedLines intake.exported))).Meets world (fun _ after => safe after ∧
        intake.Moved (targets.map fun target => (.binding (intake.binding target), value)) world after)
        fun _ => False := by
  induction targets generalizing world with
  | nil => exact (Effect.meets_pure _).mpr ⟨hsafe, .refl world⟩
  | cons target targets ih =>
    have hmem := htargets target List.mem_cons_self
    have hrest {start : World} := @ih start fun other hother =>
      htargets other (List.mem_cons_of_mem _ hother)
    have hset : (perform (runner depth) { intake.scope with received := some (value, name) }
        (.setBinding target .receivedValue)).Meets world (fun _ after => safe after ∧
          intake.Moved [(.binding (intake.binding target), value)] world after) fun _ => False := by
      refine meets_setBinding intake.scope (hlinked.bindingNamed name target hmem) ⟨?_, ?_⟩
      · exact hsheltered.kept (world.keeps_setBinding _ value) hsafe
      · exact .setBinding (hlinked.bindingLt name target hmem) value
    rw [List.flatMap_cons, feedLines, List.cons_append]
    refine meets_runLines_moved hset hsheltered fun middle hmiddle hmoved => ?_
    have hlinked' := hlinked.moved hmoved
    split
    · next hexported =>
      have hshown := hsheltered.shown ⟨name, target, hmem, hexported⟩ middle (value, name) hmiddle
        hlinked'
      refine meets_runLines_moved hshown hsheltered fun after hafter hmoved' => ?_
      exact hrest (hlinked'.moved hmoved') hafter
    · exact hrest hlinked' hmiddle

/-- The lines that put a value into some of the objects do so. -/
theorem meets_members (hsheltered : intake.Sheltered (runner depth) safe) {objects : List String}
    (hobjects : ∀ object ∈ objects, object ∈ intake.objects) (hlinked : intake.Linked world)
    (hsafe : safe world) :
    (runLines (runner depth) { intake.scope with received := some (value, name) } label
      (objects.map memberLine)).Meets world (fun _ after => safe after ∧
        intake.Moved (objects.map fun object => (.member (intake.space object) name, value)) world after)
        fun _ => False := by
  induction objects generalizing world with
  | nil => exact (Effect.meets_pure _).mpr ⟨hsafe, .refl world⟩
  | cons object objects ih =>
    have hmem := hobjects object List.mem_cons_self
    have hset : (perform (runner depth) { intake.scope with received := some (value, name) }
        (.setMember (.named object) .received .receivedValue)).Meets world (fun _ after =>
          safe after ∧ intake.Moved [(.member (intake.space object) name, value)] world after)
          fun _ => False := by
      refine meets_setMember intake.scope (hlinked.spaceNamed object hmem) ⟨?_, ?_⟩
      · exact hsheltered.kept (world.keeps_setMember _ name value) hsafe
      · exact .setMember (hlinked.spaceLt object hmem) name value
    rw [List.map_cons, memberLine]
    refine meets_runLines_moved hset hsheltered fun middle hmiddle hmoved => ?_
    exact ih (fun other hother => hobjects other (List.mem_cons_of_mem _ hother))
      (hlinked.moved hmoved) hmiddle

/-- A callback that meets something when its lines are run. -/
theorem meets_receive_lines {lines : Program} {scope : Scope} {post : World → Prop}
    (h : (runLines (runner depth) { scope with received := some (value, name) } "setter" lines).Meets
      world (fun _ after => post after) fun _ => False) :
    ((Consumer.callback none lines scope).respond (runner (depth + 1)) name value).Meets world
      (fun _ after => post after) fun _ => False :=
  .reported (fun _ h => h) h

/-- What the callback for a name writes. -/
def feedWrites (intake : Intake) (name : String) (value : Value) : List Cell.Write :=
  (intake.targets name).map fun target => (.binding (intake.binding target), value)

/-- What the callback for all values writes. -/
def gatherWrites (intake : Intake) (name : String) (value : Value) : List Cell.Write :=
  intake.objects.map fun object => (.member (intake.space object) name, value)

theorem meets_receive_feed (hsheltered : intake.Sheltered (runner depth) safe)
    (hlinked : intake.Linked world) (hsafe : safe world) :
    ((intake.feed name).respond (runner (depth + 1)) name value).Meets world (fun _ after =>
      safe after ∧ intake.Moved (intake.feedWrites name value) world after) fun _ => False :=
  meets_receive_lines (meets_feeds hsheltered (fun _ htarget => htarget) hlinked hsafe)

theorem meets_receive_gather (hsheltered : intake.Sheltered (runner depth) safe)
    (hlinked : intake.Linked world) (hsafe : safe world) :
    (intake.gather.respond (runner (depth + 1)) name value).Meets world (fun _ after =>
      safe after ∧ intake.Moved (intake.gatherWrites name value) world after) fun _ => False :=
  meets_receive_lines (meets_members hsheltered (fun _ hobject => hobject) hlinked hsafe)

/-- What the callback under a mark writes. -/
def slotWrites (intake : Intake) (slot name : String) (value : Value) : List Cell.Write :=
  if slot = everyName then intake.gatherWrites name value else intake.feedWrites name value

theorem mem_slotWrites {slot : String} {write : Cell.Write}
    (h : write ∈ intake.slotWrites slot name value) : intake.Fills write.1 ∧ write.2 = value := by
  unfold slotWrites at h
  split at h
  · obtain ⟨object, hobject, rfl⟩ := List.mem_map.mp h
    exact ⟨⟨object, hobject, rfl⟩, rfl⟩
  · obtain ⟨target, htarget, rfl⟩ := List.mem_map.mp h
    exact ⟨⟨name, target, htarget, rfl⟩, rfl⟩

/-! ### One delivery -/

/-- The import's batch told some of its callbacks a value under a name, which wrote what the log
says. -/
structure Told (intake : Intake) (slots : List String) (name : String) (value : Value)
    (log : List Cell.Write) (before after : World) : Prop where
  linked : intake.Linked after
  cell : ∀ cell, intake.Fills cell → after.cell cell = (cell.latest? log).or (before.cell cell)
  heard : ∀ slot ∈ slots, after.seen? intake.batch slot name = some value
  others : ∀ slot other, ¬ (slot ∈ slots ∧ other = name) →
    after.seen? intake.batch slot other = before.seen? intake.batch slot other

theorem Told.refl (hlinked : intake.Linked world) (name : String) (value : Value) :
    intake.Told [] name value [] world world where
  linked := hlinked
  cell _ _ := rfl
  heard _ h := absurd h List.not_mem_nil
  others _ _ _ := rfl

theorem Told.trans {slots slots' : List String} (h : intake.Told slots name value log first second)
    (h' : intake.Told slots' name value log' second third) :
    intake.Told (slots ++ slots') name value (log ++ log') first third where
  linked := h'.linked
  cell cell hfills := by
    rw [h'.cell cell hfills, h.cell cell hfills, Cell.latest?_append, Option.or_assoc]
  heard slot hslot := by
    by_cases hlater : slot ∈ slots'
    · exact h'.heard slot hlater
    · rw [h'.others slot name fun h => hlater h.1]
      exact h.heard slot ((List.mem_append.mp hslot).resolve_right hlater)
  others slot other hother := by
    rw [h'.others slot other fun h => hother ⟨List.mem_append_right _ h.1, h.2⟩]
    exact h.others slot other fun h => hother ⟨List.mem_append_left _ h.1, h.2⟩

/-- A callback that was told the same before is passed over: what it would write is there already. -/
theorem meets_deliverTo_told {slot : String} {consumer : Consumer}
    (hsheltered : intake.Sheltered (runner depth) safe) (hlinked : intake.Linked world)
    (hsafe : safe world)
    (hreceive : ∀ start, intake.Linked start → safe start →
      (consumer.respond run name value).Meets start
        (fun _ after => safe after ∧ intake.Moved log start after) fun _ => False)
    (hthere : world.seen? intake.batch slot name = some value → ∀ write ∈ log,
      world.cell write.1 = some write.2) :
    (deliverTo run intake.batch name value slot consumer).Meets world (fun goesOn after =>
      goesOn = true ∧ safe after ∧ intake.Told [slot] name value log world after) fun _ => False := by
  have hkeeps := world.keeps_handOver intake.batch slot name value
  have hseen (other otherName : String) := world.seen?_handOver intake.batch slot name value
    intake.batch other otherName
  have hnoted : intake.Linked (world.handOver intake.batch slot name value) :=
    hlinked.congr (hkeeps.registered _) (fun _ _ _ _ => hkeeps.bindingNamed) hkeeps.bindingCount
      (fun _ _ _ => id) (Nat.le_of_eq hkeeps.spaceCount.symm)
  refine meets_deliverTo hlinked.active (fun hlast => ⟨rfl, hsafe, hlinked, ?_, ?_, ?_⟩) ?_
  · intro cell _
    cases hwritten : cell.latest? log with
    | none => rfl
    | some written => exact hthere hlast _ (Cell.mem_of_latest? hwritten)
  · intro other hother
    rwa [List.mem_singleton.mp hother]
  · intro _ _ _
    rfl
  · refine (hreceive _ hnoted (hsheltered.kept hkeeps hsafe)).weaken fun _ after hafter => ?_
    obtain ⟨hsafe', hmoved⟩ := hafter
    have hsame (other otherName : String) : after.seen? intake.batch other otherName =
        (world.handOver intake.batch slot name value).seen? intake.batch other otherName := by
      rw [World.seen?, hmoved.batch]
      rfl
    refine ⟨rfl, hsafe', hnoted.moved hmoved, fun cell hfills => ?_, ?_, fun other otherName hother => ?_⟩
    · rw [hmoved.cell cell hfills]
      cases cell <;> rfl
    · intro other hother
      rw [List.mem_singleton.mp hother, hsame, hseen,
        if_pos ⟨rfl, world.lt_of_isActive hlinked.active, rfl, rfl⟩]
    · rw [hsame, hseen, if_neg fun h => hother ⟨List.mem_singleton.mpr h.2.2.1, h.2.2.2⟩]

/-- The callbacks of the import that are concerned with a name. -/
def rows (intake : Intake) (name : String) : List (String × Consumer) :=
  (if intake.targets name = [] then [] else [(name, intake.feed name)]) ++
    if intake.objects = [] then [] else [(everyName, intake.gather)]

theorem Linked.concerned (h : intake.Linked world) (hapart : intake.Apart) (name : String) :
    (world.batch intake.batch).concerned name = intake.rows name := by
  unfold Batch.concerned rows
  by_cases hname : name = everyName
  · subst hname
    rw [h.gathers, if_pos hapart.noWildcard]
    by_cases hobjects : intake.objects = []
    · simp [hobjects]
    · simp [hobjects]
  · rw [h.gathers, h.feeds name hname]
    have hname' : (name == everyName) = false := by simpa using hname
    by_cases htargets : intake.targets name = [] <;> by_cases hobjects : intake.objects = [] <;>
      simp [hname', htargets, hobjects]

/-- The callback of a row writes what its mark says. -/
theorem meets_receive_row (hsheltered : intake.Sheltered (runner depth) safe) (hapart : intake.Apart)
    {row : String × Consumer} (hrow : row ∈ intake.rows name) (hlinked : intake.Linked world)
    (hsafe : safe world) :
    (row.2.respond (runner (depth + 1)) name value).Meets world (fun _ after =>
      safe after ∧ intake.Moved (intake.slotWrites row.1 name value) world after) fun _ => False := by
  unfold rows at hrow
  rcases List.mem_append.mp hrow with hfeed | hgather
  · split at hfeed
    · cases hfeed
    · next htargets =>
      obtain rfl := List.mem_singleton.mp hfeed
      have hname : name ≠ everyName := fun h => htargets (h ▸ hapart.noWildcard)
      rw [slotWrites, if_neg hname]
      exact meets_receive_feed hsheltered hlinked hsafe
  · split at hgather
    · cases hgather
    · obtain rfl := List.mem_singleton.mp hgather
      rw [slotWrites, if_pos rfl]
      exact meets_receive_gather hsheltered hlinked hsafe

/-- A value is told to callbacks that are concerned with it. -/
theorem meets_deliverToAll_told (hsheltered : intake.Sheltered (runner depth) safe)
    (hapart : intake.Apart) {rows : List (String × Consumer)}
    (hrows : ∀ row ∈ rows, row ∈ intake.rows name) (hslots : (rows.map (·.1)).Nodup)
    (hlinked : intake.Linked world) (hsafe : safe world)
    (hthere : ∀ row ∈ rows, world.seen? intake.batch row.1 name = some value →
      ∀ write ∈ intake.slotWrites row.1 name value, world.cell write.1 = some write.2) :
    (deliverToAll (runner (depth + 1)) intake.batch name value rows).Meets world (fun _ after =>
      safe after ∧ intake.Told (rows.map (·.1)) name value
        (rows.flatMap fun row => intake.slotWrites row.1 name value) world after) fun _ => False := by
  induction rows generalizing world with
  | nil => exact (Effect.meets_pure _).mpr ⟨hsafe, .refl hlinked name value⟩
  | cons row rest ih =>
    rw [List.map_cons, List.nodup_cons] at hslots
    rw [deliverToAll, Effect.meets_bind]
    refine (meets_deliverTo_told hsheltered hlinked hsafe (fun start => meets_receive_row hsheltered hapart
      (hrows row List.mem_cons_self)) (hthere row List.mem_cons_self)).weaken ?_
    rintro goesOn after ⟨rfl, hsafe', htold⟩
    rw [if_pos rfl]
    refine (ih (fun other hother => hrows other (List.mem_cons_of_mem _ hother)) hslots.2 htold.linked
      hsafe' fun other hother hseen write hwrite => ?_).weaken ?_
    · -- What is there for the rows to come is still there: the same value was written.
      obtain ⟨hfills, hvalue⟩ := mem_slotWrites hwrite
      have hother' : ¬ (other.1 ∈ [row.1] ∧ name = name) := fun h =>
        hslots.1 (List.mem_singleton.mp h.1 ▸ List.mem_map_of_mem hother)
      rw [htold.others other.1 name hother'] at hseen
      rw [htold.cell write.1 hfills,
        hthere other (List.mem_cons_of_mem _ hother) hseen write hwrite]
      cases hlast : write.1.latest? _ with
      | none => rfl
      | some last =>
        have hsame : last = value := (mem_slotWrites (Cell.mem_of_latest? hlast)).2
        rw [hsame, hvalue]
        rfl
    · exact fun _ last hlast => ⟨hlast.1, htold.trans hlast.2⟩

/-- What a delivery under a name writes, apart from what the batch writes through. -/
def writes (intake : Intake) (name : String) (value : Value) : List Cell.Write :=
  (intake.rows name).flatMap fun row => intake.slotWrites row.1 name value

theorem mem_writes (hapart : intake.Apart) {write : Cell.Write} :
    write ∈ intake.writes name value ↔
      write ∈ intake.feedWrites name value ∨ write ∈ intake.gatherWrites name value := by
  have hfeed : (if intake.targets name = [] then [] else [(name, intake.feed name)]).flatMap
      (fun row : String × Consumer => intake.slotWrites row.1 name value) =
        intake.feedWrites name value := by
    by_cases htargets : intake.targets name = []
    · simp [htargets, feedWrites]
    · have hname : name ≠ everyName := fun h => htargets (h ▸ hapart.noWildcard)
      simp [htargets, slotWrites, hname]
  have hgather : (if intake.objects = [] then [] else [(everyName, intake.gather)]).flatMap
      (fun row : String × Consumer => intake.slotWrites row.1 name value) =
        intake.gatherWrites name value := by
    by_cases hobjects : intake.objects = []
    · simp [hobjects, gatherWrites]
    · simp [hobjects, slotWrites]
  rw [writes, rows, List.flatMap_append, hfeed, hgather, List.mem_append]

theorem Told.cell_of_mem {slots : List String}
    (h : intake.Told slots name value (intake.writes name value) first second) {cell : Cell}
    (hfills : intake.Fills cell) (hmem : (cell, value) ∈ intake.writes name value) :
    second.cell cell = some value := by
  obtain ⟨last, hlast⟩ := Cell.exists_latest? hmem
  obtain ⟨row, _, hwritten⟩ := List.mem_flatMap.mp (Cell.mem_of_latest? hlast)
  have hvalue : last = value := (mem_slotWrites hwritten).2
  rw [h.cell cell hfills, hlast, hvalue]
  rfl

theorem Told.cell_of_not_mem {slots : List String}
    (h : intake.Told slots name value (intake.writes name value) first second) {cell : Cell}
    (hfills : intake.Fills cell) (hmem : (cell, value) ∉ intake.writes name value) :
    second.cell cell = first.cell cell := by
  rw [h.cell cell hfills]
  cases hlast : cell.latest? (intake.writes name value) with
  | none => rfl
  | some last =>
    have hwritten := Cell.mem_of_latest? hlast
    obtain ⟨row, _, hrow⟩ := List.mem_flatMap.mp hwritten
    have hvalue : last = value := (mem_slotWrites hrow).2
    exact absurd (hvalue ▸ hwritten) hmem

/-! ### Any number of deliveries -/

/-- After some deliveries, the variables and objects of the import hold what was delivered last under
the right names, and what they held in the beginning where nothing was; and each callback was told last
what was delivered last. -/
structure Supplied (intake : Intake) (base : World) (given : List (String × Value)) (world : World) :
    Prop where
  linked : intake.Linked world
  binding : ∀ name, ∀ target ∈ intake.targets name, world.binding (intake.binding target) =
    (lastUnder name given).or (base.binding (intake.binding target))
  member : ∀ object ∈ intake.objects, ∀ name, world.member? (intake.space object) name =
    (lastUnder name given).or (base.member? (intake.space object) name)
  heardFeed : ∀ name, intake.targets name ≠ [] →
    world.seen? intake.batch name name = lastUnder name given
  heardGather : intake.objects ≠ [] →
    ∀ name, world.seen? intake.batch everyName name = lastUnder name given

namespace Supplied

variable {base : World} {given : List (String × Value)}

/-- A name that the import does not take in makes no difference to it. -/
theorem concat_of_rows_eq_nil (h : intake.Supplied base given world) (hrows : intake.rows name = [])
    (value : Value) : intake.Supplied base (given ++ [(name, value)]) world := by
  unfold rows at hrows
  rw [List.append_eq_nil_iff] at hrows
  have htargets : intake.targets name = [] := by
    by_contra htargets
    simp [htargets] at hrows
  have hobjects : intake.objects = [] := by
    by_contra hobjects
    simp [hobjects] at hrows
  have hother {other : String} (hother : intake.targets other ≠ []) : ¬ name = other := by
    rintro rfl
    exact hother htargets
  constructor
  · exact h.linked
  · intro other target htarget
    rw [lastUnder_concat, if_neg (hother (List.ne_nil_of_mem htarget))]
    exact h.binding other target htarget
  · intro object hobject
    simp [hobjects] at hobject
  · intro other htargets'
    rw [lastUnder_concat, if_neg (hother htargets')]
    exact h.heardFeed other htargets'
  · exact fun hobjects' => absurd hobjects hobjects'

/-- What the batch writes through, and what its callbacks are told, keeps the import supplied. -/
theorem concat_of_told (h : intake.Supplied base given world) (hapart : intake.Apart) {after : World}
    (htold : intake.Told ((intake.rows name).map (·.1)) name value (intake.writes name value)
      (world.writeThrough intake.batch name value) after) :
    intake.Supplied base (given ++ [(name, value)]) after := by
  have hseen (slot other : String) := world.seen?_writeThrough intake.batch name value intake.batch
    slot other
  constructor
  · exact htold.linked
  · intro other target htarget
    have hfills : intake.Fills (.binding (intake.binding target)) := ⟨other, target, htarget, rfl⟩
    change after.cell (.binding (intake.binding target)) = _
    rw [lastUnder_concat]
    by_cases hname : name = other
    · subst hname
      have hmem : (Cell.binding (intake.binding target), value) ∈ intake.writes name value :=
        (mem_writes hapart).mpr (.inl (List.mem_map_of_mem htarget))
      rw [if_pos rfl, htold.cell_of_mem hfills hmem]
      rfl
    · have hmem : (Cell.binding (intake.binding target), value) ∉ intake.writes name value := by
        rw [mem_writes hapart]
        rintro (hfeed | hgather)
        · obtain ⟨target', htarget', heq⟩ := List.mem_map.mp hfeed
          have hbinding : intake.binding target' = intake.binding target := by simpa using heq
          exact hname (hapart.binding htarget' htarget hbinding)
        · obtain ⟨object, _, heq⟩ := List.mem_map.mp hgather
          simp at heq
      rw [if_neg hname, htold.cell_of_not_mem hfills hmem]
      exact (world.binding_writeThrough _ name value _).trans (h.binding other target htarget)
  · intro object hobject other
    have hfills : intake.Fills (.member (intake.space object) other) := ⟨object, hobject, rfl⟩
    change after.cell (.member (intake.space object) other) = _
    rw [lastUnder_concat]
    by_cases hname : name = other
    · subst hname
      have hmem : (Cell.member (intake.space object) name, value) ∈ intake.writes name value :=
        (mem_writes hapart).mpr (.inr (List.mem_map_of_mem hobject))
      rw [if_pos rfl, htold.cell_of_mem hfills hmem]
      rfl
    · have hmem : (Cell.member (intake.space object) other, value) ∉ intake.writes name value := by
        rw [mem_writes hapart]
        rintro (hfeed | hgather)
        · obtain ⟨target, _, heq⟩ := List.mem_map.mp hfeed
          simp at heq
        · obtain ⟨object', _, heq⟩ := List.mem_map.mp hgather
          simp only [Prod.mk.injEq, Cell.member.injEq] at heq
          exact hname heq.1.2
      rw [if_neg hname, htold.cell_of_not_mem hfills hmem]
      refine (world.member?_writeThrough _ name value _ other).trans ?_
      rw [if_neg fun h => hname h.2.2.symm]
      exact h.member object hobject other
  · intro other htargets
    rw [lastUnder_concat]
    by_cases hname : name = other
    · subst hname
      rw [if_pos rfl]
      exact htold.heard name (by simp [rows, htargets])
    · rw [if_neg hname, htold.others other other fun h => hname h.2.symm, hseen]
      exact h.heardFeed other htargets
  · intro hobjects other
    rw [lastUnder_concat]
    by_cases hname : name = other
    · subst hname
      rw [if_pos rfl]
      exact htold.heard everyName (by simp [rows, hobjects])
    · rw [if_neg hname, htold.others everyName other fun h => hname h.2.symm, hseen]
      exact h.heardGather hobjects other

/-- Where the batch has written a value through, whatever its callbacks would write is there if they
were told the same before. -/
theorem cell_of_seen? (h : intake.Supplied base given world) (hapart : intake.Apart)
    {row : String × Consumer} (hrow : row ∈ intake.rows name)
    (hseen : (world.writeThrough intake.batch name value).seen? intake.batch row.1 name = some value)
    {write : Cell.Write} (hwrite : write ∈ intake.slotWrites row.1 name value) :
    (world.writeThrough intake.batch name value).cell write.1 = some write.2 := by
  rw [world.seen?_writeThrough] at hseen
  unfold rows at hrow
  rcases List.mem_append.mp hrow with hfeed | hgather
  · split at hfeed
    · cases hfeed
    · next htargets =>
      obtain rfl := List.mem_singleton.mp hfeed
      have hname : name ≠ everyName := fun h => htargets (h ▸ hapart.noWildcard)
      rw [slotWrites, if_neg hname] at hwrite
      obtain ⟨target, htarget, rfl⟩ := List.mem_map.mp hwrite
      have hlast : lastUnder name given = some value := (h.heardFeed name htargets).symm.trans hseen
      refine (world.binding_writeThrough _ name value _).trans ?_
      rw [h.binding name target htarget, hlast]
      rfl
  · split at hgather
    · cases hgather
    · obtain rfl := List.mem_singleton.mp hgather
      rw [slotWrites, if_pos rfl] at hwrite
      obtain ⟨object, hobject, rfl⟩ := List.mem_map.mp hwrite
      refine (world.member?_writeThrough _ name value _ name).trans (if_pos ⟨?_, ?_, rfl⟩)
      · exact h.linked.spaces ▸ List.mem_map_of_mem hobject
      · exact h.linked.spaceLt object hobject

/-- **One delivery.** A delivery to a supplied import ends well and supplies it with the value. -/
theorem meets_deliver (h : intake.Supplied base given world) (hapart : intake.Apart)
    (hsheltered : intake.Sheltered (runner depth) safe) (hsafe : safe world) (name : String)
    (value : Value) :
    (deliver (runner (depth + 1)) intake.batch name value).Meets world (fun _ after =>
      safe after ∧ intake.Supplied base (given ++ [(name, value)]) after) fun _ => False := by
  simp only [deliver, Effect.meets_bind, Effect.meets_get, h.linked.concerned hapart]
  by_cases hrows : intake.rows name = []
  · rw [hrows, List.isEmpty_nil, if_pos rfl]
    exact (Effect.meets_pure _).mpr ⟨hsafe, h.concat_of_rows_eq_nil hrows value⟩
  rw [if_neg (by simpa using hrows)]
  have hkeeps := world.keeps_writeThrough intake.batch name value
  have hnames := world.names_writeThrough intake.batch name value
  have hlinked : intake.Linked (world.writeThrough intake.batch name value) :=
    h.linked.congr (hkeeps.registered _) (fun _ _ _ _ => hkeeps.bindingNamed) hkeeps.bindingCount
      (fun _ _ _ hnamed => hnames ▸ hnamed) (Nat.le_of_eq hkeeps.spaceCount.symm)
  have hslots : ((intake.rows name).map (·.1)).Nodup :=
    h.linked.concerned hapart name ▸ nodup_concerned _ name
  rw [Effect.meets_bind, Effect.meets_modify]
  refine (meets_deliverToAll_told hsheltered hapart (fun _ hrow => hrow) hslots hlinked
    (hsheltered.kept hkeeps hsafe) fun row hrow hseen write => h.cell_of_seen? hapart hrow hseen).weaken ?_
  intro _ after hafter
  exact ⟨hafter.1, h.concat_of_told hapart hafter.2⟩

end Supplied

/-- What may happen to a linked import from the world `base` on: deliveries to its batch, and between
them whatever leaves alone what it has to do with. -/
inductive Supply (intake : Intake) (run : Runner) (safe : World → Prop) (base : World) :
    List (String × Value) → World → Prop
  | start : intake.Supply run safe base [] base
  | delivered {given : List (String × Value)} {world after : World} (name : String) (value : Value)
      (h : intake.Supply run safe base given world)
      (houtcome : (deliver run intake.batch name value).outcome world = (.ok (), after)) :
      intake.Supply run safe base (given ++ [(name, value)]) after
  | elsewhere {given : List (String × Value)} {world after : World}
      (h : intake.Supply run safe base given world) (hsafe : safe after)
      (hmoved : intake.Moved [] world after) : intake.Supply run safe base given after

/-- What happens elsewhere keeps an import supplied. -/
theorem Supplied.moved {base after : World} {given : List (String × Value)}
    (h : intake.Supplied base given world) (hmoved : intake.Moved [] world after) :
    intake.Supplied base given after where
  linked := h.linked.moved hmoved
  binding name target htarget :=
    (hmoved.cell (.binding (intake.binding target)) ⟨name, target, htarget, rfl⟩).trans
      (h.binding name target htarget)
  member object hobject name :=
    (hmoved.cell (.member (intake.space object) name) ⟨object, hobject, rfl⟩).trans
      (h.member object hobject name)
  heardFeed name htargets := by
    rw [World.seen?, hmoved.batch]
    exact h.heardFeed name htargets
  heardGather hobjects name := by
    rw [World.seen?, hmoved.batch]
    exact h.heardGather hobjects name

/-- **Any number of deliveries.** From a world on in which an import is linked and its batch has not
been told anything, whatever is delivered to the batch supplies the import, and the next delivery
ends well. -/
theorem supplied_of_supply {base : World} {given : List (String × Value)} (hapart : intake.Apart)
    (hsheltered : intake.Sheltered (runner depth) safe) (hlinked : intake.Linked base)
    (hsafe : safe base) (hnew : (base.batch intake.batch).seen = [])
    (h : intake.Supply (runner (depth + 1)) safe base given world) :
    (safe world ∧ intake.Supplied base given world) ∧ ∀ name value, ∃ after,
      (deliver (runner (depth + 1)) intake.batch name value).outcome world = (.ok (), after) := by
  have hsupplied : safe world ∧ intake.Supplied base given world := by
    induction h with
    | start =>
      have hseen (slot name : String) : base.seen? intake.batch slot name = none := by
        rw [World.seen?, hnew]
        rfl
      exact ⟨hsafe, hlinked, fun _ _ _ => rfl, fun _ _ _ => rfl, fun name _ => hseen name name,
        fun _ name => hseen everyName name⟩
    | delivered name value _ houtcome ih =>
      exact (ih.2.meets_deliver hapart hsheltered ih.1 name value).of_outcome_ok houtcome
    | elsewhere _ hsafe hmoved ih => exact ⟨hsafe, ih.2.moved hmoved⟩
  refine ⟨hsupplied, fun name value => ?_⟩
  obtain ⟨_, after, houtcome, _⟩ :=
    (hsupplied.2.meets_deliver hapart hsheltered hsupplied.1 name value).exists_outcome
  exact ⟨after, houtcome⟩

end Intake

end ModuleLinkage.Ledger
