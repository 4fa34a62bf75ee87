import ModuleLinkage.Proofs.Ledger.Round
import ModuleLinkage.Proofs.Ledger.ImportGraph.Shape

/-!
# Worlds in which an import graph is being linked

While the modules of a graph load each other, the ledger always has the same form: each module that
the host has loaded has a namespace and an entry of its own (`World.Places`), the slots of the entry
provide the module's variables (`World.Provides`), and the batches of the entry are what imports of
that module have subscribed with, at most one for each import (`ImportGraph.Wired`). Propagation
registers nothing and so keeps this form (`ImportGraph.Wired.keeps`).

The values of an exported name are kept in several copies: one in the module's namespace, and one for
each subscription in what its batch has seen last. `World.CopyOf` says which copies there are.
-/

set_option autoImplicit false

namespace ModuleLinkage.Ledger

/-- The record, the namespace and the entry of a module. -/
structure Place where
  module : ModuleRef
  space : NamespaceRef
  entry : EntryRef

/-- Where the values of an exported name are kept: shown by a namespace, or seen last by a batch. -/
inductive Copy where
  | space (ref : NamespaceRef)
  | batch (ref : BatchRef)

namespace World

/-- What the variable of a name holds; nothing if there is no such variable. -/
def content (world : World) (name : String) : Option Value :=
  (world.names.bindings.get? name).bind world.binding

/-- The host has loaded a module, or has begun to, and it stands in the ledger at a place. -/
structure Places (world : World) (id : String) (place : Place) : Prop where
  loaded : world.loaded? id = some place.module
  named : world.names.modules.get? id = some place.module
  moduleId : (world.module place.module).id = id
  isEnabled : (world.module place.module).isEnabled = true
  exports : (world.module place.module).exports = place.space
  isModule : (world.space place.space).isModule = true
  entryOf : (world.space place.space).entry = some place.entry
  spaceOf : (world.entry place.entry).space = place.space
  moduleLt : place.module.index < world.modules.size
  spaceLt : place.space.index < world.spaces.size
  entryLt : place.entry.index < world.entries.size

/-- A slot of an entry provides what the variable of a name holds. -/
structure ProvidesRow (world : World) (row : String × String)
    (slot : String × ProviderRef × Bool) : Prop where
  name : slot.1 = row.1
  isConstant : slot.2.2 = false
  providerLt : slot.2.1.index < world.providers.size
  binding : ∃ ref, (world.provider slot.2.1).source = .binding ref ∧
    world.names.bindings.get? row.2 = some ref

/-- The slots of an entry provide what the variables of some exports hold. -/
def Provides (world : World) (entry : EntryRef) (exports : List (String × String)) : Prop :=
  List.Forall₂ world.ProvidesRow exports (world.entry entry).exported

/-- The consumer that a feed of a module's import is registered as. -/
inductive Takes (world : World) (shape : ModuleShape) : Feed → Consumer → Prop
  | assign {target : String} {ref : BindingRef} :
      world.names.bindings.get? target = some ref → Takes world shape (.assign target) (.assign ref)
  | callback {targets : List String} :
      Takes world shape (.callback targets)
        (.callback none (targets.flatMap shape.feedLines) { current := some shape.id })

/-- A batch is what an import of a module has subscribed with. -/
structure Registered (world : World) (shape : ModuleShape) (imp : Import) (batch : BatchRef) :
    Prop where
  lt : batch.index < world.batches.size
  key : (world.batch batch).key = some (scopedKey shape.id imp.key.repr)
  spaces : (world.batch batch).spaces = []
  isActive : (world.batch batch).isActive = true
  consumers : List.Forall₂ (fun feed row => row.1 = feed.1 ∧ world.Takes shape feed.2 row.2)
    imp.feeds (world.batch batch).consumers.rows

/-- An import of a module has subscribed, with a batch, to the module that it imports. -/
def Subscribed (world : World) (shape : ModuleShape) (imp : Import) (batch : BatchRef) : Prop :=
  ∃ place, world.Places imp.source place ∧ batch ∈ (world.entry place.entry).batches ∧
    (world.batch batch).key = some (scopedKey shape.id imp.key.repr)

/-- What a copy has of an exported name. -/
def copy (world : World) : Copy → String → Option Value
  | .space ref, name => world.member? ref name
  | .batch ref, name => world.seen? ref name name

/-- The copies of an exported name of a module: the one in its namespace, and one in each of its
batches that is concerned with the name. -/
def CopyOf (world : World) (id name : String) (copy : Copy) : Prop :=
  ∃ place, world.Places id place ∧
    (copy = .space place.space ∨ ∃ batch ∈ (world.entry place.entry).batches,
      copy = .batch batch ∧ (world.batch batch).concerned name ≠ [])

variable {world : World} {id : String}

/-- A feed stays registered as it is while names of variables keep what they lead to. -/
theorem Takes.mono {first second : World} {shape : ModuleShape} {feed : Feed} {consumer : Consumer}
    (h : first.Takes shape feed consumer)
    (hnames : ∀ {name ref}, first.names.bindings.get? name = some ref →
      second.names.bindings.get? name = some ref) : second.Takes shape feed consumer := by
  cases h with
  | assign hname => exact .assign (hnames hname)
  | callback => exact .callback

/-- An import stays registered while its batch and names of variables stay what they are. -/
theorem Registered.mono {first second : World} {shape : ModuleShape} {imp : Import}
    {batch : BatchRef} (h : first.Registered shape imp batch)
    (hnames : ∀ {name ref}, first.names.bindings.get? name = some ref →
      second.names.bindings.get? name = some ref)
    (hsize : first.batches.size ≤ second.batches.size)
    (hbatch : (second.batch batch).registered = (first.batch batch).registered) :
    second.Registered shape imp batch where
  lt := Nat.lt_of_lt_of_le h.lt hsize
  key := (congrArg (·.1) hbatch).trans h.key
  spaces := (congrArg (·.2.2.2.1) hbatch).trans h.spaces
  isActive := (congrArg (·.2.2.2.2) hbatch).trans h.isActive
  consumers := by
    have hconsumers : (second.batch batch).consumers = (first.batch batch).consumers :=
      congrArg (·.2.2.1) hbatch
    rw [hconsumers]
    exact h.consumers.imp fun _ _ hrow => ⟨hrow.1, hrow.2.mono hnames⟩

/-- A module stands at one place. -/
theorem Places.unique {place place' : Place} (h : world.Places id place)
    (h' : world.Places id place') : place = place' := by
  obtain ⟨module, space, entry⟩ := place
  obtain ⟨module', space', entry'⟩ := place'
  have hmodule : module = module' := Option.some.inj (h.loaded.symm.trans h'.loaded)
  subst hmodule
  have hspace : space = space' := h.exports.symm.trans h'.exports
  subst hspace
  have hentry : entry = entry' := Option.some.inj (h.entryOf.symm.trans h'.entryOf)
  rw [hentry]

end World

namespace World.Keeps

variable {first second : World} (h : first.Keeps second)

include h

theorem loaded? (id : String) : second.loaded? id = first.loaded? id := by
  simp only [World.loaded?, h.loadedNames]

/-- Where everything registered is the same, modules stand at the same places. -/
theorem places_iff {id : String} {place : Place} :
    second.Places id place ↔ first.Places id place := by
  constructor <;> intro hplaces
  · exact
      { loaded := by rw [← h.loaded?, hplaces.loaded]
        named := by rw [← h.moduleNames, hplaces.named]
        moduleId := by rw [← h.module, hplaces.moduleId]
        isEnabled := by rw [← h.module, hplaces.isEnabled]
        exports := by rw [← h.module, hplaces.exports]
        isModule := by rw [← h.isModule, hplaces.isModule]
        entryOf := by rw [← h.entryOf, hplaces.entryOf]
        spaceOf := by rw [← h.spaceOf, hplaces.spaceOf]
        moduleLt := h.modules ▸ hplaces.moduleLt
        spaceLt := h.spaceCount ▸ hplaces.spaceLt
        entryLt := h.entryCount ▸ hplaces.entryLt }
  · exact
      { loaded := by rw [h.loaded?, hplaces.loaded]
        named := by rw [h.moduleNames, hplaces.named]
        moduleId := by rw [h.module, hplaces.moduleId]
        isEnabled := by rw [h.module, hplaces.isEnabled]
        exports := by rw [h.module, hplaces.exports]
        isModule := by rw [h.isModule, hplaces.isModule]
        entryOf := by rw [h.entryOf, hplaces.entryOf]
        spaceOf := by rw [h.spaceOf, hplaces.spaceOf]
        moduleLt := h.modules.symm ▸ hplaces.moduleLt
        spaceLt := h.spaceCount.symm ▸ hplaces.spaceLt
        entryLt := h.entryCount.symm ▸ hplaces.entryLt }

theorem providesRow {row : String × String} {slot : String × ProviderRef × Bool}
    (hrow : first.ProvidesRow row slot) : second.ProvidesRow row slot where
  name := hrow.name
  isConstant := hrow.isConstant
  providerLt := h.providerCount.symm ▸ hrow.providerLt
  binding := by
    obtain ⟨ref, hsource, hname⟩ := hrow.binding
    exact ⟨ref, by rw [h.source, hsource], h.bindingNamed hname⟩

theorem provides {entry : EntryRef} {exports : List (String × String)}
    (hprovides : first.Provides entry exports) : second.Provides entry exports := by
  unfold World.Provides at hprovides ⊢
  rw [h.exported]
  exact hprovides.imp fun _ _ => h.providesRow

theorem registeredImport {shape : ModuleShape} {imp : Import} {batch : BatchRef}
    (hregistered : first.Registered shape imp batch) : second.Registered shape imp batch :=
  hregistered.mono h.bindingNamed (Nat.le_of_eq h.batchCount.symm) (h.registered batch)

theorem subscribed_iff {shape : ModuleShape} {imp : Import} {batch : BatchRef} :
    second.Subscribed shape imp batch ↔ first.Subscribed shape imp batch := by
  simp only [World.Subscribed, h.places_iff, h.batches, h.key]

theorem copyOf_iff {id name : String} {copy : Copy} :
    second.CopyOf id name copy ↔ first.CopyOf id name copy := by
  simp only [World.CopyOf, h.places_iff, h.batches, h.concerned]

end World.Keeps

namespace ImportGraph

/-- The form of the ledger while the modules of a graph load each other. -/
structure Wired (graph : ImportGraph) (world : World) : Prop where
  host : world.host = graph.host
  namesValid : World.NamesValid world.names.bindings world.bindings.size
  placed : ∀ {id module}, world.loaded? id = some module →
    id ∈ graph.ids ∧ ∃ place, world.Places id place
  /-- Different modules have different namespaces. -/
  apart : ∀ {id id' place place'}, world.Places id place → world.Places id' place' →
    place.space = place'.space → id = id'
  provides : ∀ {shape place}, shape ∈ graph.modules → world.Places shape.id place →
    world.Provides place.entry shape.exports
  /-- Every batch is what an import of some loaded module has subscribed with. -/
  registered : ∀ {id place batch}, world.Places id place →
    batch ∈ (world.entry place.entry).batches →
      ∃ shape ∈ graph.modules, ∃ imp ∈ shape.imports, imp.source = id ∧
        (∃ place, world.Places shape.id place) ∧ world.Registered shape imp batch
  /-- An import has subscribed at most once. -/
  once : ∀ {id place batch batch'}, world.Places id place →
    batch ∈ (world.entry place.entry).batches → batch' ∈ (world.entry place.entry).batches →
      (world.batch batch).key = (world.batch batch').key → batch = batch'

namespace Wired

variable {graph : ImportGraph} {world : World}

/-- Propagation keeps the form of the ledger. -/
theorem keeps {after : World} (hwired : graph.Wired world) (h : world.Keeps after) :
    graph.Wired after where
  host := h.host.trans hwired.host
  namesValid := h.namesValid hwired.namesValid
  placed hloaded := by
    rw [h.loaded?] at hloaded
    obtain ⟨hid, place, hplace⟩ := hwired.placed hloaded
    exact ⟨hid, place, h.places_iff.mpr hplace⟩
  apart hplace hplace' := hwired.apart (h.places_iff.mp hplace) (h.places_iff.mp hplace')
  provides hshape hplace := h.provides (hwired.provides hshape (h.places_iff.mp hplace))
  registered hplace hbatch := by
    rw [h.batches] at hbatch
    obtain ⟨shape, hshape, imp, himp, hsource, ⟨place, hplaced⟩, hregistered⟩ :=
      hwired.registered (h.places_iff.mp hplace) hbatch
    exact ⟨shape, hshape, imp, himp, hsource, ⟨place, h.places_iff.mpr hplaced⟩,
      h.registeredImport hregistered⟩
  once hplace hbatch hbatch' hkey := by
    rw [h.batches] at hbatch hbatch'
    rw [h.key, h.key] at hkey
    exact hwired.once (h.places_iff.mp hplace) hbatch hbatch' hkey

/-- The key of a batch tells the import that subscribed with it. -/
theorem eq_of_key (hwired : graph.Wired world) (hgraph : graph.WellFormed) {id : String}
    {place : Place} {batch : BatchRef} (hplace : world.Places id place)
    (hbatch : batch ∈ (world.entry place.entry).batches) {shape : ModuleShape} {imp : Import}
    (hshape : shape ∈ graph.modules) (himp : imp ∈ shape.imports)
    (hkey : (world.batch batch).key = some (World.scopedKey shape.id imp.key.repr)) :
    imp.source = id ∧ (∃ place, world.Places shape.id place) ∧
      world.Registered shape imp batch := by
  obtain ⟨shape', hshape', imp', himp', hsource, hplaced, hregistered⟩ :=
    hwired.registered hplace hbatch
  obtain ⟨hid, hnumber⟩ :=
    scopedKey_repr_inj (Option.some.inj (hregistered.key.symm.trans hkey))
  obtain rfl := hgraph.eq_of_id hshape' hshape hid
  obtain rfl := hgraph.eq_of_key hshape himp' himp hnumber
  exact ⟨hsource, hplaced, hregistered⟩

/-- An import that has subscribed is registered. -/
theorem registered_of_subscribed (hwired : graph.Wired world) (hgraph : graph.WellFormed)
    {shape : ModuleShape} {imp : Import} {batch : BatchRef} (hshape : shape ∈ graph.modules)
    (himp : imp ∈ shape.imports) (hsubscribed : world.Subscribed shape imp batch) :
    (∃ place, world.Places shape.id place) ∧ world.Registered shape imp batch := by
  obtain ⟨place, hplace, hbatch, hkey⟩ := hsubscribed
  exact (hwired.eq_of_key hgraph hplace hbatch hshape himp hkey).2

/-- An import subscribes with one batch. -/
theorem subscribed_unique (hwired : graph.Wired world) {shape : ModuleShape} {imp : Import}
    {batch batch' : BatchRef} (h : world.Subscribed shape imp batch)
    (h' : world.Subscribed shape imp batch') : batch = batch' := by
  obtain ⟨place, hplace, hbatch, hkey⟩ := h
  obtain ⟨place', hplace', hbatch', hkey'⟩ := h'
  obtain rfl := hplace.unique hplace'
  exact hwired.once hplace hbatch hbatch' (hkey.trans hkey'.symm)

/-- A batch belongs to the entry of one module. -/
theorem id_unique (hwired : graph.Wired world) (hgraph : graph.WellFormed) {id id' : String}
    {place place' : Place} {batch : BatchRef} (hplace : world.Places id place)
    (hbatch : batch ∈ (world.entry place.entry).batches) (hplace' : world.Places id' place')
    (hbatch' : batch ∈ (world.entry place'.entry).batches) : id = id' := by
  obtain ⟨shape, hshape, imp, himp, hsource, -, hregistered⟩ := hwired.registered hplace hbatch
  have hkey := hwired.eq_of_key hgraph hplace' hbatch' hshape himp hregistered.key
  exact hsource.symm.trans hkey.1

end Wired

end ImportGraph

namespace World

/-! ### The contents of variables by name -/

/-- Names that lead to variables which hold the same have the same contents. -/
theorem Keeps.content {first second : World} (h : first.Keeps second)
    (hbinding : ∀ ref, second.binding ref = first.binding ref) (name : String) :
    second.content name = first.content name := by
  unfold World.content
  cases hfirst : first.names.bindings.get? name with
  | some ref =>
    rw [h.bindingNamed hfirst]
    exact hbinding ref
  | none =>
    cases hsecond : second.names.bindings.get? name with
    | none => rfl
    | some ref =>
      -- The name is new, and so is the variable that it leads to.
      rcases h.bindingNew hsecond with hold | hnew
      · rw [hfirst] at hold
        cases hold
      · change second.binding ref = none
        rw [hbinding]
        exact Store.get_of_size_le _ hnew

theorem Alike.content {first second : World} (h : first.Alike second) (name : String) :
    second.content name = first.content name :=
  h.toKeeps.content h.binding name

theorem Alike.copy {first second : World} (h : first.Alike second) (copy : Copy) (name : String) :
    second.copy copy name = first.copy copy name := by
  cases copy with
  | space ref => exact h.member? ref name
  | batch ref => exact h.seen? ref name name

/-- An assignment to the variable of a name changes what that one holds. -/
theorem content_setBinding {world : World}
    (hvalid : NamesValid world.names.bindings world.bindings.size) {name : String}
    {ref : BindingRef} (hname : world.names.bindings.get? name = some ref) (value : Value)
    (other : String) :
    (world.setBinding ref value).content other =
      if other = name then some value else world.content other := by
  change (world.names.bindings.get? other).bind (world.setBinding ref value).binding = _
  split
  · next heq =>
    rw [heq, hname, Option.bind_some, binding_setBinding, if_pos ⟨rfl, hvalid.lt hname⟩]
  · next hne =>
    cases hother : world.names.bindings.get? other with
    | none => simp [World.content, hother]
    | some otherRef =>
      have hrefs : otherRef ≠ ref := fun heq => hne (hvalid.inj (heq ▸ hother) hname)
      rw [Option.bind_some, binding_setBinding, if_neg fun h => hrefs h.1, World.content, hother]
      rfl

end World

end ModuleLinkage.Ledger
