import ModuleLinkage.Ledger.World

/-!
Ledger entries. Each namespace has at most one entry, which every module that shows that namespace
shares. The changes in this module call nothing back.
-/

set_option autoImplicit false

namespace ModuleLinkage.Ledger.World

/-- Whether a module record still exists: it has a name, or a dynamic import or a running command
refers to it. Entries and batches do not keep the modules that they name. -/
def isAlive (world : World) (ref : ModuleRef) : Bool :=
  world.names.modules.rows.any (fun row => row.2 == ref) ||
    world.names.loaded.rows.any (fun row => row.2 == ref) ||
    world.names.imports.rows.any (fun row => (world.dynamicImport row.2).module == ref) ||
    world.held.contains (.module ref)

/-- The owner of an entry, while it exists. -/
def ownerOf? (world : World) (ref : EntryRef) : Option ModuleRef :=
  (world.entry ref).owner.filter world.isAlive

/-- The modules that have consumers at an entry, in the order of registration. -/
def consumersOf (world : World) (ref : EntryRef) : List ModuleRef :=
  ((world.entry ref).batches.map fun batch => (world.batch batch).consumer).filter world.isAlive

/-- The entry of a namespace, made if there is none. -/
def entryFor (world : World) (space : NamespaceRef) : EntryRef × World :=
  match (world.space space).entry with
  | some ref => (ref, world)
  | none =>
    let (ref, world) := world.newEntry space
    (ref, world.updateSpace space fun record => { record with entry := some ref })

/-- Makes a module the owner of an entry, unless the entry has one that still exists. -/
def settleOwner (world : World) (ref : EntryRef) (module : ModuleRef) : World :=
  match world.ownerOf? ref with
  | some _ => world
  | none => world.updateEntry ref fun entry => { entry with owner := some module }

/-- The entry of a namespace with an owner settled. -/
def ownedEntryFor (world : World) (space : NamespaceRef) (module : ModuleRef) :
    EntryRef × World :=
  let (ref, world) := world.entryFor space
  (ref, world.settleOwner ref module)

/-- Marks the exports of a module as module exports and settles the owner of their entry. -/
def claimExports (world : World) (module : ModuleRef) : EntryRef × World :=
  let exports := (world.module module).exports
  (world.markModule exports).ownedEntryFor exports module

def markLoaded (world : World) (ref : EntryRef) : World :=
  world.updateEntry ref fun entry => { entry with isLoaded := true }

/-- Puts providers into an entry's slots. A provider that is replaced loses the value kept of it. -/
def addProviders (world : World) (ref : EntryRef) (providers : Table ProviderRef)
    (isConstant : Bool) : World :=
  let slots := providers.rows.map fun (name, provider) =>
    (name, ({ provider, isConstant, cached := none } : Slot))
  world.updateEntry ref fun entry => { entry with slots := entry.slots.putAll slots }

/-- Keeps the value of a constant slot, if the slot still has that provider and none is kept. -/
def keepValue (world : World) (ref : EntryRef) (name : String) (provider : ProviderRef)
    (value : Value) : World :=
  world.updateEntry ref fun entry =>
    match entry.slots.get? name with
    | some slot =>
      if slot.provider == provider && slot.cached.isNone then
        { entry with slots := entry.slots.put name { slot with cached := some value } }
      else entry
    | none => entry

/-- Puts an end to a batch: nothing more is delivered to it, and what it wrote is removed. -/
def revert (world : World) (ref : BatchRef) : World :=
  let batch := world.batch ref
  let world := world.updateBatch ref fun batch => { batch with isActive := false }
  batch.written.foldl (fun world name =>
    batch.spaces.foldl (fun world space => world.removeMember space name) world) world

/-- The key under which a module's batch is registered. -/
def scopedKey (id key : String) : String :=
  id ++ ":" ++ key

/-- Registers consumers of `module` at an entry. Batches registered under the same key before are
reverted and removed. -/
def addConsumers (world : World) (ref : EntryRef) (module : ModuleRef) (consumers : Table Consumer)
    (key : Option String) (spaces : List NamespaceRef) : World :=
  let key := key.map (scopedKey (world.module module).id)
  let isReplaced (batch : BatchRef) : Bool := key.isSome && (world.batch batch).key == key
  let replaced := (world.entry ref).batches.filter isReplaced
  let world := replaced.foldl revert world
  let (added, world) := world.newBatch ⟨key, module, consumers, spaces, true, [], []⟩
  world.updateEntry ref fun entry =>
    let kept := entry.batches.filter fun batch => !replaced.contains batch
    { entry with batches := kept ++ [added] }

/-- Writes a delivered value into the namespaces of a batch and notes its name. -/
def writeThrough (world : World) (ref : BatchRef) (name : String) (value : Value) : World :=
  match (world.batch ref).spaces with
  | [] => world
  | spaces =>
    let world := spaces.foldl (fun world space => world.setMember space name value) world
    world.updateBatch ref fun batch => { batch with written := batch.written.insert name }

/-- The value that a batch's consumer `slot` last received under `name`. -/
def seen? (world : World) (ref : BatchRef) (slot name : String) : Option Value :=
  ((world.batch ref).seen.find? fun row => row.1 == (slot, name)).map (·.2)

/-- Notes that `value` is what a batch's consumer `slot` has seen last under `name`. -/
def noteSeen (world : World) (ref : BatchRef) (slot name : String) (value : Value) : World :=
  world.updateBatch ref fun batch =>
    let others := batch.seen.filter fun row => !(row.1 == (slot, name))
    { batch with seen := ((slot, name), value) :: others }

end ModuleLinkage.Ledger.World
