import ModuleLinkage.Ledger.Propagation

/-!
What modules do to be linked: export, subscribe, import at once or later, and run.
-/

set_option autoImplicit false

namespace ModuleLinkage.Ledger

/-- What a registration keeps. -/
def Registration.holdings (registration : Registration) : List Holding :=
  registration.consumers.toList.flatMap (fun consumers =>
    consumers.rows.flatMap fun (_, consumer) => consumer.holdings) ++
      registration.spaces.map .space

/-- A propagation round over an entry, which is held on to until the round is over. -/
def propagateHeld (run : Runner) (entry : EntryRef) : Effect Unit :=
  Effect.holding [.entry entry] (propagate run entry)

/-- A propagation round over the entry of a namespace, if there is one. The namespace is held on to
until the round is over. -/
def propagateFrom (run : Runner) (space : NamespaceRef) : Effect Unit := do
  match ((← get).space space).entry with
  | some entry => Effect.holding [.space space] (propagateHeld run entry)
  | none => return ()

/-- Registers providers of a module's exports. A loaded module shows its importers at once. -/
def provide (run : Runner) (module : ModuleRef) (providers : Table ProviderRef)
    (isConstant : Bool) : Effect Unit := do
  let entry ← modifyGet (·.claimExports module)
  modify (·.addProviders entry providers isConstant)
  if ((← get).module module).isLoaded then propagateHeld run entry

/-- Exports a value as the default of a module, once and for all. -/
def provideDefault (run : Runner) (module : ModuleRef) (value : Value) : Effect Unit := do
  let provider ← modifyGet (·.newProvider (.value value))
  provide run module (Table.ofList [(defaultName, provider)]) true

/-- Subscribes a module to a namespace. -/
def subscribe (module : ModuleRef) (space : NamespaceRef) (registration : Registration) :
    Effect Unit := do
  let _ ← modifyGet (·.claimExports module)
  match registration.consumers with
  | some consumers =>
    let entry ← modifyGet (·.entryFor space)
    modify (·.addConsumers entry module consumers registration.key registration.spaces)
  | none => return ()

/-- The exports of the module that the host has under `id`. A module asked for the first time is
made, and its body runs; while it runs, the module counts as loaded by the host, so that a cycle
meets its exports as they are. -/
def load (run : Runner) (id : String) : Effect NamespaceRef := do
  let world ← get
  match world.loaded? id with
  | some module => return (world.module module).exports
  | none =>
    match world.host.failures.get? id with
    | some reason => Effect.fail (.load id reason)
    | none =>
      let body ← bound id (world.host.bodies.get? id)
      let module ← modifyGet (·.newModule id true)
      modify (·.updateNames fun names =>
        { names with modules := names.modules.put id module, loaded := names.loaded.put id module })
      Effect.holding [.module module] (run { current := some id } id body)
      return ((← get).module module).exports

/-- The exports of the module that `module` means by a specifier. -/
def request (run : Runner) (module : ModuleRef) (specifier : String) : Effect NamespaceRef := do
  let world ← get
  let record := world.module module
  if !record.isEnabled then Effect.fail (.notEnabled record.id)
  match world.resolve? specifier with
  | some id => load run id
  | none => Effect.fail (.unresolved specifier record.id)

/-- Loads another module, subscribes to it, and delivers its values. -/
def importNow (run : Runner) (module : ModuleRef) (specifier : String)
    (registration : Registration) : Effect Unit := do
  let exports ← Effect.holding registration.holdings (request run module specifier)
  subscribe module exports registration
  propagateFrom run exports

/-- Loads another module and gives a new namespace that follows its exports. -/
def importNamespace (run : Runner) (module : ModuleRef) (specifier : String) :
    Effect NamespaceRef := do
  let exports ← request run module specifier
  let space ← modifyGet (·.newSpace true)
  let consumers := Table.ofList [(everyName, Consumer.copyInto space)]
  subscribe module exports { consumers := some consumers, key := none, spaces := [space] }
  Effect.holding [.space space] (propagateFrom run exports)
  return space

/-- Asks a dynamic import whether it is done. The first time it never is; after that it loads. -/
def poll (run : Runner) (ref : ImportRef) : Effect (Option NamespaceRef) := do
  let pending := (← get).dynamicImport ref
  if !pending.isDeferred then
    modify (·.deferImport ref)
    return none
  return some (← importNamespace run pending.module pending.specifier)

/-- Shows the current values of a module to its importers. The entry of a loaded module is loaded
too, if the module owns it. -/
def propagateExports (run : Runner) (module : ModuleRef) : Effect Unit := do
  let exports := ((← get).module module).exports
  propagateFrom run exports
  if ((← get).module module).isLoaded then
    let entry ← modifyGet (·.ownedEntryFor exports module)
    if ((← get).entry entry).owner == some module then modify (·.markLoaded entry)

/-- Runs the body of a module. If it succeeds, the module is loaded and shows its values. -/
def evaluate (run : Runner) (module : ModuleRef) (body : Effect Unit) : Effect Unit := do
  let _ ← modifyGet (·.claimExports module)
  body
  modify (·.setLoaded module true)
  propagateExports run module

end ModuleLinkage.Ledger
