import ModuleLinkage.Ledger.Program
import ModuleLinkage.Ledger.Report
import ModuleLinkage.Ledger.Store
import ModuleLinkage.Ledger.Table
import ModuleLinkage.Ledger.Value

/-!
The world in which modules run: the records of modules, namespaces and ledger entries, the names
given to them, and what the host knows.
-/

set_option autoImplicit false

namespace ModuleLinkage.Ledger

/-- The consumer name that stands for every exported name. -/
def everyName : String :=
  "*"

/-- The exported name that stands for the module as a whole. -/
def defaultName : String :=
  "default"

/-- Where a program runs: the module it belongs to, and for the lines of a consumer the value and
the name that the consumer received. -/
structure Scope where
  current : Option String := none
  received : Option (Value × String) := none
  deriving Inhabited

/-- The object that shows a module's exports to importers. -/
structure Namespace where
  members : Table Value
  /-- Whether it follows the rules of module exports, and is not one plain exported value. -/
  isModule : Bool
  entry : Option EntryRef
  deriving Inhabited

/-- A module record. -/
structure Module where
  id : String
  exports : NamespaceRef
  isLoaded : Bool
  isEnabled : Bool
  deriving Inhabited

/-- Where a provider's values come from. -/
inductive Source where
  | value (value : Value)
  | binding (binding : BindingRef)
  | counted (label : String) (value : Option ValueTerm) (scope : Scope)
  | listed (replies : List Reply) (scope : Scope)
  | failing (message : String)
  | computed (lines : List Line) (value : ValueTerm) (scope : Scope)
  deriving Inhabited

/-- A provider of an export's current value, and how often it was called. -/
structure Provider where
  source : Source
  calls : Nat
  deriving Inhabited

/-- What takes delivered values. -/
inductive Consumer where
  | assign (binding : BindingRef)
  | copyInto (space : NamespaceRef)
  | callback (label : Option String) (lines : List Line) (scope : Scope)
  deriving Inhabited

/-- An exported name's provider. A constant one is asked until it first yields a value, which is
then kept. -/
structure Slot where
  provider : ProviderRef
  isConstant : Bool
  cached : Option Value
  deriving Inhabited

/-- The consumers that one module registered together. -/
structure Batch where
  /-- The key, with the id of the module before it. -/
  key : Option String
  consumer : ModuleRef
  consumers : Table Consumer
  spaces : List NamespaceRef
  isActive : Bool
  /-- The value last delivered, by consumer name and exported name. -/
  seen : List ((String × String) × Value)
  /-- The names that this batch wrote into its namespaces. -/
  written : List String
  deriving Inhabited

/-- The ledger entry of a namespace: who provides its members and who consumes them. -/
structure Entry where
  space : NamespaceRef
  owner : Option ModuleRef
  isLoaded : Bool
  slots : Table Slot
  batches : List BatchRef
  deriving Inhabited

/-- A thing that exists as long as something refers to it, and may itself refer to others. -/
inductive Holding where
  | space (ref : NamespaceRef)
  | module (ref : ModuleRef)
  | entry (ref : EntryRef)
  | batch (ref : BatchRef)
  | provider (ref : ProviderRef)
  | binding (ref : BindingRef)
  deriving Repr, DecidableEq

/-- A dynamic import under way. -/
structure DynamicImport where
  module : ModuleRef
  specifier : String
  /-- Whether it was polled before. -/
  isDeferred : Bool
  deriving Inhabited

/-- A call of a callback. -/
inductive Callback where
  | provider (ref : ProviderRef)
  /-- The consumer called `slot` of a batch receives `value` under the exported name `name`. -/
  | consumer (batch : BatchRef) (slot name : String) (value : Value)
  deriving Inhabited

/-- What the host serves: the bodies of modules, other names for them, and why some of them do not
load. -/
structure Host where
  bodies : Table Program
  aliases : Table String
  failures : Table String
  deriving Inhabited

/-- The names given to things, in the order in which they were given. -/
structure Names where
  modules : Table ModuleRef
  /-- The modules that the host has loaded. -/
  loaded : Table ModuleRef
  spaces : Table NamespaceRef
  bindings : Table BindingRef
  entries : Table EntryRef
  imports : Table ImportRef
  deriving Inhabited

structure World where
  host : Host
  names : Names
  modules : Store Module
  spaces : Store Namespace
  entries : Store Entry
  batches : Store Batch
  providers : Store Provider
  bindings : Store (Option Value)
  imports : Store DynamicImport
  /-- The calls counted under each label. -/
  counts : Table Nat
  /-- The number of namespaces that got a name only because a report showed them. -/
  unnamed : Nat
  /-- What running commands refer to. -/
  held : List Holding
  /-- What has happened during the present command, latest first. -/
  events : List Event
  /-- The callbacks that were called, latest first. -/
  calls : List Callback
  deriving Inhabited

namespace World

def ofHost (host : Host) : World :=
  { (default : World) with host }

def module (world : World) (ref : ModuleRef) : Module :=
  world.modules.get ref.index

def space (world : World) (ref : NamespaceRef) : Namespace :=
  world.spaces.get ref.index

def entry (world : World) (ref : EntryRef) : Entry :=
  world.entries.get ref.index

def batch (world : World) (ref : BatchRef) : Batch :=
  world.batches.get ref.index

def provider (world : World) (ref : ProviderRef) : Provider :=
  world.providers.get ref.index

/-- What a binding holds; nothing before it is initialized. -/
def binding (world : World) (ref : BindingRef) : Option Value :=
  world.bindings.get ref.index

def dynamicImport (world : World) (ref : ImportRef) : DynamicImport :=
  world.imports.get ref.index

def updateModule (world : World) (ref : ModuleRef) (change : Module → Module) : World :=
  { world with modules := world.modules.update ref.index change }

def updateSpace (world : World) (ref : NamespaceRef) (change : Namespace → Namespace) : World :=
  { world with spaces := world.spaces.update ref.index change }

def updateEntry (world : World) (ref : EntryRef) (change : Entry → Entry) : World :=
  { world with entries := world.entries.update ref.index change }

def updateBatch (world : World) (ref : BatchRef) (change : Batch → Batch) : World :=
  { world with batches := world.batches.update ref.index change }

def updateNames (world : World) (change : Names → Names) : World :=
  { world with names := change world.names }

def addEvent (world : World) (event : Event) : World :=
  { world with events := event :: world.events }

/-- A new namespace without members. -/
def newSpace (world : World) (isModule : Bool) : NamespaceRef × World :=
  (⟨world.spaces.size⟩, { world with spaces := world.spaces.add ⟨.empty, isModule, none⟩ })

/-- A new module that is not loaded, with exports of its own. -/
def newModule (world : World) (id : String) (isEnabled : Bool) : ModuleRef × World :=
  let (exports, world) := world.newSpace false
  (⟨world.modules.size⟩,
    { world with modules := world.modules.add ⟨id, exports, false, isEnabled⟩ })

/-- A new entry for a namespace: no owner, no providers, no consumers. -/
def newEntry (world : World) (space : NamespaceRef) : EntryRef × World :=
  (⟨world.entries.size⟩,
    { world with entries := world.entries.add ⟨space, none, false, .empty, []⟩ })

def newBatch (world : World) (batch : Batch) : BatchRef × World :=
  (⟨world.batches.size⟩, { world with batches := world.batches.add batch })

def newProvider (world : World) (source : Source) : ProviderRef × World :=
  (⟨world.providers.size⟩, { world with providers := world.providers.add ⟨source, 0⟩ })

def newBinding (world : World) (value : Option Value) : BindingRef × World :=
  (⟨world.bindings.size⟩, { world with bindings := world.bindings.add value })

def newImport (world : World) (module : ModuleRef) (specifier : String) : ImportRef × World :=
  (⟨world.imports.size⟩, { world with imports := world.imports.add ⟨module, specifier, false⟩ })

def setBinding (world : World) (ref : BindingRef) (value : Value) : World :=
  { world with bindings := world.bindings.update ref.index fun _ => some value }

def setMember (world : World) (ref : NamespaceRef) (name : String) (value : Value) : World :=
  world.updateSpace ref fun space => { space with members := space.members.put name value }

def removeMember (world : World) (ref : NamespaceRef) (name : String) : World :=
  world.updateSpace ref fun space => { space with members := space.members.erase name }

def markModule (world : World) (ref : NamespaceRef) : World :=
  world.updateSpace ref fun space => { space with isModule := true }

def setLoaded (world : World) (ref : ModuleRef) (loaded : Bool) : World :=
  world.updateModule ref fun module => { module with isLoaded := loaded }

def setExports (world : World) (ref : ModuleRef) (exports : NamespaceRef) : World :=
  world.updateModule ref fun module => { module with exports }

def deferImport (world : World) (ref : ImportRef) : World :=
  { world with imports := world.imports.update ref.index fun pending =>
      { pending with isDeferred := true } }

/-- Serves a module by the host; tells whether it was not served before. -/
def enable (world : World) (ref : ModuleRef) : Bool × World :=
  if (world.module ref).isEnabled then (false, world)
  else (true, world.updateModule ref fun module => { module with isEnabled := true })

/-- Writes down the call of a callback. -/
def logCall (world : World) (call : Callback) : World :=
  { world with calls := call :: world.calls }

/-- One more call counted under `label`, and their number. -/
def countCall (world : World) (label : String) : Nat × World :=
  let count := (world.counts.get? label).getD 0 + 1
  (count, { world with counts := world.counts.put label count })

/-- One more call of a provider, and their number before it. -/
def noteCall (world : World) (ref : ProviderRef) : Nat × World :=
  let called (provider : Provider) : Provider := { provider with calls := provider.calls + 1 }
  ((world.provider ref).calls,
    { world with
      providers := world.providers.update ref.index called
      calls := .provider ref :: world.calls })

/-- Gives a namespace a further name. -/
def nameSpace (world : World) (name : String) (ref : NamespaceRef) : World :=
  world.updateNames fun names => { names with spaces := names.spaces.put name ref }

/-- Forgets a name of a namespace; tells whether there was that name. -/
def dropSpace (world : World) (name : String) : Bool × World :=
  (world.names.spaces.contains name,
    world.updateNames fun names => { names with spaces := names.spaces.erase name })

/-- Forgets the name of a kept entry; tells whether there was that name. -/
def dropEntry (world : World) (name : String) : Bool × World :=
  (world.names.entries.contains name,
    world.updateNames fun names => { names with entries := names.entries.erase name })

/-- The binding called `name`; one that holds nothing, if there was none. -/
def bindingNamed (world : World) (name : String) : BindingRef × World :=
  match world.names.bindings.get? name with
  | some ref => (ref, world)
  | none =>
    let (ref, world) := world.newBinding none
    (ref, world.updateNames fun names => { names with bindings := names.bindings.put name ref })

/-- The module that the host has loaded, or has begun to load, under `id`. -/
def loaded? (world : World) (id : String) : Option ModuleRef :=
  world.names.loaded.get? id

/-- The id that the host finds for a specifier. -/
def resolve? (world : World) (specifier : String) : Option String :=
  let id := (world.host.aliases.get? specifier).getD specifier
  if world.host.bodies.contains id || world.host.failures.contains id ||
      (world.loaded? id).isSome then some id
  else none

/-- Forgets the names of a module; tells whether it had one. -/
def dropModule (world : World) (name : String) : Bool × World :=
  (world.names.modules.contains name,
    world.updateNames fun names =>
      { names with modules := names.modules.erase name, loaded := names.loaded.erase name })

end World

end ModuleLinkage.Ledger
