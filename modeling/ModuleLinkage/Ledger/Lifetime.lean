import ModuleLinkage.Ledger.Entries

/-!
Which namespaces still exist. A thing exists while a name is bound to it or something that exists
keeps it; things that keep each other in a ring exist for ever. An entry does not keep its own
namespace.
-/

set_option autoImplicit false

namespace ModuleLinkage.Ledger

/-- What a value keeps. -/
def Value.holdings (value : Value) : List Holding :=
  value.spaces.map .space

def Scope.holdings (scope : Scope) : List Holding :=
  scope.received.toList.flatMap fun (value, _) => value.holdings

def Source.holdings : Source → List Holding
  | .value kept => kept.holdings
  | .binding ref => [.binding ref]
  | .counted _ _ scope => scope.holdings
  | .listed _ scope => scope.holdings
  | .failing _ => []
  | .computed _ _ scope => scope.holdings

def Consumer.holdings : Consumer → List Holding
  | .assign binding => [.binding binding]
  | .copyInto space => [.space space]
  | .callback _ _ scope => scope.holdings

def Slot.holdings (slot : Slot) : List Holding :=
  .provider slot.provider :: slot.cached.toList.flatMap Value.holdings

def Batch.holdings (batch : Batch) : List Holding :=
  batch.consumers.rows.flatMap (fun (_, consumer) => consumer.holdings) ++
    batch.spaces.map .space ++ batch.seen.flatMap (fun (_, value) => value.holdings)

def Entry.holdings (entry : Entry) : List Holding :=
  entry.slots.rows.flatMap (fun (_, slot) => slot.holdings) ++ entry.batches.map .batch

def Namespace.holdings (space : Namespace) : List Holding :=
  space.members.rows.flatMap (fun (_, value) => value.holdings) ++ space.entry.toList.map .entry

namespace World

/-- What a thing keeps. -/
def holdings (world : World) : Holding → List Holding
  | .space ref => (world.space ref).holdings
  | .module ref => [.space (world.module ref).exports]
  | .entry ref => (world.entry ref).holdings
  | .batch ref => (world.batch ref).holdings
  | .provider ref => (world.provider ref).source.holdings
  | .binding ref => (world.binding ref).toList.flatMap Value.holdings

/-- What names are bound to and running commands refer to. -/
def roots (world : World) : List Holding :=
  world.names.modules.rows.map (fun row => .module row.2) ++
    world.names.loaded.rows.map (fun row => .module row.2) ++
    world.names.imports.rows.map (fun row => .module (world.dynamicImport row.2).module) ++
    world.held ++
    world.names.spaces.rows.map (fun row => .space row.2) ++
    world.names.bindings.rows.map (fun row => .binding row.2) ++
    world.names.entries.rows.map (fun row => .entry row.2)

/-- Everything that was ever made and may keep something. -/
def everything (world : World) : List Holding :=
  (List.range world.spaces.size).map (fun index => .space ⟨index⟩) ++
    (List.range world.modules.size).map (fun index => .module ⟨index⟩) ++
    (List.range world.entries.size).map (fun index => .entry ⟨index⟩) ++
    (List.range world.batches.size).map (fun index => .batch ⟨index⟩) ++
    (List.range world.providers.size).map (fun index => .provider ⟨index⟩) ++
    (List.range world.bindings.size).map (fun index => .binding ⟨index⟩)

/-- Of `things`, those that a root is or that one of `things` keeps. -/
def stillHeld (world : World) (things : List Holding) : List Holding :=
  let held := world.roots ++ things.flatMap world.holdings
  things.filter held.contains

/-- What is left of `things` when whatever nothing keeps is given up, again and again. -/
def survivors (world : World) (things : List Holding) : List Holding :=
  let left := world.stillHeld things
  if left.length < things.length then world.survivors left else things
termination_by things.length

/-- The namespace of an entry, while it exists. -/
def spaceOf? (world : World) (ref : EntryRef) : Option NamespaceRef :=
  let space := (world.entry ref).space
  if (world.survivors world.everything).contains (.space space) then some space else none

end World

end ModuleLinkage.Ledger
