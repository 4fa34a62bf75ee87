import ModuleLinkage.Ledger.Description
import ModuleLinkage.Ledger.Lifetime
import ModuleLinkage.Ledger.Linking

/-!
Running programs. A command runs in one step, except that callbacks run programs again; how deep
these may be nested is bounded, so that every run ends.
-/

set_option autoImplicit false

namespace ModuleLinkage.Ledger

/-- Answers about the entry that `term` stands for, if there is one, and holds on to that entry. -/
def withEntry (term : EntryTerm) (answer : EntryRef → Effect Answer) : Effect Answer := do
  match ← term.find? with
  | some entry => Effect.holding [.entry entry] (answer entry)
  | none => return .noEntry

/-- Runs an effect for the module that `name` means, and holds on to that module. -/
def withModule (scope : Scope) (name : Option String) (action : ModuleRef → Effect Answer) :
    Effect Answer := do
  let module ← scope.module name
  Effect.holding [.module module] (action module)

/-- An effect that answers nothing. -/
def silently (action : Effect Unit) : Effect Answer := do
  action
  return .done

def createModule (name id : String) (isEnabled : Bool) : Effect Unit := do
  let module ← modifyGet (·.newModule id isEnabled)
  modify (·.updateNames fun names => { names with modules := names.modules.put name module })

def createNamespace (name : String) : Effect Unit := do
  let space ← modifyGet (·.newSpace false)
  modify (·.nameSpace name space)

def createBinding (scope : Scope) (name : String) (term : Option ValueTerm) : Effect Unit := do
  let value ← match term with
    | some term => pure (some (← term.evaluate scope))
    | none => pure none
  let binding ← modifyGet (·.newBinding value)
  modify (·.updateNames fun names => { names with bindings := names.bindings.put name binding })

def createImport (name specifier : String) (module : ModuleRef) : Effect Unit := do
  let pending ← modifyGet (·.newImport module specifier)
  modify (·.updateNames fun names => { names with imports := names.imports.put name pending })

def showModule (module : ModuleRef) : Effect Answer := do
  let record := (← get).module module
  let exports ← modifyGet (·.nameOfSpace record.exports)
  return .module
    { id := record.id
      isLoaded := record.isLoaded
      isEnabled := record.isEnabled
      exports
      description := (← get).describeModule module }

def showNamespace (ref : NamespaceRef) : Effect Answer := do
  let record := (← get).space ref
  let members ← showValues record.members.rows
  return .space
    { members
      isModule := record.isModule
      hasEntry := record.entry.isSome
      description := (← get).describeSpace ref }

def showBinding (name : String) : Effect Answer := do
  let binding ← findBinding name
  let value ← showOptional ((← get).binding binding)
  return .binding { value, description := (← get).describeBinding binding }

def inspect (value : Value) : Effect Answer := do
  let world ← get
  return .inspection
    { snapshot := world.snapshotValue value
      number := value.number?
      isNamespace := !value.spaces.isEmpty
      object := value.object?
      description := world.describeValue value }

def showEntry (entry : EntryRef) : Effect Answer := do
  let world ← get
  let record := world.entry entry
  let space ← match world.spaceOf? entry with
    | some ref => pure (some (← modifyGet (·.nameOfSpace ref)))
    | none => pure none
  return .entry
    { owner := (world.ownerOf? entry).map world.nameOfModule
      isLoaded := record.isLoaded
      batches := record.batches.length
      consumers := (world.consumersOf entry).map world.nameOfModule
      space
      description := world.describeEntry entry }

def openEntry (scope : Scope) (term : NamespaceTerm) (owner name : Option String) :
    Effect Unit := do
  let space ← term.find
  let entry ← match owner with
    | some owner =>
      let module ← scope.module (some owner)
      modifyGet (·.ownedEntryFor space module)
    | none => modifyGet (·.entryFor space)
  match name with
  | some name =>
    modify (·.updateNames fun names => { names with entries := names.entries.put name entry })
  | none => return ()

/-- The values of an entry. One whose namespace no longer exists has none. -/
def refreshKept (run : Runner) (entry : EntryRef) : Effect (List (String × Value)) := do
  match (← get).spaceOf? entry with
  | some _ => refresh run entry
  | none => return []

/-- A propagation round over an entry. One whose namespace no longer exists has nothing to
deliver. -/
def propagateKept (run : Runner) (entry : EntryRef) : Effect Unit := do
  match (← get).spaceOf? entry with
  | some _ => propagate run entry
  | none => return ()

/-- Polls a dynamic import. A namespace that it gives takes the import's name. -/
def pollNamed (run : Runner) (name : String) : Effect Answer := do
  let pending ← bound name ((← get).names.imports.get? name)
  let module := ((← get).dynamicImport pending).module
  match ← Effect.holding [.module module] (poll run pending) with
  | none => return .pending 1 ((← get).describeImport pending)
  | some space =>
    modify (·.nameSpace name space)
    let shown ← modifyGet (·.nameOfSpace space)
    return .ready shown ((← get).space space).isModule 0

/-- Runs one command. -/
def perform (run : Runner) (scope : Scope) : Command → Effect Answer
  | .createModule name id isEnabled => silently (createModule name id isEnabled)
  | .enable name => withModule scope name fun module =>
    return .flag (← modifyGet (·.enable module))
  | .dropModule name => return .flag (← modifyGet (·.dropModule name))
  | .showModule name => withModule scope name showModule
  | .sameModule first second =>
    return .flag ((← moduleNamed first) == (← moduleNamed second))
  | .setLoaded name loaded => withModule scope name fun module =>
    silently (modify (·.setLoaded module loaded))
  | .setExports name term => withModule scope name fun module => do
    let space ← term.find
    silently (modify (·.setExports module space))
  | .provide name terms isConstant => withModule scope name fun module => do
    let providers ← newProviders scope terms
    silently (provide run module (Table.ofList providers) isConstant)
  | .provideDefault name term => withModule scope name fun module => do
    let value ← term.evaluate scope
    silently (provideDefault run module value)
  | .watch name term subscription => withModule scope name fun module => do
    let space ← term.find
    let registration ← subscription.evaluate scope
    silently (subscribe module space registration)
  | .importNow name specifier subscription => withModule scope name fun module => do
    let registration ← subscription.evaluate scope
    silently (importNow run module specifier registration)
  | .importLater module specifier name => withModule scope module fun module =>
    silently (createImport name specifier module)
  | .poll name => pollNamed run name
  | .evaluate name lines => withModule scope name fun module =>
    let inner : Scope := { scope with current := name <|> scope.current }
    silently (evaluate run module (run inner "run" lines))
  | .propagate name term => withModule scope name fun module => do
    let value ← term.evaluate scope
    Effect.holding value.holdings (propagateExports run module)
    return .value (← showValue value)
  | .fail error => Effect.fail error
  | .createNamespace name => silently (createNamespace name)
  | .nameNamespace name term => do
    let space ← term.find
    silently (modify (·.nameSpace name space))
  | .dropNamespace name => return .flag (← modifyGet (·.dropSpace name))
  | .sameNamespace first second => return .flag ((← first.find) == (← second.find))
  | .setMember term name value => do
    let space ← term.find
    let value ← value.evaluate scope
    silently (modify (·.setMember space (name.evaluate scope) value))
  | .markModule term => do
    let space ← term.find
    silently (modify (·.markModule space))
  | .getMember term name => do
    let space ← term.find
    return .optional (← showOptional (((← get).space space).members.get? (name.evaluate scope)))
  | .removeMember term name => do
    let space ← term.find
    let removed := ((← get).space space).members.get? (name.evaluate scope)
    modify (·.removeMember space (name.evaluate scope))
    return .optional (← showOptional removed)
  | .hasMember term name => do
    let space ← term.find
    return .flag (((← get).space space).members.contains (name.evaluate scope))
  | .showNamespace term => do
    showNamespace (← term.find)
  | .snapshot term => do
    let space ← term.find
    return .snapshot ((← get).snapshot space)
  | .createBinding name term => silently (createBinding scope name term)
  | .setBinding name term => do
    let binding ← findBinding name
    let value ← term.evaluate scope
    silently (modify (·.setBinding binding value))
  | .showBinding name => showBinding name
  | .compare first second => do
    let first ← first.evaluate scope
    let second ← second.evaluate scope
    return .comparison (first.same second)
  | .showValue term => do
    inspect (← term.evaluate scope)
  | .openEntry term owner name => silently (openEntry scope term owner name)
  | .dropEntry name => return .flag (← modifyGet (·.dropEntry name))
  | .showEntry term => withEntry term showEntry
  | .sameEntry first second => do
    let firstEntry ← modifyGet (·.entryFor (← first.find))
    let secondEntry ← modifyGet (·.entryFor (← second.find))
    return .flag (firstEntry == secondEntry)
  | .ownedBy term name => withEntry term fun entry => withModule scope name fun module =>
    return .flag (((← get).entry entry).owner == some module)
  | .markLoaded term => withEntry term fun entry => silently (modify (·.markLoaded entry))
  | .addProviders term terms isConstant => withEntry term fun entry => do
    let providers ← newProviders scope terms
    silently (modify (·.addProviders entry (Table.ofList providers) isConstant))
  | .addConsumers term name subscription => withEntry term fun entry =>
    withModule scope name fun module => do
      let registration ← subscription.evaluate scope
      let consumers := registration.consumers.getD .empty
      silently (modify fun world =>
        world.addConsumers entry module consumers registration.key registration.spaces)
  | .refresh term => withEntry term fun entry => do
    return .values (← showValues (← refreshKept run entry))
  | .deliver term => withEntry term fun entry => silently (propagateKept run entry)
  | .describeCallbacks => return .text describeCallbacks

/-- Runs lines one after the other and reports each. A failure ends them, unless its line lets the
others go on. -/
def runLines (run : Runner) (scope : Scope) (label : String) : Program → Effect Unit
  | [] => return ()
  | line :: rest => do
    let outcome ← (perform run scope line.command).attempt
    Effect.report (.ran label line.name outcome)
    match outcome with
    | .ok _ => runLines run scope label rest
    | .error error =>
      if line.goesOn then runLines run scope label rest else Effect.fail error

/-- Runs programs in which callbacks are nested less than `depth` deep. -/
def runner : Nat → Runner
  | 0 => fun _ _ _ => throw .exhausted
  | depth + 1 => runLines (runner depth)

/-- What one line at the top did. -/
structure Outcome where
  outcome : Except Fault Answer
  /-- What happened on the way, first things first. -/
  events : List Event

/-- Runs one line at the top. -/
def World.step (depth : Nat) (world : World) (line : Line) : Outcome × World :=
  let action := perform (runner depth) {} line.command
  let (outcome, after) := action.run.run { world with events := [] }
  (⟨outcome, after.events.reverse⟩, after)

/-- Runs lines at the top one after the other, whatever becomes of them. -/
def World.steps (depth : Nat) (world : World) : Program → List Outcome
  | [] => []
  | line :: rest =>
    let (outcome, world) := world.step depth line
    outcome :: World.steps depth world rest

/-- How deep callbacks may be nested. -/
def nestingBound : Nat :=
  4096

/-- Runs a program in a new world. -/
def execute (host : Host) (program : Program) : List Outcome :=
  (World.ofHost host).steps nestingBound program

end ModuleLinkage.Ledger
