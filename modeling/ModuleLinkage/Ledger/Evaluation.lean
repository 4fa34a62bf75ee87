import ModuleLinkage.Ledger.Effect

/-!
What the terms of programs mean where they are run.
-/

set_option autoImplicit false

namespace ModuleLinkage.Ledger

/-- The thing that a table has under `name`. -/
def bound {α : Type} (name : String) : Option α → Effect α
  | some value => return value
  | none => throw (.unbound name)

def moduleNamed (name : String) : Effect ModuleRef := do
  bound name ((← get).names.modules.get? name)

/-- The module called `name`, or the current one where no name is given. -/
def Scope.module (scope : Scope) (name : Option String) : Effect ModuleRef := do
  match name <|> scope.current with
  | some name => moduleNamed name
  | none => throw (.unbound "")

def NamespaceTerm.find : NamespaceTerm → Effect NamespaceRef
  | .named name => do bound name ((← get).names.spaces.get? name)
  | .exportsOf name => do
    let module ← moduleNamed name
    return ((← get).module module).exports

/-- The binding called `name`, made where there is none. -/
def findBinding (name : String) : Effect BindingRef :=
  modifyGet (·.bindingNamed name)

/-- The name that a term stands for. Where nothing was received, the mark of a received name is a
name of its own. -/
def NameTerm.evaluate (scope : Scope) : NameTerm → String
  | .fixed name => name
  | .received => (scope.received.map (·.2)).getD "$name"

def ValueTerm.evaluate (scope : Scope) : ValueTerm → Effect Value
  | .undefined => return .undefined
  | .null => return .null
  | .bool value => return .bool value
  | .number value => return .number value
  | .text value => return .text value
  | .object name => return .object name
  | .space term => return .space (← term.find)
  | .binding name => do
    let ref ← findBinding name
    return ((← get).binding ref).getD .undefined
  | .receivedValue => bound "value" (scope.received.map (·.1))
  | .receivedName => bound "name" (scope.received.map fun received => .text received.2)

/-- The source of a new provider. -/
def ProviderTerm.source (scope : Scope) : ProviderTerm → Effect Source
  | .value term => return .value (← term.evaluate scope)
  | .binding name => return .binding (← findBinding name)
  | .counted label term => return .counted label term scope
  | .listed replies => return .listed replies scope
  | .failing message => return .failing message
  | .computed lines term => return .computed lines term scope

/-- New providers, by the names of what they provide. -/
def newProviders (scope : Scope) :
    List (NameTerm × ProviderTerm) → Effect (List (String × ProviderRef))
  | [] => return []
  | (name, term) :: rest => do
    let source ← term.source scope
    let ref ← modifyGet (·.newProvider source)
    return (name.evaluate scope, ref) :: (← newProviders scope rest)

def ConsumerTerm.consumer (scope : Scope) : ConsumerTerm → Effect Consumer
  | .assign name => return .assign (← findBinding name)
  | .copyInto space => return .copyInto (← space.find)
  | .callback label lines => return .callback label lines scope

/-- Consumers, by the names of what they consume. -/
def newConsumers (scope : Scope) :
    List (NameTerm × ConsumerTerm) → Effect (List (String × Consumer))
  | [] => return []
  | (name, term) :: rest => do
    let consumer ← term.consumer scope
    return (name.evaluate scope, consumer) :: (← newConsumers scope rest)

/-- What a module subscribes with. -/
structure Registration where
  consumers : Option (Table Consumer)
  key : Option String
  spaces : List NamespaceRef

def Subscription.evaluate (scope : Scope) (subscription : Subscription ConsumerTerm) :
    Effect Registration := do
  let consumers ← match subscription.consumers with
    | some terms => pure (some (Table.ofList (← newConsumers scope terms)))
    | none => pure none
  let spaces ← subscription.spaces.mapM NamespaceTerm.find
  return { consumers, key := subscription.key, spaces }

/-- The entry that a term stands for, if there is one. -/
def EntryTerm.find? : EntryTerm → Effect (Option EntryRef)
  | .kept name => return (← get).names.entries.get? name
  | .ofNamespace term => do
    let space ← term.find
    return ((← get).space space).entry

end ModuleLinkage.Ledger
