import ModuleLinkage.Ledger.Effect

/-!
The names under which reports show namespaces and modules, and values with such names.
-/

set_option autoImplicit false

namespace ModuleLinkage.Ledger

/-- The name of a namespace: the first name given to it, or else the first module that shows it. -/
def World.nameOfSpace? (world : World) (ref : NamespaceRef) : Option String :=
  match world.names.spaces.nameOf? (· == ref) with
  | some name => some name
  | none =>
    (world.names.modules.nameOf? fun module => (world.module module).exports == ref).map ("@" ++ ·)

/-- The name of a namespace. One that has none is given a numbered one. -/
def World.nameOfSpace (world : World) (ref : NamespaceRef) : String × World :=
  match world.nameOfSpace? ref with
  | some name => (name, world)
  | none =>
    let number := world.unnamed + 1
    let name := "#" ++ String.ofList (Nat.toDigits 10 number)
    (name, { world with unnamed := number }.nameSpace name ref)

/-- The first name of a module, or else its id. -/
def World.nameOfModule (world : World) (ref : ModuleRef) : String :=
  (world.names.modules.nameOf? (· == ref)).getD ("id:" ++ (world.module ref).id)

/-- A value as reports show it. -/
def showValue : Value → Effect ShownValue
  | .undefined => return .undefined
  | .null => return .null
  | .bool value => return .bool value
  | .number value => return .number value
  | .text value => return .text value
  | .object name => return .object name
  | .space ref => return .space (← modifyGet (·.nameOfSpace ref))

def showOptional : Option Value → Effect (Option ShownValue)
  | some value => return some (← showValue value)
  | none => return none

/-- Named values as reports show them. -/
def showValues : List (String × Value) → Effect (List (String × ShownValue))
  | [] => return []
  | (name, value) :: rest => do
    let shown ← showValue value
    return (name, shown) :: (← showValues rest)

end ModuleLinkage.Ledger
