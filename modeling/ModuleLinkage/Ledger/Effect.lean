import ModuleLinkage.Ledger.World

/-!
Effects: what changes the world and may fail. A failure keeps the changes made before it.
-/

set_option autoImplicit false

namespace ModuleLinkage.Ledger

/-- A computation that changes the world and gives a value or a fault. -/
abbrev Effect (α : Type) : Type :=
  ExceptT Fault (StateM World) α

/-- Runs a program: the scope in which it runs, the name that reports give it, and its lines. -/
abbrev Runner : Type :=
  Scope → String → Program → Effect Unit

namespace Effect

variable {α : Type}

def fail (error : LinkError) : Effect α :=
  throw (.failed error)

/-- The outcome of an effect as a value. -/
def observe (action : Effect α) : Effect (Except Fault α) :=
  ExceptT.mk (Except.ok <$> action.run)

/-- The outcome of an effect as a value, if it succeeds or fails by an error that programs can
meet. -/
def attempt (action : Effect α) : Effect (Except LinkError α) := do
  match ← action.observe with
  | .ok value => return .ok value
  | .error (.failed error) => return .error error
  | .error fault => throw fault

/-- Runs an effect while holding on to some things. -/
def holding (things : List Holding) (action : Effect α) : Effect α := do
  let outer := (← get).held
  modify fun world => { world with held := things ++ outer }
  let outcome ← action.observe
  modify fun world => { world with held := outer }
  ExceptT.mk (pure outcome)

def report (event : Event) : Effect Unit :=
  modify (·.addEvent event)

end Effect

end ModuleLinkage.Ledger
