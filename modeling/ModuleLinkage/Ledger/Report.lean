import ModuleLinkage.Document
import ModuleLinkage.Ledger.Error

/-!
Reports: what commands answer and what happens on the way. Reports name namespaces and modules as
they are called at that moment.
-/

set_option autoImplicit false

namespace ModuleLinkage.Ledger

/-- A value with its namespace named. -/
inductive ShownValue where
  | undefined
  | null
  | bool (value : Bool)
  | number (value : Float)
  | text (value : String)
  | space (name : String)
  | object (name : String)
  deriving Repr, Inhabited

structure ModuleReport where
  id : String
  isLoaded : Bool
  isEnabled : Bool
  exports : String
  description : String
  deriving Repr

structure NamespaceReport where
  members : List (String × ShownValue)
  isModule : Bool
  hasEntry : Bool
  description : String
  deriving Repr

structure BindingReport where
  value : Option ShownValue
  description : String
  deriving Repr

structure ValueReport where
  snapshot : Document
  number : Option Float
  isNamespace : Bool
  object : Option String
  description : String

structure EntryReport where
  owner : Option String
  isLoaded : Bool
  batches : Nat
  consumers : List String
  /-- The namespace, while it exists. -/
  space : Option String
  description : String
  deriving Repr

/-- What a command answers. -/
inductive Answer where
  | done
  | flag (value : Bool)
  | value (value : ShownValue)
  | optional (value : Option ShownValue)
  | values (values : List (String × ShownValue))
  | comparison (same : Bool)
  | text (value : String)
  | module (report : ModuleReport)
  | space (report : NamespaceReport)
  | binding (report : BindingReport)
  | inspection (report : ValueReport)
  | entry (report : EntryReport)
  | snapshot (document : Document)
  /-- The namespace has no entry. -/
  | noEntry
  /-- A dynamic import that is not done, and how often the poll woke its caller. -/
  | pending (wakes : Nat) (description : String)
  | ready (space : String) (isModule : Bool) (wakes : Nat)
  deriving Inhabited

/-- What happens while a command runs. -/
inductive Event where
  /-- A provider that counts its calls was called. -/
  | counted (label : String) (call : Nat)
  /-- A consumer received a value. -/
  | received (label name : String) (value : ShownValue)
  /-- A line of the program called `label` has run. -/
  | ran (label line : String) (outcome : Except LinkError Answer)
  /-- The lines of a consumer failed. -/
  | consumerFailed (error : LinkError)

end ModuleLinkage.Ledger
