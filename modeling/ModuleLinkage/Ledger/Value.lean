/-!
Values that exports hold. Namespaces, variables and the other things that change are named by
references; two references are the same thing exactly if they are equal. An object of the host is
told from others by its name.
-/

set_option autoImplicit false

namespace ModuleLinkage.Ledger

/-- A namespace: the object that shows a module's exports to importers. -/
structure NamespaceRef where
  index : Nat
  deriving Repr, DecidableEq, Inhabited

/-- A module record. -/
structure ModuleRef where
  index : Nat
  deriving Repr, DecidableEq, Inhabited

/-- The ledger entry of a namespace. -/
structure EntryRef where
  index : Nat
  deriving Repr, DecidableEq, Inhabited

/-- A batch of setters registered together. -/
structure BatchRef where
  index : Nat
  deriving Repr, DecidableEq, Inhabited

/-- A provider of an export's current value. -/
structure ProviderRef where
  index : Nat
  deriving Repr, DecidableEq, Inhabited

/-- A variable of a module. -/
structure BindingRef where
  index : Nat
  deriving Repr, DecidableEq, Inhabited

/-- A dynamic import under way. -/
structure ImportRef where
  index : Nat
  deriving Repr, DecidableEq, Inhabited

inductive Value where
  | undefined
  | null
  | bool (value : Bool)
  | number (value : Float)
  | text (value : String)
  | space (value : NamespaceRef)
  | object (name : String)
  deriving Repr, Inhabited

/-- Whether two numbers are the same: what is no number is the same as itself, and the two zeros
differ. -/
def sameNumber (first second : Float) : Bool :=
  (first.isNaN && second.isNaN) || first.toBits == second.toBits

namespace Value

/-- Whether two values are the same. -/
def same : Value → Value → Bool
  | undefined, undefined => true
  | null, null => true
  | bool a, bool b => a == b
  | number a, number b => sameNumber a b
  | text a, text b => a == b
  | space a, space b => a == b
  | object a, object b => a == b
  | _, _ => false

/-- The namespaces that a value is. -/
def spaces : Value → List NamespaceRef
  | space value => [value]
  | _ => []

def number? : Value → Option Float
  | number value => some value
  | _ => none

/-- The name of the host object that a value is. -/
def object? : Value → Option String
  | object name => some name
  | _ => none

end Value

end ModuleLinkage.Ledger
