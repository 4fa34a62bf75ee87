import ModuleLinkage.Ledger.Error

/-!
Programs: what module bodies, providers and consumers do. A program is a list of lines, each of
which is one command. Everything in it is named; what a name means is found out when it runs.
-/

set_option autoImplicit false

namespace ModuleLinkage.Ledger

/-- A namespace, by its own name or as the current exports of a module. -/
inductive NamespaceTerm where
  | named (name : String)
  | exportsOf (module : String)
  deriving Repr, DecidableEq, Inhabited

/-- An entry that is kept under a name, or the one that a namespace has. -/
inductive EntryTerm where
  | kept (name : String)
  | ofNamespace (space : NamespaceTerm)
  deriving Repr, DecidableEq, Inhabited

/-- A name, or the name that a consumer received. -/
inductive NameTerm where
  | fixed (name : String)
  | received
  deriving Repr, DecidableEq, Inhabited

/-- An expression for a value. -/
inductive ValueTerm where
  | undefined
  | null
  | bool (value : Bool)
  | number (value : Float)
  | text (value : String)
  | space (space : NamespaceTerm)
  | object (name : String)
  /-- What a binding holds, undefined while it holds nothing. -/
  | binding (name : String)
  /-- The value that a consumer received. -/
  | receivedValue
  /-- The name that a consumer received. -/
  | receivedName
  deriving Repr, Inhabited

/-- One answer of a provider whose answers are listed. -/
inductive Reply where
  | value (value : ValueTerm)
  | failure (message : String)
  deriving Repr, Inhabited

/-- How a module subscribes to a namespace: consumers by name, the key that makes a later
subscription replace this one, and namespaces that receive what is delivered. -/
structure Subscription (Consumer : Type) where
  consumers : Option (List (NameTerm × Consumer))
  key : Option String
  spaces : List NamespaceTerm
  deriving Inhabited

mutual

/-- A provider of a value. -/
inductive ProviderTerm where
  | value (value : ValueTerm)
  | binding (name : String)
  /-- Counts its calls under `label`; without a value of its own it gives the count. -/
  | counted (label : String) (value : Option ValueTerm)
  /-- The replies one after the other, the last one again and again. -/
  | listed (replies : List Reply)
  | failing (message : String)
  /-- Runs lines and then gives the value. -/
  | computed (lines : List Line) (value : ValueTerm)

/-- A consumer of values. -/
inductive ConsumerTerm where
  /-- Puts every value into a binding. -/
  | assign (binding : String)
  /-- Puts every value into a namespace, under the name that comes with it. -/
  | copyInto (space : NamespaceTerm)
  /-- Reports what it receives if it has a label, then runs lines. -/
  | callback (label : Option String) (lines : List Line)

/-- A command, the name under which reports show it, and whether its failure lets the lines after it
run. -/
inductive Line where
  | mk (name : String) (command : Command) (goesOn : Bool)

/-- What a line does. Where a command may leave its module out, the current module is meant. -/
inductive Command where
  | createModule (module id : String) (enabled : Bool)
  | enable (module : Option String)
  | dropModule (module : String)
  | showModule (module : Option String)
  | sameModule (first second : String)
  | setLoaded (module : Option String) (loaded : Bool)
  | setExports (module : Option String) (space : NamespaceTerm)
  | provide (module : Option String) (providers : List (NameTerm × ProviderTerm)) (constant : Bool)
  | provideDefault (module : Option String) (value : ValueTerm)
  | watch (module : Option String) (space : NamespaceTerm)
      (subscription : Subscription ConsumerTerm)
  | importNow (module : Option String) (specifier : String)
      (subscription : Subscription ConsumerTerm)
  | importLater (module : Option String) (specifier name : String)
  | poll (name : String)
  | evaluate (module : Option String) (lines : List Line)
  | propagate (module : Option String) (value : ValueTerm)
  | fail (error : LinkError)
  | createNamespace (name : String)
  | nameNamespace (name : String) (space : NamespaceTerm)
  | dropNamespace (name : String)
  | sameNamespace (first second : NamespaceTerm)
  | setMember (space : NamespaceTerm) (name : NameTerm) (value : ValueTerm)
  | markModule (space : NamespaceTerm)
  | getMember (space : NamespaceTerm) (name : NameTerm)
  | removeMember (space : NamespaceTerm) (name : NameTerm)
  | hasMember (space : NamespaceTerm) (name : NameTerm)
  | showNamespace (space : NamespaceTerm)
  | snapshot (space : NamespaceTerm)
  | createBinding (name : String) (value : Option ValueTerm)
  | setBinding (name : String) (value : ValueTerm)
  | showBinding (name : String)
  | compare (first second : ValueTerm)
  | showValue (value : ValueTerm)
  | openEntry (space : NamespaceTerm) (owner name : Option String)
  | dropEntry (name : String)
  | showEntry (entry : EntryTerm)
  | sameEntry (first second : NamespaceTerm)
  | ownedBy (entry : EntryTerm) (module : Option String)
  | markLoaded (entry : EntryTerm)
  | addProviders (entry : EntryTerm) (providers : List (NameTerm × ProviderTerm)) (constant : Bool)
  | addConsumers (entry : EntryTerm) (module : Option String)
      (subscription : Subscription ConsumerTerm)
  | refresh (entry : EntryTerm)
  | deliver (entry : EntryTerm)
  | describeCallbacks

end

instance : Inhabited Command := ⟨.describeCallbacks⟩

instance : Inhabited Line := ⟨.mk "" default false⟩

instance : Inhabited ProviderTerm := ⟨.failing ""⟩

instance : Inhabited ConsumerTerm := ⟨.callback none []⟩

/-- A list of lines, run one after the other. -/
abbrev Program := List Line

def Line.name : Line → String
  | mk name _ _ => name

def Line.command : Line → Command
  | mk _ command _ => command

def Line.goesOn : Line → Bool
  | mk _ _ goesOn => goesOn

end ModuleLinkage.Ledger
