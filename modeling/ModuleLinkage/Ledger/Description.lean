import ModuleLinkage.Decimal.Shortest
import ModuleLinkage.Ledger.Entries
import ModuleLinkage.Ledger.Snapshot
import ModuleLinkage.Unicode.Class

/-!
Descriptions: texts that show the state of a thing to a person.
-/

set_option autoImplicit false

namespace ModuleLinkage.Ledger

/-- A character inside a quoted text: what cannot be seen stands as its number. -/
def describeChar : Char → List Char
  | '"' => ['\\', '"']
  | '\\' => ['\\', '\\']
  | '\n' => ['\\', 'n']
  | '\r' => ['\\', 'r']
  | '\t' => ['\\', 't']
  | '\x00' => ['\\', '0']
  | c =>
    if Unicode.isDisplayed c then [c]
    else ['\\', 'u', '\x7b'] ++ Nat.toDigits 16 c.toNat ++ ['\x7d']

def describeText (text : String) : String :=
  String.ofList ('"' :: text.toList.flatMap describeChar ++ ['"'])

def describeBool (value : Bool) : String :=
  if value then "true" else "false"

def describeList (items : List String) : String :=
  "[" ++ ", ".intercalate items ++ "]"

/-- A record with named fields. -/
def describeRecord (name : String) (fields : List (String × String)) : String :=
  name ++ " \x7b " ++ ", ".intercalate (fields.map fun (key, value) => key ++ ": " ++ value) ++
    " \x7d"

def describeNumber (value : Float) : String :=
  String.ofList (Decimal.ofFloat value)

namespace World

def describeSpace (world : World) (ref : NamespaceRef) : String :=
  let space := world.space ref
  describeRecord "Namespace" [("es_module", describeBool space.isModule),
    ("names", describeList (space.members.names.map describeText))]

def describeValue (world : World) : Value → String
  | .undefined => "undefined"
  | .null => "null"
  | .bool value => describeBool value
  | .number value => describeNumber value
  | .text value => describeText value
  | .space ref => world.describeSpace ref
  | .object _ => objectText

def describeBinding (world : World) (ref : BindingRef) : String :=
  "Binding(" ++ ((world.binding ref).map world.describeValue).getD "<uninitialized>" ++ ")"

def describeModule (world : World) (ref : ModuleRef) : String :=
  let module := world.module ref
  describeRecord "Module" [("id", describeText module.id),
    ("loaded", describeBool module.isLoaded), ("enabled", describeBool module.isEnabled)]

def describeEntry (world : World) (ref : EntryRef) : String :=
  let entry := world.entry ref
  let owner := (world.ownerOf? ref).map fun module => describeText (world.module module).id
  describeRecord "Entry"
    [("owner", (owner.map fun id => "Some(" ++ id ++ ")").getD "None"),
      ("loaded", describeBool entry.isLoaded),
      ("getters", describeList (entry.slots.names.map describeText)),
      ("setter_batches", String.ofList (Nat.toDigits 10 entry.batches.length))]

def describeImport (world : World) (ref : ImportRef) : String :=
  let pending := world.dynamicImport ref
  describeRecord "DynamicImport" [("module", describeText (world.module pending.module).id),
    ("specifier", describeText pending.specifier)]

end World

/-- What a provider and a consumer are described as. -/
def describeCallbacks : String :=
  "Getter Setter"

end ModuleLinkage.Ledger
