import ModuleLinkage.Document
import ModuleLinkage.Text.Quoted

/-!
Compile options: how the source is to be read, the name of the module reference in generated code,
and the grammars that are switched on. Options are read from a document, in which every field has a
default; the alias is checked to be a plain identifier, because generated code holds it verbatim.
-/

set_option autoImplicit false

namespace ModuleLinkage

/-- How a source text is to be read; `unambiguous` leaves the choice to its contents. -/
inductive SourceGoal where
  | script
  | module
  | unambiguous
  deriving Repr, DecidableEq, Inhabited

/-- What a source text turned out to be. -/
inductive SourceKind where
  | script
  | module
  deriving Repr, DecidableEq, Inhabited

namespace SourceGoal

def ofName? : String → Option SourceGoal
  | "script" => some .script
  | "module" => some .module
  | "unambiguous" => some .unambiguous
  | _ => none

def name : SourceGoal → String
  | .script => "script"
  | .module => "module"
  | .unambiguous => "unambiguous"

/-- A goal is written as its name, or as an object whose one key is the name and whose value is
null. -/
def ofDocument? : Document → Option SourceGoal
  | .text name => ofName? name
  | .object [(name, .null)] => ofName? name
  | _ => none

@[simp] theorem ofName?_name (goal : SourceGoal) : ofName? goal.name = some goal := by
  cases goal <;> rfl

end SourceGoal

def SourceKind.name : SourceKind → String
  | .script => "script"
  | .module => "module"

/-- Why options are refused. -/
inductive OptionsError where
  /-- The document does not have the shape of options. -/
  | malformed
  /-- The alias is not a plain identifier. -/
  | invalidAlias (reference : String)
  deriving Repr, DecidableEq

structure CompileOptions where
  sourceGoal : SourceGoal := .unambiguous
  /-- The preferred name of the module reference in generated code. -/
  moduleAlias : String := "module"
  jsx : Bool := false
  typescript : Bool := false
  deriving Repr, DecidableEq, Inhabited

namespace CompileOptions

/-- Generated code holds the alias verbatim, so it has to be a plain identifier. -/
def validate (options : CompileOptions) : Except OptionsError Unit :=
  if Text.isPlainIdentifier options.moduleAlias.toList then .ok ()
  else .error (.invalidAlias options.moduleAlias)

def textOf? : Document → Option String
  | .text value => some value
  | _ => none

def boolOf? : Document → Option Bool
  | .bool value => some value
  | _ => none

/-- A missing value gives the default; a value that is there has to be readable. -/
def readOr {α : Type} (default : α) (read? : Document → Option α) :
    Option Document → Except OptionsError α
  | none => .ok default
  | some value => (read? value).elim (.error .malformed) .ok

/-- Options from the values of the four fields. -/
def ofFields (sourceGoal moduleAlias jsx typescript : Option Document) :
    Except OptionsError CompileOptions := do
  let defaults : CompileOptions := {}
  let sourceGoal ← readOr defaults.sourceGoal SourceGoal.ofDocument? sourceGoal
  let moduleAlias ← readOr defaults.moduleAlias textOf? moduleAlias
  let jsx ← readOr defaults.jsx boolOf? jsx
  let typescript ← readOr defaults.typescript boolOf? typescript
  return { sourceGoal, moduleAlias, jsx, typescript }

/-- The shape of options: null for the defaults, an object with any of the four fields, or a list
of at most four values in the order of the fields. -/
def ofShape : Document → Except OptionsError CompileOptions
  | .null => .ok {}
  | .object fields =>
    let document := Document.object fields
    ofFields (document.field? "sourceType") (document.field? "moduleAlias")
      (document.field? "jsx") (document.field? "typescript")
  | .list items =>
    if items.length ≤ 4 then ofFields items[0]? items[1]? items[2]? items[3]?
    else .error .malformed
  | _ => .error .malformed

/-- Reads options and checks the alias. -/
def ofDocument (document : Document) : Except OptionsError CompileOptions := do
  let options ← ofShape document
  options.validate
  return options

end CompileOptions

end ModuleLinkage
