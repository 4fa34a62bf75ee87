import ModuleLinkage.Lowering.Registration
import ModuleLinkage.Scope.BoundNames
import ModuleLinkage.Text.Edit
import ModuleLinkage.Text.UniqueName
import ModuleLinkage.Unicode.Class

/-!
What is done about the module declarations of a program. Each of them, found anywhere in the tree,
gives edits that take it out of the text, and what it registers. Ambient namespaces describe other
modules and are left alone; what other namespaces export are members of theirs.
-/

set_option autoImplicit false

namespace ModuleLinkage.Lowering

open Syntax Text

/-- The text that is lowered, and the name of the module reference in it. -/
structure Subject where
  source : List Char
  reference : String
  deriving Inhabited

/-- One thing to do about a module declaration. -/
inductive Finding where
  | change (edit : Edit)
  | register (item : Export)
  | demand (request : Request)
  deriving Repr, Inhabited

namespace Finding

def edit? : Finding → Option Edit
  | .change edit => some edit
  | _ => none

def export? : Finding → Option Export
  | .register item => some item
  | _ => none

def request? : Finding → Option Request
  | .demand request => some request
  | _ => none

end Finding

/-- The first part of the form that `select` accepts. -/
def partBy? {α : Type} (select : Form → Option α) (node : Node) : Option α :=
  node.parts.findSome? fun part => select part.form

/-- The specifier of the module that a declaration requests. -/
def specifier? (declaration : Node) : Option String :=
  partBy? (fun form => match form with | .moduleSource value => some value | _ => none) declaration

/-! ### Imports -/

/-- The imported name and the variable of an import specifier. -/
def importedPair? (specifier : Node) : Option (String × String) :=
  match specifier.form, specifier.parts with
  | .importDefault, [binding] => binding.name?.map fun name => ("default", name)
  | .importName false, [imported, binding] => do return (← imported.name?, ← binding.name?)
  | _, _ => none

/-- The variable of an import of all exports. -/
def importedNamespace? (specifier : Node) : Option String :=
  match specifier.form, specifier.parts with
  | .importNamespace, [binding] => binding.name?
  | _, _ => none

/-- Whether a specifier imports a type. -/
def importsType (specifier : Node) : Bool :=
  match specifier.form with
  | .importName typeOnly => typeOnly
  | _ => false

/-- The request that an import makes; an import of types alone makes none. -/
def importRequest? (declaration : Node) : Option Request :=
  let names := declaration.parts.filterMap importedPair?
  let namespaces := declaration.parts.filterMap importedNamespace?
  if names.isEmpty && namespaces.isEmpty && declaration.parts.any importsType then none
  else
    (specifier? declaration).map fun specifier =>
      ⟨declaration.span.start, specifier, .bindings names namespaces⟩

/-! ### Exports -/

/-- The local and the exported name of an item of a list of exports. -/
def exportedPair? (item : Node) : Option (String × String) :=
  match item.form, item.parts with
  | .exportName false, [inner, exported] => do return (← inner.name?, ← exported.name?)
  | _, _ => none

/-- What a list of exports registers: a request if it is from another module, exports of variables
elsewhere. -/
def exportListFindings (declaration : Node) : List Finding :=
  let pairs := declaration.parts.filterMap exportedPair?
  match specifier? declaration with
  | some specifier =>
    if pairs.isEmpty then []
    else [.demand ⟨declaration.span.start, specifier, .reExport pairs⟩]
  | none => pairs.map fun (inner, exported) => .register ⟨exported, inner⟩

/-- The use of another module all of which is exported. -/
def exportAllUse (declaration : Node) : RequestUse :=
  match declaration.parts with
  | first :: _ =>
    match first.form, first.name? with
    | .moduleSource _, _ => .reExportAll
    | _, some exported => .reExportNamespace exported
    | _, none => .reExportAll
  | [] => .reExportAll

/-- The exports that a declaration behind `export` makes. -/
def declaredExports (declaration : Node) : List Finding :=
  (Scope.declarationNames declaration).map fun name => .register ⟨name, name⟩

/-! ### Default exports -/

/-- The name that an anonymous default export gets. -/
def defaultName (subject : Subject) : List Char :=
  uniqueName (subject.reference ++ "Default").toList subject.source

/-- What names an anonymous function when it is put at `offset`: the name, behind a blank unless
one stands there. -/
def spacedName (subject : Subject) (offset : Nat) (name : List Char) : List Char :=
  match (takeBytes offset subject.source).getLast? with
  | some c => if Unicode.isBlank c then name else ' ' :: name
  | none => ' ' :: name

/-- Where the name of an anonymous function goes: before its type parameters or parameters. -/
def functionNameOffset (function : Node) : Nat :=
  let isPart (part : Node) : Bool :=
    match part.form with
    | .typeParameters | .parameters => true
    | _ => false
  ((function.parts.find? isPart).map fun part => part.span.start).getD function.span.start

/-- How far into `text` the first `word` reaches. -/
def endOfFirst? (word : List Char) : List Char → Option Nat
  | [] => none
  | c :: rest =>
    if word.isPrefixOf (c :: rest) then some (width word)
    else (endOfFirst? word rest).map fun bytes => c.utf8Size + bytes

/-- Where the name of an anonymous class goes: behind the word `class`, which stands behind any
decorators. -/
def classNameOffset (subject : Subject) (definition : Node) : Nat :=
  let isDecorator (part : Node) : Bool :=
    match part.form with
    | .decorator => true
    | _ => false
  let decorators := definition.parts.filter isDecorator
  let start := (decorators.getLast?.map fun part => part.span.stop).getD definition.span.start
  match endOfFirst? "class".toList (dropBytes start subject.source) with
  | some bytes => start + bytes
  | none => start

/-- What is done about a default export. A function or class stays as a declaration, named if it
has no name, and an expression becomes the argument of a call. -/
def exportDefaultFindings (subject : Subject) (declaration : Node) : List Finding :=
  match declaration.parts with
  | [inner] =>
    let before : Span := ⟨declaration.span.start, inner.span.start⟩
    let removal := Finding.change (.removal subject.source before)
    match inner.form with
    | .function .declaration _ =>
      match inner.ownName? with
      | some name => [removal, .register ⟨"default", name⟩]
      | none =>
        let name := defaultName subject
        let offset := functionNameOffset inner
        [removal, .change (.insertion offset (spacedName subject offset name)),
          .register ⟨"default", String.ofList name⟩]
    | .classDefinition .declaration _ =>
      match inner.ownName? with
      | some name => [removal, .register ⟨"default", name⟩]
      | none =>
        let name := defaultName subject
        [removal, .change (.insertion (classNameOffset subject inner) (' ' :: name)),
          .register ⟨"default", String.ofList name⟩]
    | .interface => [removal]
    | _ =>
      [.change (.replacement before (subject.reference ++ ".exportDefault(").toList),
        .change (.insertion inner.span.stop [')'])]
  | _ => []

/-! ### The whole tree -/

/-- What is done about a node itself. Inside a namespace an `export` makes a member. -/
def nodeFindings (subject : Subject) (inNamespace : Bool) (node : Node) : List Finding :=
  let removal := Finding.change (.removal subject.source node.span)
  match node.form, node.parts with
  | .importDeclaration true, _ => [removal]
  | .importDeclaration false, _ => removal :: ((importRequest? node).map .demand).toList
  | .exportDeclaration typeOnly, [declaration] =>
    if inNamespace then []
    else
      .change (.removal subject.source ⟨node.span.start, declaration.span.start⟩) ::
        (if typeOnly then [] else declaredExports declaration)
  | .exportNames typeOnly, _ =>
    if inNamespace then []
    else removal :: (if typeOnly then [] else exportListFindings node)
  | .exportDefault, _ => exportDefaultFindings subject node
  | .exportAll true, _ => [removal]
  | .exportAll false, _ =>
    removal ::
      ((specifier? node).map fun specifier =>
        .demand ⟨node.span.start, specifier, exportAllUse node⟩).toList
  | .importCall, _ =>
    [.change (.replacement ⟨node.span.start, node.span.start + "import".length⟩
      (subject.reference ++ ".import").toList)]
  | _, _ => []

mutual

/-- What is done about the module declarations in a tree, in source order. -/
def findings (subject : Subject) (inNamespace : Bool) : Node → List Finding
  | .mk span form parts =>
    match form with
    | .namespaceDeclaration true => []
    | .namespaceDeclaration false => listFindings subject true parts
    | _ =>
      nodeFindings subject inNamespace (.mk span form parts) ++
        listFindings subject inNamespace parts

def listFindings (subject : Subject) (inNamespace : Bool) : List Node → List Finding
  | [] => []
  | node :: rest => findings subject inNamespace node ++ listFindings subject inNamespace rest

end

/-- What is done about the module declarations of a program. -/
def programFindings (subject : Subject) (program : Node) : List Finding :=
  findings subject false program

end ModuleLinkage.Lowering
