/-!
What the module declarations of a program register: the names that it exports from its own scope,
and the modules that it requests together with what becomes of their exports.
-/

set_option autoImplicit false

namespace ModuleLinkage.Lowering

/-- A name under which a variable of the module is exported. -/
structure Export where
  exported : String
  localName : String
  deriving Repr, DecidableEq, Inhabited

/-- What becomes of the exports of a requested module. -/
inductive RequestUse where
  /-- They are imported: each name of `names` into the variable beside it, and all of them into
  each of `namespaces`. -/
  | bindings (names : List (String × String)) (namespaces : List String)
  /-- Each name of `names` is exported again, under the name beside it. -/
  | reExport (names : List (String × String))
  /-- All of them but the default one are exported again. -/
  | reExportAll
  /-- An object of all of them is exported as `exported`. -/
  | reExportNamespace (exported : String)
  deriving Repr, DecidableEq, Inhabited

/-- A module that the program requests, with the offset of the declaration that requests it. -/
structure Request where
  offset : Nat
  specifier : String
  use : RequestUse
  deriving Repr, DecidableEq, Inhabited

namespace Request

/-- The pairs of imported names and variables of a request. -/
def importedVariables (request : Request) : List (String × String) :=
  match request.use with
  | .bindings names _ => names
  | _ => []

/-- The namespace variables of a request. -/
def importedNamespaces (request : Request) : List String :=
  match request.use with
  | .bindings _ namespaces => namespaces
  | _ => []

end Request

end ModuleLinkage.Lowering
