import ModuleLinkage.Scope.DeclaredNames
import ModuleLinkage.Scope.TargetNames
import ModuleLinkage.Text.Edit

/-!
Writes to exported variables. Every assignment, increment or decrement that writes an exported
variable becomes the argument of a call that tells the importers. A name that a scope around the
expression owns is another variable.
-/

set_option autoImplicit false

namespace ModuleLinkage.Lowering

open Syntax Text

/-- Whether one of `names` is exported and owned by no scope in between. -/
def writesExport (exported shadowed names : List String) : Bool :=
  names.any fun name => exported.contains name && !shadowed.contains name

/-- The two insertions that make what `span` covers the argument of a call. -/
def wrapping (reference : String) (span : Span) : List Edit :=
  [.insertion span.start (reference ++ ".runSetters(").toList, .insertion span.stop [')']]

mutual

/-- The insertions around the writes in a tree. `shadowed` holds the names that the scopes around
it own. -/
def wraps (reference : String) (exported shadowed : List String) : Node → List Edit
  | .mk span form parts =>
    match form with
    | .namespaceDeclaration true => []
    | _ =>
      let node := Node.mk span form parts
      let inner := listWraps reference exported (Scope.scopeNames node ++ shadowed) parts
      if writesExport exported shadowed (Scope.writtenNames node) then
        inner ++ wrapping reference span
      else inner

def listWraps (reference : String) (exported shadowed : List String) : List Node → List Edit
  | [] => []
  | node :: rest =>
    wraps reference exported shadowed node ++ listWraps reference exported shadowed rest

end

/-- The insertions around the writes of a program that exports the variables `exported`. -/
def programWraps (reference : String) (exported : List String) (program : Node) : List Edit :=
  wraps reference exported [] program

end ModuleLinkage.Lowering
