import ModuleLinkage.Syntax.Node

/-!
The names that assignment targets write. What is only read in a target, the objects of members,
computed keys and default values, writes nothing. In a target whose type is changed, the entities
that the type mentions count instead of the expression.
-/

set_option autoImplicit false

namespace ModuleLinkage.Scope

open Syntax

mutual

/-- The entities that a type mentions. Expressions inside types are left aside. -/
def typeReferences : Node → List String
  | .mk _ form parts =>
    match form with
    | .reference name => [name]
    | .type _ => listTypeReferences parts
    | .typeArguments => listTypeReferences parts
    | .typeParameters => listTypeReferences parts
    | .typeParameter => listTypeReferences parts
    | .parameters => listTypeReferences parts
    | .parameter => listTypeReferences parts
    | .thisParameter => listTypeReferences parts
    | _ => []

def listTypeReferences : List Node → List String
  | [] => []
  | node :: rest => typeReferences node ++ listTypeReferences rest

end

mutual

/-- The names that an assignment target writes, from left to right. -/
def targetNames : Node → List String
  | .mk _ form parts =>
    match form, parts with
    | .reference name, _ => [name]
    | .objectTarget, parts => allTargetNames parts
    | .arrayTarget, parts => allTargetNames parts
    | .propertyTarget, [_, target] => targetNames target
    | .shorthandTarget, reference :: _ => targetNames reference
    | .defaultTarget, target :: _ => targetNames target
    | .restTarget, [target] => targetNames target
    | .cast, [_, type] => typeReferences type
    | _, _ => []

def allTargetNames : List Node → List String
  | [] => []
  | target :: rest => targetNames target ++ allTargetNames rest

end

/-- The names that an expression writes itself, apart from the expressions inside it. -/
def writtenNames (node : Node) : List String :=
  match node.form, node.parts with
  | .assignment _, target :: _ => targetNames target
  | .update _, target :: _ => targetNames target
  | _, _ => []

end ModuleLinkage.Scope
