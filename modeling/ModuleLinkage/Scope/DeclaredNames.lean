import ModuleLinkage.Scope.BoundNames

/-!
The names that scopes own. A block owns what its own statements declare lexically; the body of a
function owns besides every `var` inside it that no nested function, class or namespace takes.
-/

set_option autoImplicit false

namespace ModuleLinkage.Scope

open Syntax

/-- The names that a statement declares in the block that it stands in. -/
def lexicalNames (statement : Node) : List String :=
  match statement.form with
  | .variableDeclaration .var _ => []
  | .variableDeclaration _ _ => variableNames statement
  | .function .declaration _ => statement.ownName?.toList
  | .classDefinition .declaration _ => statement.ownName?.toList
  | _ => []

mutual

/-- The names of the `var` declarations in a node that belong to the function around it. -/
def varNames : Node → List String
  | .mk span form parts =>
    match form with
    | .variableDeclaration .var _ => variableNames (.mk span form parts)
    | .variableDeclaration _ _ => []
    | .function _ _ => []
    | .arrow => []
    | .classDefinition _ _ => []
    | .namespaceDeclaration _ => []
    | _ => listVarNames parts

def listVarNames : List Node → List String
  | [] => []
  | node :: rest => varNames node ++ listVarNames rest

end

/-- The names that a block with the given statements owns. -/
def blockNames (statements : List Node) : List String :=
  statements.flatMap lexicalNames

/-- The names that the body of a function with the given statements owns. -/
def functionNames (statements : List Node) : List String :=
  blockNames statements ++ listVarNames statements

mutual

/-- Every name that is bound anywhere in a node. -/
def bindingNames : Node → List String
  | .mk _ form parts =>
    match form with
    | .binding name => name :: listBindingNames parts
    | _ => listBindingNames parts

def listBindingNames : List Node → List String
  | [] => []
  | node :: rest => bindingNames node ++ listBindingNames rest

end

/-- Whether a part of a list of parameters gives the type of `this`. -/
def isThisParameter (node : Node) : Bool :=
  match node.form with
  | .thisParameter => true
  | _ => false

/-- The names that a part of a function or arrow function binds inside it: all that are bound
anywhere in its parameters, and all that its body owns. -/
def functionPartNames (part : Node) : List String :=
  match part.form with
  | .parameters => listBindingNames (part.parts.filter fun parameter => !isThisParameter parameter)
  | .body => functionNames part.parts
  | _ => []

/-- The names that a case of a switch declares. -/
def caseNames (part : Node) : List String :=
  match part.form, part.parts with
  | .switchCase, _ :: statements => blockNames statements
  | .defaultCase, statements => blockNames statements
  | _, _ => []

/-- The names that the head of a loop declares for the loop alone. -/
def headNames (part : Node) : List String :=
  match part.form, part.parts with
  | .loopStart, [declaration] => lexicalNames declaration
  | .variableDeclaration _ _, _ => lexicalNames part
  | _, _ => []

/-- The names that the first part of a loop declares for the loop alone. -/
def loopNames (parts : List Node) : List String :=
  match parts with
  | first :: _ => headNames first
  | [] => []

/-- The names that a statement of a namespace makes its members. -/
def memberNames (statement : Node) : List String :=
  match statement.form, statement.parts with
  | .exportDeclaration _, [declaration] => declarationNames declaration
  | _, _ => []

/-- The names that a part of a namespace binds inside it. -/
def namespacePartNames (part : Node) : List String :=
  match part.form with
  | .namespaceBody => functionNames part.parts ++ part.parts.flatMap memberNames
  | _ => []

/-- The names that a node opens a scope for, in all that stands inside it. -/
def scopeNames (node : Node) : List String :=
  match node.form with
  | .function .expression _ => node.ownName?.toList ++ node.parts.flatMap functionPartNames
  | .function .declaration _ => node.parts.flatMap functionPartNames
  | .arrow => node.parts.flatMap functionPartNames
  | .block => blockNames node.parts
  | .switchStatement => node.parts.flatMap caseNames
  | .forLoop => loopNames node.parts
  | .forInLoop => loopNames node.parts
  | .forOfLoop => loopNames node.parts
  | .catchClause =>
    match node.parts with
    | parameter :: _ =>
      match parameter.form, parameter.parts with
      | .catchParameter, pattern :: _ => patternNames pattern
      | _, _ => []
    | [] => []
  | .namespaceDeclaration false => node.parts.flatMap namespacePartNames
  | _ => []

end ModuleLinkage.Scope
