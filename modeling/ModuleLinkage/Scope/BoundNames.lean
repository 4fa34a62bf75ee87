import ModuleLinkage.Syntax.Node

/-!
The names that patterns and declarations bind.
-/

set_option autoImplicit false

namespace ModuleLinkage.Scope

open Syntax

mutual

/-- The names that a pattern binds, from left to right. Keys and default values bind nothing. -/
def patternNames : Node → List String
  | .mk _ form parts =>
    match form, parts with
    | .binding name, _ => [name]
    | .objectPattern, parts => allPatternNames parts
    | .arrayPattern, parts => allPatternNames parts
    | .propertyPattern, [_, value] => patternNames value
    | .defaultPattern, target :: _ => patternNames target
    | .restPattern, [target] => patternNames target
    | _, _ => []

def allPatternNames : List Node → List String
  | [] => []
  | pattern :: rest => patternNames pattern ++ allPatternNames rest

end

/-- The names that a declarator binds. -/
def declaratorNames (declarator : Node) : List String :=
  match declarator.parts with
  | pattern :: _ => patternNames pattern
  | [] => []

/-- The names that a declaration of variables binds. -/
def variableNames (declaration : Node) : List String :=
  declaration.parts.flatMap declaratorNames

mutual

/-- Whether a statement only describes types or what exists elsewhere, so that nothing is left of it
at run time: types, ambient variables, lists of exports, and namespaces without any other
statement. -/
def isErased : Node → Bool
  | .mk _ form parts =>
    match form, parts with
    | .typeAlias, _ => true
    | .interface, _ => true
    | .variableDeclaration _ ambient, _ => ambient
    | .exportNames _, _ => true
    | .exportDeclaration _, [declaration] => isErased declaration
    | .namespaceDeclaration true, _ => true
    | .namespaceDeclaration false, [_, body] => isErased body
    | .namespaceDeclaration false, _ => true
    | .namespaceBody, statements => allErased statements
    | _, _ => false

def allErased : List Node → Bool
  | [] => true
  | statement :: rest => isErased statement && allErased rest

end

/-- The names that a declaration introduces at run time. Ambient declarations and those of types
introduce none. -/
def declarationNames (declaration : Node) : List String :=
  match declaration.form with
  | .variableDeclaration _ false => variableNames declaration
  | .function _ false => declaration.ownName?.toList
  | .classDefinition _ false => declaration.ownName?.toList
  | .enumeration false => declaration.ownName?.toList
  | .namespaceDeclaration false =>
    if isErased declaration then [] else declaration.ownName?.toList
  | _ => []

end ModuleLinkage.Scope
