import ModuleLinkage.Text.Span

/-!
Syntax trees. A node has the span of source text that it covers, a form that says what it is, and
its parts in source order. Parts are told apart by their forms: the body of a function, for
instance, is its part of form `body`. Only decorators may stand outside the span of the class that
they decorate, because they may be written before `export`.
-/

set_option autoImplicit false

namespace ModuleLinkage.Syntax

open Text (Span)

/-- The keyword of a variable declaration. -/
inductive VariableKind where
  | var
  | let
  | const
  | using
  | awaitUsing
  deriving Repr, DecidableEq, Inhabited

/-- Whether a function or class declares its name around it or only names itself. -/
inductive DefinitionStyle where
  | declaration
  | expression
  deriving Repr, DecidableEq, Inhabited

/-- What of the shape of a type decides where the type may stand. -/
inductive TypeShape where
  /-- A list of another type, by a pair of brackets. -/
  | list
  | tuple
  /-- A type that a question mark follows. -/
  | optional
  | other
  deriving Repr, DecidableEq, Inhabited

/-- What a node is. The parts are given behind each form; a question mark marks one that may be
missing, a star any number of them. -/
inductive Form where
  /-- An identifier that stands for a variable. -/
  | reference (name : String)
  /-- An identifier that names a new variable, type or other entity. -/
  | binding (name : String)
  /-- A name of a property or of a member of an entity. -/
  | propertyName (name : String)
  | privateName (name : String)
  /-- An expression in brackets that gives the name of a property. -/
  | computedName
  | label (name : String)
  | string (value : String)
  /-- A number, regular expression, boolean or null. -/
  | literal
  | thisExpression
  | superExpression
  /-- `import.meta` or `new.target`. -/
  | metaProperty
  /-- A template: its substituted expressions*. -/
  | template
  /-- Tag, type arguments?, template. -/
  | taggedTemplate
  /-- Elements*; holes are left out. -/
  | array
  /-- Properties*. -/
  | object
  /-- Key, value. -/
  | property
  /-- The reference that is both key and value. -/
  | shorthand
  /-- Reference and default value: allowed in an object only until it becomes a target. -/
  | shorthandDefault
  /-- An expression whose elements are spread; `comma` says that a comma follows. -/
  | spread (comma : Bool)
  /-- Binding?, type parameters?, parameters, result type?, body?. -/
  | function (style : DefinitionStyle) (ambient : Bool)
  /-- Type parameters?, parameters, result type?, body. -/
  | arrow
  /-- This-parameter?, parameters*. -/
  | parameters
  /-- Decorators*, pattern, type?, default value?. -/
  | parameter
  /-- Type?. -/
  | thisParameter
  /-- Directives*, statements*. -/
  | body
  /-- Decorators*, binding?, type parameters?, superclass?, type arguments?, interfaces*, class
  body. -/
  | classDefinition (style : DefinitionStyle) (ambient : Bool)
  /-- Members*. -/
  | classBody
  /-- Decorators*, key, then a function, or a type? and a value?. -/
  | classMember
  /-- Statements*. -/
  | staticBlock
  /-- An expression. -/
  | decorator
  | unary (operator : String)
  /-- A target. -/
  | update (operator : String)
  | binary (operator : String)
  /-- Target, value. -/
  | assignment (operator : String)
  | conditional
  /-- Callee, type arguments?, arguments*. -/
  | call
  /-- Callee, type arguments?, arguments*. -/
  | construction
  /-- Object, property name or private name. -/
  | member
  /-- Object, key. -/
  | index
  /-- An expression with an optional access in it. -/
  | optionalChain
  | sequence
  | parenthesized
  | yieldExpression
  | awaitExpression
  /-- Specifier, options?. -/
  | importCall
  /-- Expression, type: the type of the expression is changed. -/
  | cast
  /-- Expression: it is taken not to be null. -/
  | nonNull
  /-- Expression, type arguments. -/
  | instantiation
  /-- A markup element or fragment: the expressions and elements in it*. -/
  | markup
  /-- Target properties*, rest target?. -/
  | objectTarget
  /-- Targets*, rest target?; holes are left out. -/
  | arrayTarget
  /-- Key, target. -/
  | propertyTarget
  /-- Reference, default value?. -/
  | shorthandTarget
  /-- Target, default value. -/
  | defaultTarget
  /-- Target. -/
  | restTarget
  /-- Pattern properties*, rest pattern?. -/
  | objectPattern
  /-- Patterns*, rest pattern?; holes are left out. -/
  | arrayPattern
  /-- Key, pattern. -/
  | propertyPattern
  /-- Pattern, default value. -/
  | defaultPattern
  /-- Pattern. -/
  | restPattern
  /-- Statements*. -/
  | block
  /-- Declarators*. -/
  | variableDeclaration (kind : VariableKind) (ambient : Bool)
  /-- Pattern, type?, value?. -/
  | declarator
  | expressionStatement
  /-- A string at the start of a body. -/
  | directive
  /-- Condition, statement, statement?. -/
  | conditionalStatement
  /-- Loop start?, condition?, step?, statement. -/
  | forLoop
  /-- Variables or expression. -/
  | loopStart
  /-- Variables or target, object, statement. -/
  | forInLoop
  /-- Variables or target, iterable, statement. -/
  | forOfLoop
  | whileLoop
  | doLoop
  | returnStatement
  /-- `break` or `continue`: label?. -/
  | jump
  | throwStatement
  /-- Block, catch clause?, block?. -/
  | tryStatement
  /-- Catch parameter?, block. -/
  | catchClause
  /-- Pattern, type?. -/
  | catchParameter
  /-- Subject, cases*. -/
  | switchStatement
  /-- Test, statements*. -/
  | switchCase
  /-- Statements*. -/
  | defaultCase
  /-- Label, statement. -/
  | labelled
  | emptyStatement
  | debuggerStatement
  | withStatement
  /-- Import specifiers*, module source, attributes?. -/
  | importDeclaration (typeOnly : Bool)
  /-- Binding. -/
  | importDefault
  /-- Binding. -/
  | importNamespace
  /-- Imported name, binding. -/
  | importName (typeOnly : Bool)
  | moduleSource (value : String)
  | importAttributes
  /-- A declaration. -/
  | exportDeclaration (typeOnly : Bool)
  /-- Export names*, module source?, attributes?. -/
  | exportNames (typeOnly : Bool)
  /-- Local name, exported name. -/
  | exportName (typeOnly : Bool)
  /-- A function, class, interface or expression. -/
  | exportDefault
  /-- Exported name?, module source, attributes?. -/
  | exportAll (typeOnly : Bool)
  /-- An expression in place of all exports. -/
  | exportAssignment
  /-- The global name of a module. -/
  | exportGlobalName
  /-- Binding, type parameters?, types*, members*. -/
  | interface
  /-- Binding, type parameters?, type. -/
  | typeAlias
  /-- Binding, members*. -/
  | enumeration (ambient : Bool)
  /-- Key, value?. -/
  | enumMember
  /-- Binding or string, then a namespace or a namespace body?. -/
  | namespaceDeclaration (ambient : Bool)
  /-- Statements*. -/
  | namespaceBody
  /-- A declaration of global entities: namespace body. -/
  | globalDeclaration
  /-- Binding, then an entity name or a module source. -/
  | importAlias
  /-- A type or a member of one: whatever stands in it, from left to right*. -/
  | type (shape : TypeShape)
  /-- Type parameters*. -/
  | typeParameters
  /-- Binding, constraint?, default?. -/
  | typeParameter
  /-- Types*. -/
  | typeArguments
  /-- Directives*, statements*. -/
  | program
  deriving Repr, Inhabited

/-- A node of a syntax tree. -/
inductive Node where
  | mk (span : Span) (form : Form) (parts : List Node)
  deriving Repr, Inhabited

namespace Node

def span : Node → Span
  | mk span _ _ => span

def form : Node → Form
  | mk _ form _ => form

def parts : Node → List Node
  | mk _ _ parts => parts

@[simp] theorem span_mk (span : Span) (form : Form) (parts : List Node) :
    (mk span form parts).span = span := rfl

@[simp] theorem form_mk (span : Span) (form : Form) (parts : List Node) :
    (mk span form parts).form = form := rfl

@[simp] theorem parts_mk (span : Span) (form : Form) (parts : List Node) :
    (mk span form parts).parts = parts := rfl

/-- What holds of a node whenever it holds of its parts holds of every node. -/
@[elab_as_elim] theorem induction {motive : Node → Prop}
    (step : ∀ span form parts, (∀ part ∈ parts, motive part) → motive (mk span form parts))
    (node : Node) : motive node :=
  @Node.rec motive (fun parts => ∀ part ∈ parts, motive part) step (by simp)
    (fun first rest hfirst hrest part hpart => by
      rcases List.mem_cons.mp hpart with rfl | hpart
      · exact hfirst
      · exact hrest part hpart) node

/-- The name that a node of one of the name forms bears. -/
def name? (node : Node) : Option String :=
  match node.form with
  | .reference name | .binding name | .propertyName name | .privateName name | .label name =>
    some name
  | .string value | .moduleSource value => some value
  | _ => none

/-- The name that a node binds, if it is itself a binding. -/
def boundName? (node : Node) : Option String :=
  match node.form with
  | .binding name => some name
  | _ => none

/-- The first part that is a binding: the name of a function, class, enumeration or namespace. -/
def ownName? (node : Node) : Option String :=
  node.parts.findSome? boundName?

end Node

end ModuleLinkage.Syntax
