import ModuleLinkage.Syntax.Parser.Type

/-!
Functions: declarations, expressions and methods.
-/

set_option autoImplicit false

namespace ModuleLinkage.Syntax

/-- An expression statement that is a string and nothing else gives a directive. -/
def asDirective? : Node → Option Node
  | .mk span .expressionStatement [expression] =>
    match expression.form with
    | .string _ => some (.mk span .directive [expression])
    | _ => none
  | _ => none

/-- Turns the strings at the start of a body into directives. -/
def withDirectives : List Node → List Node
  | [] => []
  | statement :: rest =>
    match asDirective? statement with
    | some directive => directive :: withDirectives rest
    | none => statement :: rest

/-- Statements up to a closing brace or the end of the text. -/
def statements (g : Grammar) : Parser (List Node) :=
  Parser.many do
    match ← present with
    | .punctuator "\x7d" | .endOfText => return none
    | _ => return some (← g (.statement .list))

/-- Statements in braces, with directives at their start. -/
def functionBody (g : Grammar) : Parser Node := do
  let start ← offset
  expect "\x7b"
  let items ← Parser.within
    (fun context => { context with inFunction := true, inOperator := true })
    (statements g)
  expect "\x7d"
  finish start .body (withDirectives items)

/-- The words and marks that say which operators the body of a function has. -/
structure FunctionMarks where
  async : Bool := false
  generator : Bool := false
  deriving Repr, DecidableEq, Inhabited

/-- Runs a parser as the inside of a function with the given marks. -/
def insideFunction {α : Type} (marks : FunctionMarks) (parser : Parser α) : Parser α :=
  Parser.within
    (fun context =>
      { context with inOperator := true, await := marks.async, yield := marks.generator })
    parser

/-- The parts of a function behind its name. In the grammar with types the end of a statement may
stand for the body. -/
def functionParts (g : Grammar) (marks : FunctionMarks) (owner : ParameterOwner) :
    Parser (List Node) :=
  insideFunction marks do
    let typeParameters ← typeParameters? g
    let parameters ← parameters g owner
    let result ← resultType? g
    let body ←
      if ← isAt "\x7b" then pure [← functionBody g]
      else
        Parser.require (← typescript)
        semicolon
        pure []
    return typeParameters ++ [parameters] ++ result ++ body

/-- Whether a function begins here. -/
def beginsFunction : Parser Bool := do
  if ← isAtWord "async" then nextOnLineSees (isAtWord "function") else isAtWord "function"

/-- The marks in front of a function's name: `async`, then the word `function`, then a star. -/
def functionMarks : Parser FunctionMarks := do
  let async ← eatWord "async"
  expectWord "function"
  let generator ← eat "*"
  return { async, generator }

/-- A function expression. Its name is bound inside it. -/
def functionExpression (g : Grammar) : Parser Node := do
  let start ← offset
  let marks ← functionMarks
  let name ← if ← isAtName then pure [← insideFunction marks bindingName] else pure []
  let parts ← functionParts g marks .function
  finish start (.function .expression false) (name ++ parts)

/-- The name of a declared function. One that has to be there may still be missing in front of
type parameters. -/
def functionName (optional : Bool) : Parser (List Node) := do
  match ← present with
  | .word word _ =>
    if isReserved word then
      Parser.require optional
      return []
    return [← bindingName]
  | token =>
    Parser.check (optional || token != .punctuator "(")
    return []

/-- Whether one of the parts of a node has the given form. -/
def hasPart (isForm : Form → Bool) (node : Node) : Bool :=
  node.parts.any fun part => isForm part.form

/-- Whether a function has a body. -/
def hasBody (function : Node) : Bool :=
  hasPart (fun form => match form with | .body => true | _ => false) function

/-- A function declaration that begins at `start`; of its modifiers, `async` has been read already
if `isAsync` holds. One that stands behind `declare` has no body and is no generator. -/
def functionDeclaration (g : Grammar) (start : Nat) (isAsync ambient nameOptional : Bool) :
    Parser Node := do
  let marks ← functionMarks
  let marks := { marks with async := marks.async || isAsync }
  let name ← functionName nameOptional
  let parts ← functionParts g marks .function
  let node ← finish start (.function .declaration ambient) (name ++ parts)
  Parser.check !(ambient && (marks.generator || hasBody node))
  return node

/-- A function declaration as a statement. One that stands as a single statement is neither
asynchronous nor a generator. -/
def functionStatement (g : Grammar) (place : StatementPlace) : Parser Node := do
  let start ← offset
  let marks? ← Parser.lookAhead functionMarks
  Parser.check (place == .list || marks? == some {})
  functionDeclaration g start false false false

/-- A method behind its key: parameters and body. -/
def methodFunction (g : Grammar) (marks : FunctionMarks) (owner : ParameterOwner) :
    Parser Node := do
  let start ← offset
  let parts ← functionParts g marks owner
  finish start (.function .expression false) parts

/-- The parameters that a function node takes, the one for `this` left out. -/
def parameterNodes (function : Node) : List Node :=
  (function.parts.filter fun part =>
    match part.form with
    | .parameters => true
    | _ => false).flatMap fun parameters =>
      parameters.parts.filter fun part =>
        match part.form with
        | .parameter => true
        | _ => false

/-- Whether a parameter collects all remaining arguments. -/
def isRestParameter (parameter : Node) : Bool :=
  hasPart (fun form => match form with | .restPattern => true | _ => false) parameter

/-- What stands behind the pattern of a parameter: its type and its default value. -/
def behindPattern (parameter : Node) : List Node :=
  let isDecorator (part : Node) : Bool :=
    match part.form with
    | .decorator => true
    | _ => false
  (parameter.parts.dropWhile isDecorator).drop 1

/-- Whether a node is a type. -/
def isType (node : Node) : Bool :=
  match node.form with
  | .type _ => true
  | _ => false

/-- A getter takes no parameter but a rest parameter, a setter exactly one, which is no rest
parameter and, in the grammar with types, has no default value. -/
def Accessor.fits (accessor : Accessor) (types : Bool) (function : Node) : Bool :=
  match accessor, parameterNodes function with
  | .getter, parameters => parameters.all isRestParameter
  | .setter, [parameter] =>
    !isRestParameter parameter && !(types && (behindPattern parameter).any fun part => !isType part)
  | _, _ => false

end ModuleLinkage.Syntax
