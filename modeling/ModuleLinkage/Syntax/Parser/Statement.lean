import ModuleLinkage.Syntax.Parser.ModuleItem

/-!
Statements.
-/

set_option autoImplicit false

namespace ModuleLinkage.Syntax

/-- Statements in braces. -/
def block (g : Grammar) : Parser Node := do
  let start ← offset
  expect "\x7b"
  let items ← statements g
  expect "\x7d"
  finish start .block items

/-- A condition, subject or object in parentheses. -/
def head (g : Grammar) : Parser Node := do
  expect "("
  let expression ← g .expression
  expect ")"
  return expression

/-- A statement that another governs. -/
def governed (g : Grammar) : Parser Node :=
  g (.statement .single)

/-- An expression as a statement, of which `expression` has been read. -/
def endExpressionStatement (start : Nat) (expression : Node) : Parser Node := do
  semicolon
  finish start .expressionStatement [expression]

/-- An expression as a statement, or a statement behind a label. -/
def expressionOrLabelled (g : Grammar) : Parser Node := do
  let start ← offset
  let expression ← g .expression
  match expression.form with
  | .reference name =>
    if ← eat ":" then
      let statement ← governed g
      finish start .labelled [.mk expression.span (.label name) [], statement]
    else endExpressionStatement start expression
  | _ => endExpressionStatement start expression

def ifStatement (g : Grammar) : Parser Node := do
  let start ← offset
  expectWord "if"
  let condition ← head g
  let first ← governed g
  let second ← if ← eatWord "else" then pure [← governed g] else pure []
  finish start .conditionalStatement (condition :: first :: second)

def doStatement (g : Grammar) : Parser Node := do
  let start ← offset
  expectWord "do"
  let body ← governed g
  expectWord "while"
  let condition ← head g
  discard (eat ";")
  finish start .doLoop [body, condition]

def whileStatement (g : Grammar) : Parser Node := do
  let start ← offset
  expectWord "while"
  let condition ← head g
  let body ← governed g
  finish start .whileLoop [condition, body]

/-- What follows the start of a loop that counts: a condition, a step and a statement. -/
def forLoopRest (g : Grammar) (start : Nat) (parts : List Node) : Parser Node := do
  expect ";"
  let condition ← if ← isAt ";" then pure [] else pure [← g .expression]
  expect ";"
  let step ← if ← isAt ")" then pure [] else pure [← g .expression]
  expect ")"
  let body ← governed g
  finish start .forLoop (parts ++ condition ++ step ++ [body])

/-- What follows the variables or target of a loop over the members of an object or iterable. -/
def forEachRest (g : Grammar) (start : Nat) (left : Node) : Parser Node := do
  if ← eatWord "of" then
    let iterable ← g (.assignment true)
    expect ")"
    let body ← governed g
    finish start .forOfLoop [left, iterable, body]
  else
    expectWord "in"
    let object ← g .expression
    expect ")"
    let body ← governed g
    finish start .forInLoop [left, object, body]

/-- Whether every variable of a declaration has the value that it needs outside a loop's head. -/
def hasNeededValues (kind : VariableKind) (declaration : Node) : Bool :=
  declaration.parts.all fun declarator =>
    match declarator.parts with
    | pattern :: rest => mayLackValue kind pattern || rest.any fun part => !isType part
    | [] => true

/-- What follows the variables that a loop's head declares. -/
def forVariablesRest (g : Grammar) (start inner : Nat) (kind : VariableKind) (awaits : Bool)
    (declaration : Node) : Parser Node := do
  if (← isAtWord "of") || (← isAtWord "in") then
    Parser.check ((← isAtWord "of") || !(awaits || kind.isResource))
    forEachRest g start declaration
  else
    Parser.check (!awaits && (kind.isResource || hasNeededValues kind declaration))
    let first ← finish inner .loopStart [declaration]
    forLoopRest g start [first]

/-- A loop whose variables are declared in its head, behind their keyword. -/
def forVariables (g : Grammar) (start inner : Nat) (kind : VariableKind) (awaits : Bool) :
    Parser Node := do
  let declaration ← Parser.within
    (fun context => { context with inOperator := context.inOperator && kind.isResource })
    (variableDeclaration g inner kind true false)
  forVariablesRest g start inner kind awaits declaration

/-- Whether a resource is named here: a name or, by a fault, a pattern in braces. -/
def beginsResource : Parser Bool := do
  return (← isAtName) || (← isAt "\x7b")

/-- Whether a declaration with the words `await using` begins here. -/
def beginsAwaitUsing : Parser Bool := do
  isAtWord "await" <&&> nextOnLineSees (isAtWord "using" <&&> nextOnLineSees beginsResource)

/-- Whether a declaration with the word `using` begins the head of a loop here. In front of `of` it
is a variable, unless a value or nothing follows. -/
def beginsUsingHead : Parser Bool :=
  isAtWord "using" <&&> nextOnLineSees do
    if ← isAtWord "of" then nextSees do return (← isAt "=") || (← isAt ";") || (← isAt ":")
    else beginsResource

/-- Whether what follows the word `let` in the head of a loop makes it the keyword of a
declaration. -/
def declaresInHead : Parser Bool := do
  match ← present with
  | .word word _ => return word != "in" && word != "instanceof"
  | .punctuator mark => return mark == "[" || mark == "\x7b"
  | _ => return false

/-- The kind of the variables that a loop's head declares, if it does; the keyword is read. -/
def forKeyword? : Parser (Option VariableKind) := do
  match ← present with
  | .word "var" _ =>
    advance
    return some .var
  | .word "const" _ =>
    advance
    return some .const
  | .word "let" _ =>
    if !(← nextSees declaresInHead) then return none
    advance
    return some .let
  | _ =>
    if ← beginsUsingHead then
      advance
      return some .using
    if ← beginsAwaitUsing then
      advance
      advance
      return some .awaitUsing
    return none

/-- A loop whose head begins with an expression: the start of a loop that counts, or the target of
one over members. -/
def forExpression (g : Grammar) (start : Nat) (awaits : Bool) : Parser Node := do
  let inner ← offset
  let startsWithLet ← isAtWord "let"
  let startsWithAsync := (← present) == .word "async" false
  let expression ← Parser.within (fun context => { context with inOperator := false })
    (g .expression)
  if (← isAtWord "of") || (← isAtWord "in") then
    let isOf ← isAtWord "of"
    let isBareAsync := startsWithAsync && !awaits && isReference expression
    Parser.check (if isOf then !(startsWithLet || isBareAsync) else !awaits)
    let target ← liftOption expression.toTarget?
    forEachRest g start target
  else
    Parser.check !awaits
    let first ← finish inner .loopStart [expression]
    forLoopRest g start [first]

def forStatement (g : Grammar) : Parser Node := do
  let start ← offset
  expectWord "for"
  let awaits ← isAtWord "await"
  if awaits then
    Parser.check (← context).await
    advance
  expect "("
  if ← isAt ";" then
    Parser.check !awaits
    return ← forLoopRest g start []
  let inner ← offset
  match ← forKeyword? with
  | some kind => forVariables g start inner kind awaits
  | none => forExpression g start awaits

/-- `break` or `continue`, with a label on the same line if there is one. -/
def jumpStatement : Parser Node := do
  let start ← offset
  advance
  let label ← if ← endsStatement then pure [] else pure [← variableName .label]
  semicolon
  finish start .jump label

def returnStatement (g : Grammar) : Parser Node := do
  let start ← offset
  Parser.check (← context).inFunction
  expectWord "return"
  let value ← if ← endsStatement then pure [] else pure [← g .expression]
  semicolon
  finish start .returnStatement value

def withStatement (g : Grammar) : Parser Node := do
  let start ← offset
  expectWord "with"
  let object ← head g
  let body ← governed g
  finish start .withStatement [object, body]

/-- Whether a statement declares a resource. -/
def isResourceDeclaration (statement : Node) : Bool :=
  match statement.form with
  | .variableDeclaration kind _ => kind.isResource
  | _ => false

/-- The statements of a case. None of them declares a resource. -/
def caseStatements (g : Grammar) : Parser (List Node) := do
  expect ":"
  let items ← Parser.many do
    match ← present with
    | .punctuator "\x7d" | .word "case" _ | .word "default" _ | .endOfText => return none
    | _ => return some (← g (.statement .list))
  Parser.check !(items.any isResourceDeclaration)
  return items

/-- A case of a switch, or its default case. -/
def switchCase (g : Grammar) : Parser Node := do
  let start ← offset
  if ← eatWord "default" then
    let items ← caseStatements g
    finish start .defaultCase items
  else
    expectWord "case"
    let test ← g .expression
    let items ← caseStatements g
    finish start .switchCase (test :: items)

def switchStatement (g : Grammar) : Parser Node := do
  let start ← offset
  expectWord "switch"
  let subject ← head g
  expect "\x7b"
  let cases ← Parser.many do
    if ← isAt "\x7d" then return none
    return some (← switchCase g)
  expect "\x7d"
  finish start .switchStatement (subject :: cases)

def throwStatement (g : Grammar) : Parser Node := do
  let start ← offset
  expectWord "throw"
  Parser.check !(← onNewLine)
  let value ← g .expression
  semicolon
  finish start .throwStatement [value]

def catchClause (g : Grammar) : Parser Node := do
  let start ← offset
  expectWord "catch"
  let parameter ←
    if ← eat "(" then
      let start ← offset
      let pattern ← g .pattern
      let type ← typeAnnotation? g
      let parameter ← finish start .catchParameter (pattern :: type)
      expect ")"
      pure [parameter]
    else pure []
  let body ← block g
  finish start .catchClause (parameter ++ [body])

def tryStatement (g : Grammar) : Parser Node := do
  let start ← offset
  expectWord "try"
  let body ← block g
  let handler ← if ← isAtWord "catch" then pure [← catchClause g] else pure []
  let final ← if ← eatWord "finally" then pure [← block g] else pure []
  Parser.check !(handler.isEmpty && final.isEmpty)
  finish start .tryStatement (body :: (handler ++ final))

/-- What a statement is that begins with the word `let`. -/
inductive LetReading where
  /-- An expression without commas. -/
  | operand
  /-- An expression that the end of the statement need not follow. -/
  | access
  /-- The variable of that name and nothing else. -/
  | variable
  | declaration
  deriving Repr, DecidableEq

/-- Judges a statement that begins with the word `let` by the token behind the word. -/
def letReading (place : StatementPlace) : Parser LetReading := do
  match ← present with
  | .word "in" _ | .word "instanceof" _ => return .operand
  | .punctuator mark =>
    if isAssignmentOperator mark || isEagerOperator mark then return .operand
    if mark == "." || mark == "(" then return .access
    return if (place == .single && mark != "[") || mark == ";" then .variable else .declaration
  | _ => return if place == .single then .variable else .declaration

/-- A statement that begins with the word `let`. -/
def letStatement (g : Grammar) (place : StatementPlace) : Parser Node := do
  let start ← offset
  let reading? ← Parser.lookAhead do
    advance
    letReading place
  match reading?.getD .declaration with
  | .operand =>
    let expression ← g (.assignment true)
    endExpressionStatement start expression
  | .access =>
    let expression ← g .expression
    finish start .expressionStatement [expression]
  | .variable =>
    let name ← variableName .reference
    endExpressionStatement start name
  | .declaration =>
    Parser.check (place == .list)
    advance
    variableStatement g start .let false

/-- A declaration of resources as a statement, behind its keyword. Each of them has a value. -/
def usingStatement (g : Grammar) (start : Nat) (kind : VariableKind) : Parser Node := do
  let declaration ← variableDeclaration g start kind false false
  semicolon
  finish start declaration.form declaration.parts

/-- A statement that begins with decorators: a class, perhaps exported. -/
def decoratedStatement (g : Grammar) (place : StatementPlace) : Parser Node := do
  let start ← offset
  let decorators ← decorators g
  if ← isAtWord "export" then
    let start ← offset
    advance
    exportBody g start decorators
  else
    let modifiers ← plainModifiers
    Parser.check (place == .list)
    classDefinition g start decorators modifiers .declaration

/-- A class as a statement. -/
def classStatement (g : Grammar) (place : StatementPlace) : Parser Node := do
  let start ← offset
  Parser.check (place == .list)
  classDefinition g start [] [] .declaration

/-- An import, or an expression that begins with the word `import`. -/
def importStatement (g : Grammar) : Parser Node := do
  let start ← offset
  if ← nextSees do return (← isAt "(") || (← isAt ".") then expressionOrLabelled g
  else
    advance
    importBody start

/-- A statement that no keyword begins: a declaration behind words that are names elsewhere, or an
expression. -/
def otherStatement (g : Grammar) (place : StatementPlace) : Parser Node := do
  let start ← offset
  if ← isAtWord "using" <&&> nextOnLineSees beginsResource then
    advance
    usingStatement g start .using
  else if ← beginsAwaitUsing then
    advance
    advance
    usingStatement g start .awaitUsing
  else if ← beginsFunction then functionStatement g place
  else if (← typescript) && (← Parser.sees beginsDeclaration) then
    let (node, _) ← declaration g start [] false
    return node
  else expressionOrLabelled g

/-- A declaration of constants as a statement, or of an enumeration that is one. -/
def constStatement (g : Grammar) (place : StatementPlace) : Parser Node := do
  let start ← offset
  if (← typescript) && (← nextSees (isAtWord "enum")) then otherStatement g place
  else
    Parser.check (place == .list)
    advance
    variableStatement g start .const false

/-- A statement that begins with a word. -/
def wordStatement (g : Grammar) (place : StatementPlace) (word : String) (escaped : Bool) :
    Parser Node := do
  let start ← offset
  match word with
  | "if" => ifStatement g
  | "do" => doStatement g
  | "while" => whileStatement g
  | "for" => forStatement g
  | "break" | "continue" => jumpStatement
  | "with" => withStatement g
  | "switch" => switchStatement g
  | "throw" => throwStatement g
  | "try" => tryStatement g
  | "return" => returnStatement g
  | "debugger" =>
    advance
    semicolon
    finish start .debuggerStatement []
  | "var" =>
    advance
    variableStatement g start .var false
  | "const" => constStatement g place
  | "let" => if escaped then otherStatement g place else letStatement g place
  | "class" => classStatement g place
  | "import" => importStatement g
  | "export" =>
    advance
    exportBody g start []
  | _ => otherStatement g place

/-- A statement. -/
def statement (g : Grammar) (place : StatementPlace) : Parser Node := do
  match ← present with
  | .punctuator "\x7b" => block g
  | .punctuator ";" => leaf .emptyStatement
  | .punctuator "@" => decoratedStatement g place
  | .word word escaped => wordStatement g place word escaped
  | _ => expressionOrLabelled g

end ModuleLinkage.Syntax
