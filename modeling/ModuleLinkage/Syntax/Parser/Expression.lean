import ModuleLinkage.Syntax.Parser.Class
import ModuleLinkage.Syntax.Parser.Markup
import ModuleLinkage.Syntax.Target

/-!
Expressions, from primary expressions up to assignments and sequences.
-/

set_option autoImplicit false

namespace ModuleLinkage.Syntax

/-- Runs a parser inside parentheses, where `in` is an operator and brackets continue an
expression, even in a decorator. -/
def inParentheses {α : Type} (parser : Parser α) : Parser α :=
  Parser.within (fun context => { context with inOperator := true, decorating := false }) parser

/-- The value, if there is one; elsewhere the present token does not fit. -/
def liftOption {α : Type} (value? : Option α) : Parser α :=
  match value? with
  | some value => pure value
  | none => Parser.fail

/-! ### Primary expressions -/

/-- An expression that is spread: its node says whether a comma follows. -/
def spread (g : Grammar) : Parser Node := do
  let start ← offset
  expect "..."
  let expression ← element g
  finish start (.spread (← isAt ",")) [expression]

/-- The elements of an array, behind the opening bracket. -/
def arrayElements (g : Grammar) : Parser (List Node) := do
  let elements ← Parser.many do
    if ← isAt "]" then return none
    if ← eat "," then return some []
    let item ← if ← isAt "..." then spread g else element g
    if !(← isAt "]") then expect ","
    return some [item]
  expect "]"
  return elements.flatten

/-- A method of an object, behind its modifiers. -/
def objectMethod (g : Grammar) (start : Nat) (marks : FunctionMarks)
    (accessor : Option Accessor) : Parser Node := do
  let key ← propertyKey g
  let function ← methodFunction g marks .function
  let types ← typescript
  Parser.check (accessor.all fun accessor => accessor.fits types function)
  finish start .property [key, function]

/-- A property of an object. -/
def objectProperty (g : Grammar) : Parser Node := do
  let start ← offset
  if ← isAt "..." then return ← spread g
  let isAsync ← isAtWord "async" <&&> nextOnLineSees isModifiable
  if isAsync then advance
  let generator ← eat "*"
  let accessor ← if isAsync || generator then pure none else accessor?
  if isAsync || generator || accessor.isSome then
    return ← objectMethod g start { async := isAsync, generator } accessor
  let token ← present
  let key ← propertyKey g
  if ← beginsSignature then
    let function ← methodFunction g {} .function
    return ← finish start .property [key, function]
  if ← eat ":" then
    let value ← element g
    return ← finish start .property [key, value]
  match token with
  | .word word _ =>
    Parser.require !(isReserved word)
    checkName word
    let reference ← finish start (.reference word) []
    if ← eat "=" then
      let value ← element g
      finish start .shorthandDefault [reference, value]
    else finish start .shorthand [reference]
  | _ => Parser.fail

/-- The substituted expressions of a template. Only behind a tag may an escape denote nothing. -/
def template (g : Grammar) (tagged : Bool) : Parser Node := do
  let start ← offset
  let expressions ← Parser.many do
    match ← present with
    | .template last cooked =>
      Parser.require (cooked || tagged)
      if last then return none
      advance
      let expression ← withInOperator (g .expression)
      Parser.require (← isAt "\x7d")
      continueTemplate
      return some expression
    | _ => Parser.fail
  advance
  finish start .template expressions

/-- A regular expression, whose first characters are the present token. -/
def regularExpression : Parser Node := do
  let lexeme := (← Parser.get).lexeme
  let body : Place ←
    match lexeme.token with
    | .punctuator "/" => pure lexeme.next
    | .punctuator "/=" => pure ⟨'=' :: lexeme.next.rest, lexeme.span.start + 1⟩
    | _ => Parser.fail
  let (token, next) := readRegex body
  replaceToken token next
  Parser.require (token == .regex)
  leaf .literal

/-- Expressions in parentheses. -/
def parenthesized (g : Grammar) : Parser Node := do
  let start ← offset
  expect "("
  let expression ← inParentheses (g .expression)
  expect ")"
  finish start .parenthesized [expression]

/-- The properties of an object, in braces. -/
def objectLiteral (g : Grammar) : Parser Node := do
  let start ← offset
  expect "\x7b"
  let properties ← withInOperator (commaListUntil "\x7d" (objectProperty g))
  finish start .object properties

/-- `import.meta`, or the import of a module whose specifier is computed. -/
def importExpression (g : Grammar) : Parser Node := do
  let start ← offset
  expectWord "import"
  if ← eat "." then
    if ← eatWord "meta" then return ← finish start .metaProperty []
    Parser.require (← eatWord "source" <||> eatWord "defer")
  expect "("
  let specifier ← element g
  let options ← if (← eat ",") && !(← isAt ")") then pure [← element g] else pure []
  discard (eat ",")
  expect ")"
  finish start .importCall (specifier :: options)

/-- Arguments in parentheses. -/
def arguments (g : Grammar) : Parser (List Node) := do
  expect "("
  withInOperator <| commaListUntil ")" do if ← isAt "..." then spread g else element g

/-- Whether a node is the import of a module. -/
def isImportCall (node : Node) : Bool :=
  match node.form with
  | .importCall => true
  | _ => false

/-- `new.target`, or the construction of an object. -/
def construction (g : Grammar) : Parser Node := do
  let start ← offset
  expectWord "new"
  if ← eat "." then
    expectWord "target"
    finish start .metaProperty []
  else
    let callee ← g .member
    Parser.check !(isImportCall callee || (← isAt "?."))
    let arguments ← if ← isAt "(" then arguments g else pure []
    finish start .construction (callee :: arguments)

/-- A class expression. Behind decorators it may have modifiers. -/
def classExpression (g : Grammar) : Parser Node := do
  let start ← offset
  let decorators ← decorators g
  let modifiers ← if decorators.isEmpty then pure [] else plainModifiers
  classDefinition g start decorators modifiers .expression

/-- `super`, which a member or arguments have to follow. -/
def superExpression : Parser Node := do
  let node ← leaf .superExpression
  Parser.check ((← isAt "(") || (← isAt ".") || (← isAt "["))
  return node

/-- A markup element as an expression. -/
def markupExpression (g : Grammar) : Parser Node := do
  Parser.require (← settings).jsx
  let node ← g .markup
  advance
  return node

/-- An expression that begins with a word. -/
def wordExpression (g : Grammar) (word : String) : Parser Node := do
  match word with
  | "this" => leaf .thisExpression
  | "null" | "true" | "false" => leaf .literal
  | "super" => superExpression
  | "class" => classExpression g
  | "new" => construction g
  | "import" => importExpression g
  | _ => if ← beginsFunction then functionExpression g else variableName .reference

/-- An expression that no operator belongs to. -/
def primary (g : Grammar) : Parser Node := do
  let start ← offset
  match ← present with
  | .number | .bigint => leaf .literal
  | .string value => leaf (.string value.text)
  | .template _ _ => template g false
  | .punctuator "(" => parenthesized g
  | .punctuator "[" =>
    advance
    let elements ← withInOperator (arrayElements g)
    finish start .array elements
  | .punctuator "\x7b" => objectLiteral g
  | .punctuator "/" | .punctuator "/=" => regularExpression
  | .punctuator "@" => classExpression g
  | .punctuator "<" => markupExpression g
  | .word word _ => wordExpression g word
  | _ => Parser.fail

/-! ### Members and calls -/

/-- An expression that members and calls are read behind. `chained` says that an optional access
stands in it. -/
structure Access where
  node : Node
  chained : Bool := false
  deriving Inhabited

/-- The name of a member behind a period. -/
def memberName : Parser Node := do
  match ← present with
  | .privateName name => leaf (.privateName name)
  | _ => propertyWord

/-- The keywords that begin expressions. -/
def expressionWords : List String :=
  ["await", "class", "delete", "false", "function", "in", "instanceof", "new", "null", "super",
    "this", "true", "typeof", "void", "yield"]

/-- Whether the present token counts as one that begins an expression: also a binary operator that
always reads both operands does, and no word does that has a role somewhere but here. -/
def beginsExpression : Parser Bool := do
  match ← present with
  | .number | .bigint | .string _ | .template _ _ | .regex | .privateName _ => return true
  | .word "import" _ =>
    nextSees do return (← isAt "(") || (← isAt "<") || (← isAt ".")
  | .word word _ => return !isKeyword word || expressionWords.contains word
  | .punctuator mark =>
    return ["(", "[", "\x7b", "/", "/=", "@", "++", "--"].contains mark ||
      isUnaryPunctuator mark || isEagerOperator mark
  | _ => return false

/-- Whether the present token is a binary operator that type arguments can stand before: one that
is no operator here where `in` is. -/
def isAtBinaryOperator : Parser Bool := do
  match ← present with
  | .punctuator mark => return (binaryLevel? mark).isSome
  | .word "in" _ => return !(← context).inOperator
  | .word word _ => return (binaryLevel? word).isSome
  | _ => return false

/-- Whether the present token shows that what stands in angle brackets before it was type
arguments. -/
def followsTypeArguments : Parser Bool := do
  match ← present with
  | .punctuator "(" | .template _ _ => return true
  | .punctuator "<" | .punctuator ">" | .punctuator "+" | .punctuator "-" => return false
  | _ => return (← onNewLine) || (← isAtBinaryOperator) || !(← beginsExpression)

/-- Whether the present token follows the one before it at once and begins with an equals sign or
an angle bracket, so that both together are an operator. -/
def joinsAngleBracket : Parser Bool := do
  let state ← Parser.get
  match state.lexeme.token with
  | .punctuator mark =>
    let first := mark.toList.head?
    return state.lexeme.span.start == state.previousStop && (first == some '=' || first == some '>')
  | _ => return false

/-- Type arguments of an expression, if what follows can be read as such. -/
def expressionTypeArguments? (g : Grammar) : Parser (Option Node) := do
  if !(← typescript) || !((← isAt "<") || (← isAt "<<")) then return none
  Parser.attempt do
    let arguments ← typeArguments g
    Parser.require !(← joinsAngleBracket)
    Parser.require (← followsTypeArguments)
    return arguments

/-- Whether the token behind `?.` begins a member rather than a call. -/
def beginsOptionalMember : Parser Bool := do
  match ← present with
  | .word _ _ | .privateName _ | .punctuator "[" => return true
  | _ => return false

/-- One more member, index, tag or type change behind an expression. `optional` says that optional
accesses are read too. -/
def memberStep (g : Grammar) (optional : Bool) (start : Nat) (access : Access) :
    Parser (Option Access) := do
  let index : Parser Node := do
    expect "["
    let key ← withInOperator (g .expression)
    expect "]"
    finish start .index [access.node, key]
  match ← present with
  | .punctuator "." =>
    advance
    let name ← memberName
    return some { access with node := ← finish start .member [access.node, name] }
  | .punctuator "?." =>
    if !optional || !(← nextSees beginsOptionalMember) then return none
    advance
    let node ← if ← isAt "[" then index else do
      let name ← memberName
      finish start .member [access.node, name]
    return some { node, chained := true }
  | .punctuator "[" =>
    if (← context).decorating then return none
    return some { access with node := ← index }
  | .template _ _ =>
    Parser.check !access.chained
    let quasi ← template g true
    return some { access with node := ← finish start .taggedTemplate [access.node, quasi] }
  | .punctuator "!" =>
    if !(← typescript) || (← onNewLine) then return none
    advance
    return some { access with node := ← finish start .nonNull [access.node] }
  | _ =>
    match ← expressionTypeArguments? g with
    | some arguments =>
      return some { access with node := ← finish start .instantiation [access.node, arguments] }
    | none => return none

/-- A primary expression with its members, but no calls: what `new` constructs. -/
def member (g : Grammar) : Parser Node := do
  let start ← offset
  let first ← primary g
  let access ← Parser.iterate (memberStep g false start) { node := first }
  return access.node

/-- One more member or call behind an expression. -/
def callStep (g : Grammar) (start : Nat) (access : Access) : Parser (Option Access) := do
  match ← memberStep g true start access with
  | some access => return some access
  | none =>
    let optional ← eat "?."
    let types ← if optional then expressionTypeArguments? g else pure none
    if ← isAt "(" then
      let arguments ← inParentheses (arguments g)
      let node ← finish start .call (access.node :: (types.toList ++ arguments))
      return some { node, chained := access.chained || optional }
    Parser.require !optional
    return none

/-- An expression with its members and calls. -/
def leftHandSide (g : Grammar) : Parser Node := do
  let start ← offset
  let first ← primary g
  let access ← Parser.iterate (callStep g start) { node := first }
  if access.chained then finish start .optionalChain [access.node] else return access.node

/-! ### Operators -/

/-- Reads an operator that begins with a greater-than sign as a whole. -/
def joinOperator : Parser Unit := do
  if ← isAt ">" then
    let lexeme := (← Parser.get).lexeme
    let (token, next) := rereadOperator ⟨'>' :: lexeme.next.rest, lexeme.span.start⟩
    replaceToken token next

/-- An expression that may be incremented or decremented, before or behind. -/
def updated (g : Grammar) : Parser Node := do
  let start ← offset
  if (← isAt "++") || (← isAt "--") then
    let operator ← if ← isAt "++" then pure "++" else pure "--"
    advance
    let operand ← g .unary
    let target ← liftOption operand.toSimpleTarget?
    finish start (.update operator) [target]
  else
    let operand ← g .leftHandSide
    if ((← isAt "++") || (← isAt "--")) && !(← onNewLine) then
      let operator ← if ← isAt "++" then pure "++" else pure "--"
      let target ← liftOption operand.toSimpleTarget?
      advance
      finish start (.update operator) [target]
    else return operand

/-- Whether the present token is a word that is no operator between two operands, or a literal:
what shows that `await` or `yield` in front of it is meant as an operator. -/
def isAtWordOrLiteral : Parser Bool := do
  match ← present with
  | .word word _ => return word != "in" && word != "instanceof"
  | .string _ | .number | .bigint => return true
  | _ => return false

/-- Whether an `await` stands here that is an operator or meant as one. -/
def beginsAwait : Parser Bool := do
  if !(← isAtWord "await") then return false
  if (← context).await then return true
  nextOnLineSees do return (← isAtWordOrLiteral) || (← isAt "/")

/-- The unary operator that the present token is. -/
def unaryOperator? : Parser (Option String) := do
  match ← present with
  | .punctuator mark => return if isUnaryPunctuator mark then some mark else none
  | .word word _ => return if isUnaryWord word then some word else none
  | _ => return none

/-- An operand with the unary operators in front of it. None may be raised to a power. -/
def unary (g : Grammar) : Parser Node := do
  let start ← offset
  match ← unaryOperator? with
  | some operator =>
    advance
    let operand ← g .unary
    Parser.check !(← isAt "**")
    finish start (.unary operator) [operand]
  | none =>
    if ← beginsAwait then
      Parser.check (← context).await
      advance
      let operand ← Parser.within (fun context => { context with await := true }) (g .unary)
      Parser.check !(← isAt "**")
      finish start .awaitExpression [operand]
    else if ← isAt "<" then
      if (← settings).jsx then markupExpression g
      else
        Parser.require (← typescript)
        advance
        let type ← g .type
        expect ">"
        let operand ← g .unary
        finish start .cast [operand, type]
    else updated g

/-- Whether `node` joins its operands by `&&` or `||`, without parentheses around it. -/
def isConjunction (node : Node) : Bool :=
  match node.form with
  | .binary operator => operator == "&&" || operator == "||"
  | _ => false

/-- The binary operator that the present token is, where it stands. -/
def binaryOperator? : Parser (Option String) := do
  joinOperator
  match ← present with
  | .punctuator mark => return if (binaryLevel? mark).isSome then some mark else none
  | .word "in" _ => return if (← context).inOperator then some "in" else none
  | .word "instanceof" _ => return some "instanceof"
  | .word word _ =>
    if (word == "as" || word == "satisfies") && (← typescript) && !(← onNewLine) then
      return some word
    return none
  | _ => return none

/-- One more binary operator behind `left`, if it binds more tightly than `above`. An operand of
`??` that joins others by `&&` or `||` has to begin with a parenthesis; `leftEnclosed` says that
the left one does. -/
def binaryStep (g : Grammar) (above start : Nat) (leftEnclosed : Bool) (left : Node) :
    Parser (Option Node) := do
  match ← binaryOperator? with
  | none => return none
  | some operator =>
    let level := (binaryLevel? operator).getD 0
    let stops := if operator == "**" then level < above else level ≤ above
    if stops then return none
    advance
    if operator == "as" || operator == "satisfies" then
      let type ← g .type
      return some (← finish start .cast [left, type])
    let rightEnclosed ← isAt "("
    let right ← g (.operators level)
    let mixes := (isConjunction left && !leftEnclosed) || (isConjunction right && !rightEnclosed)
    Parser.check !(operator == "??" && mixes)
    return some (← finish start (.binary operator) [left, right])

/-- The test of an object for a private name: the name, then `in`, then the object. -/
def privateTest (g : Grammar) (name : String) : Parser Node := do
  let start ← offset
  let left ← leaf (.privateName name)
  expectWord "in"
  let right ← g .unary
  finish start (.binary "in") [left, right]

/-- Operands joined by binary operators that bind more tightly than `above`. A private name may
only stand left of `in`. -/
def operators (g : Grammar) (above : Nat) : Parser Node := do
  let start ← offset
  let enclosed ← isAt "("
  let first ←
    match ← present with
    | .privateName name =>
      Parser.require (← context).inOperator
      privateTest g name
    | _ => g .unary
  Parser.iterate (binaryStep g above start enclosed) first

/-! ### Arrow functions -/

/-- An answer to a question that a few tokens may leave open. -/
inductive Likelihood where
  | yes
  | no
  | open
  deriving Repr, DecidableEq

/-- Judges by the tokens behind an opening parenthesis whether it begins an arrow function. -/
def beginsArrowParameters : Parser Likelihood := do
  match ← present with
  | .punctuator ")" =>
    advance
    if (← isAt "=>") || (← isAt "\x7b") then return .yes
    return if ← isAt ":" then .open else .no
  | .punctuator "[" | .punctuator "\x7b" => return .open
  | .punctuator "..." =>
    advance
    return if (← isAtName) || (← isAt "[") || (← isAt "\x7b") then .open else .no
  | .word word _ =>
    pass
    if isModifierWord word && word != "async" && (← isAtIdentifier) then
      return if ← isAtWord "as" then .no else .yes
    if isReserved word && word != "this" then return .no
    match ← present with
    | .punctuator ":" => return .yes
    | .punctuator "?" =>
      advance
      return if (← isAt ":") || (← isAt ",") || (← isAt "=") || (← isAt ")") then .yes else .no
    | .punctuator "," | .punctuator "=" | .punctuator ")" => return .open
    | _ => return .no
  | _ => return .no

/-- Judges by the tokens behind an opening angle bracket whether it begins an arrow function. -/
def beginsArrowTypeParameters : Parser Likelihood := do
  if !((← isAtName) || (← isAtWord "const")) then return .no
  if !(← settings).jsx then return .open
  discard (eatWord "const")
  advance
  if ← eatWord "extends" then
    return if (← isAt "=") || (← isAt ">") || (← isAt "/") then .no else .yes
  return if (← isAt ",") || (← isAt "=") then .yes else .no

/-- Judges whether an arrow function with its parameters in parentheses begins here. -/
def beginsArrow : Parser Likelihood := do
  if ← eatWord "async" then
    if ← onNewLine then return .no
  if ← eat "(" then beginsArrowParameters
  else if ← eat "<" then beginsArrowTypeParameters
  else return .no

/-- The body of an arrow function: statements in braces, or the expression that it gives. -/
def arrowBody (g : Grammar) (isAsync resultTypes : Bool) : Parser Node := do
  let start ← offset
  Parser.within (fun context => { context with await := isAsync, yield := false }) do
    if ← isAt "\x7b" then functionBody g
    else
      let expression ← g (.assignment resultTypes)
      let statement ← finish start .expressionStatement [expression]
      finish start .body [statement]

/-- An arrow function up to its arrow. -/
structure ArrowHead where
  start : Nat
  isAsync : Bool
  /-- The type parameters, parameters and result type. -/
  parts : List Node
  /-- Whether a result type is stated. -/
  hasResult : Bool
  deriving Inhabited

/-- Reads the arrow of an arrow function, on the line of its parameters. -/
def arrowMark : Parser Unit := do
  Parser.check !(← onNewLine)
  expect "=>"

/-- An arrow function with its parameters in parentheses, up to its arrow. It has no type of
`this`. -/
def arrowHead (g : Grammar) : Parser ArrowHead := do
  let start ← offset
  let isAsync ← eatWord "async"
  let parts ←
    Parser.within (fun context => { context with await := context.await || isAsync }) do
      let typeParameters ← typeParameters? g
      let parameters ← parameters g .function
      Parser.check !(hasThisParameter parameters)
      return typeParameters ++ [parameters]
  let result ← resultType? g
  arrowMark
  return { start, isAsync, parts := parts ++ result, hasResult := !result.isEmpty }

/-- The arrow function that has a given head. -/
def arrowFunction (g : Grammar) (resultTypes : Bool) (head : ArrowHead) : Parser Node := do
  let body ← arrowBody g head.isAsync resultTypes
  finish head.start .arrow (head.parts ++ [body])

/-- An arrow function where one may begin. Left of the colon of a conditional expression, where
`resultTypes` is off, a result type counts only if a colon follows the function. A place where none
was found is noted, so that it is not tried again. -/
def possibleArrow? (g : Grammar) (resultTypes : Bool) : Parser (Option Node) := do
  let before ← Parser.get
  let start := before.lexeme.span.start
  if before.notArrows.contains start then return none
  let giveUp : Parser (Option Node) := do
    Parser.modify fun state => { before with notArrows := start :: state.notArrows }
    return none
  match ← Parser.attempt (arrowHead g) with
  | none => giveUp
  | some head =>
    let arrow ← arrowFunction g resultTypes head
    if resultTypes || !head.hasResult || (← isAt ":") then return some arrow
    giveUp

/-- An arrow function with its parameters in parentheses, if one begins here. -/
def parenthesizedArrow? (g : Grammar) (resultTypes : Bool) : Parser (Option Node) := do
  let mayBegin ← match ← present with
    | .punctuator "(" | .punctuator "<" | .word "async" _ => pure true
    | _ => pure false
  if !mayBegin then return none
  match (← Parser.lookAhead beginsArrow).getD .no with
  | .no => return none
  | .yes => return some (← arrowFunction g resultTypes (← arrowHead g))
  | .open => possibleArrow? g resultTypes

/-- An arrow function whose one parameter is the name `name`. -/
def simpleArrow (g : Grammar) (start : Nat) (isAsync resultTypes : Bool) (name : Node) :
    Parser Node := do
  let binding := Node.mk name.span (.binding (name.name?.getD "")) []
  let parameters := Node.mk name.span .parameters [.mk name.span .parameter [binding]]
  arrowMark
  arrowFunction g resultTypes { start, isAsync, parts := [parameters], hasResult := false }

/-- An asynchronous arrow function with one parameter that is a name, if one begins here. -/
def asyncSimpleArrow? (g : Grammar) (resultTypes : Bool) : Parser (Option Node) := do
  if !(← isAtWord "async") then return none
  let begins ← nextOnLineSees do
    if !(← isAtName) then return false
    pass
    return (← isAt "=>") && !(← onNewLine)
  if !begins then return none
  let start ← offset
  advance
  let name ← insideFunction { async := true } (variableName .reference)
  return some (← simpleArrow g start true resultTypes name)

/-! ### Assignments -/

/-- Whether the present token shows that `yield` has no operand. -/
def endsYield : Parser Bool := do
  match ← present with
  | .endOfText => return true
  | .punctuator mark => return ["\x7d", "]", ")", ":", ",", ";"].contains mark
  | .word "in" _ => return true
  | _ => return false

/-- Whether a `yield` stands here that is an operator or meant as one. -/
def beginsYield : Parser Bool := do
  if !(← isAtWord "yield") then return false
  if (← context).yield then return true
  nextOnLineSees isAtWordOrLiteral

/-- An expression that yields a value, or all values of another generator. -/
def yieldExpression (g : Grammar) : Parser Node := do
  let start ← offset
  Parser.check (← context).yield
  expectWord "yield"
  if ← onNewLine then return ← finish start .yieldExpression []
  let delegates ← eat "*"
  if !delegates && (← endsYield) then finish start .yieldExpression []
  else
    let operand ← Parser.within (fun context => { context with yield := true })
      (g (.assignment true))
    finish start .yieldExpression [operand]

/-- The two outcomes of a conditional expression behind its condition, if there are any. -/
def conditionalRest (g : Grammar) (resultTypes : Bool) (start : Nat) (condition : Node) :
    Parser Node := do
  if ← eat "?" then
    let first ← withInOperator (g (.assignment false))
    expect ":"
    let second ← g (.assignment resultTypes)
    finish start .conditional [condition, first, second]
  else return condition

/-- Whether `node` is a variable. -/
def isReference (node : Node) : Bool :=
  match node.form with
  | .reference _ => true
  | _ => false

/-- What follows an operand: the body of an arrow function, an assigned value, or the outcomes of a
condition. -/
def assignmentRest (g : Grammar) (resultTypes : Bool) (start : Nat) (left : Node) :
    Parser Node := do
  match ← present with
  | .punctuator "=>" =>
    Parser.require (isReference left)
    simpleArrow g start false resultTypes left
  | .punctuator mark =>
    if isAssignmentOperator mark then
      let target ← liftOption left.toTarget?
      advance
      let value ← g (.assignment resultTypes)
      finish start (.assignment mark) [target, value]
    else conditionalRest g resultTypes start left
  | _ => conditionalRest g resultTypes start left

/-- An expression without commas. -/
def assignment (g : Grammar) (resultTypes : Bool) : Parser Node := do
  if ← beginsYield then return ← yieldExpression g
  if let some arrow ← parenthesizedArrow? g resultTypes then return arrow
  if let some arrow ← asyncSimpleArrow? g resultTypes then return arrow
  let start ← offset
  let left ← g (.operators 0)
  assignmentRest g resultTypes start left

/-- Expressions separated by commas. -/
def expression (g : Grammar) : Parser Node := do
  let start ← offset
  match ← commaSequence (g (.assignment true)) with
  | [single] => return single
  | items => finish start .sequence items

end ModuleLinkage.Syntax
