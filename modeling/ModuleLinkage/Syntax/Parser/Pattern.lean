import ModuleLinkage.Syntax.Parser.Modifiers

/-!
Names of properties, binding patterns and parameters.
-/

set_option autoImplicit false

namespace ModuleLinkage.Syntax

/-- Runs a parser where `in` is an operator. -/
def withInOperator {α : Type} (parser : Parser α) : Parser α :=
  Parser.within (fun context => { context with inOperator := true }) parser

/-- An expression without commas, in which `in` is an operator. -/
def element (g : Grammar) : Parser Node :=
  withInOperator (g (.assignment true))

/-- A type behind a colon, if there is one. -/
def typeAnnotation? (g : Grammar) : Parser (List Node) := do
  if ← typescript <&&> eat ":" then return [← g .type]
  return []

/-- A value behind an equals sign, if there is one. -/
def initializer? (g : Grammar) : Parser (List Node) := do
  if ← eat "=" then return [← g (.assignment true)]
  return []

/-- The name of a property: a word, string or number, or an expression in brackets. -/
def propertyKey (g : Grammar) : Parser Node := do
  match ← present with
  | .word word _ => nameLeaf (.propertyName word)
  | .string value => leaf (.string value.text)
  | .number | .bigint => leaf .literal
  | .punctuator "[" =>
    let start ← offset
    advance
    let key ← element g
    expect "]"
    finish start .computedName [key]
  | _ => Parser.fail

/-- A pattern that may have a default value. -/
def patternElement (g : Grammar) : Parser Node := do
  let start ← offset
  let pattern ← g .pattern
  if ← eat "=" then
    let value ← element g
    finish start .defaultPattern [pattern, value]
  else return pattern

/-- A rest pattern, read by `inner`; no comma and no default value may follow it. -/
def restPattern (inner : Parser Node) : Parser Node := do
  let start ← offset
  expect "..."
  let pattern ← inner
  finish start .restPattern [pattern]

/-- The elements of an array pattern, behind the opening bracket. -/
def arrayPatternElements (g : Grammar) : Parser (List Node) := do
  let elements ← Parser.many do
    if ← isAt "]" then return none
    if ← eat "," then return some []
    if ← isAt "..." then
      let rest ← restPattern (g .pattern)
      Parser.require (← isAt "]")
      return some [rest]
    let pattern ← patternElement g
    if !(← isAt "]") then expect ","
    return some [pattern]
  expect "]"
  return elements.flatten

/-- A property of an object pattern. -/
def propertyPattern (g : Grammar) : Parser Node := do
  let start ← offset
  if ← isAt "..." then
    let rest ← restPattern bindingName
    Parser.require (← isAt "\x7d")
    return rest
  let token ← present
  let key ← propertyKey g
  if ← eat ":" then
    let pattern ← patternElement g
    return ← finish start .propertyPattern [key, pattern]
  match token with
  | .word word _ =>
    Parser.require !(isReserved word)
    checkName word
    let binding ← finish start (.binding word) []
    let pattern ←
      if ← eat "=" then
        let value ← element g
        finish start .defaultPattern [binding, value]
      else pure binding
    finish start .propertyPattern [key, pattern]
  | _ => Parser.fail

/-- A name, or a pattern of names. -/
def pattern (g : Grammar) : Parser Node := do
  let start ← offset
  match ← present with
  | .punctuator "[" =>
    advance
    let elements ← arrayPatternElements g
    finish start .arrayPattern elements
  | .punctuator "\x7b" =>
    advance
    let properties ← commaListUntil "\x7d" (propertyPattern g)
    finish start .objectPattern properties
  | _ => bindingName

/-- Whether a node holds an optional access that stands in no parentheses. -/
def isOptionalChain (node : Node) : Bool :=
  match node.form with
  | .optionalChain => true
  | _ => false

/-- An expression behind an at sign. Its accesses are not optional. -/
def decorator (g : Grammar) : Parser Node := do
  let start ← offset
  expect "@"
  let expression ←
    Parser.within (fun context => { context with decorating := true }) (g .leftHandSide)
  Parser.check !(isOptionalChain expression)
  finish start .decorator [expression]

/-- Any number of decorators. -/
def decorators (g : Grammar) : Parser (List Node) :=
  Parser.many do
    if ← isAt "@" then return some (← decorator g)
    return none

/-- What parameters belong to. -/
inductive ParameterOwner where
  | function
  | method
  | constructor
  deriving Repr, DecidableEq, Inhabited

/-- The words that make a parameter of a constructor a property too. -/
def propertyModifiers : List String :=
  ["override", "readonly"] ++ accessWords

/-- One parameter. Only those of the methods and constructors of classes have decorators, and only
those of constructors modifiers, both in the grammar with types; a parameter that is a property too
has a plain name. None follows a rest parameter, though in a description of what exists elsewhere
a comma may. -/
def parameter (g : Grammar) (owner : ParameterOwner) : Parser Node := do
  let start ← offset
  let types ← typescript
  let decorators ← decorators g
  Parser.check (decorators.isEmpty || (types && owner != .function))
  if ← isAt "..." then
    Parser.check decorators.isEmpty
    let rest ← restPattern (g .pattern)
    let type ← typeAnnotation? g
    let endsList ←
      if (← context).ambient && (← isAt ",") then nextSees (isAt ")") else isAt ")"
    Parser.require endsList
    return ← finish start .parameter (decorators ++ [rest] ++ type)
  let modifiers ← plainModifiers
  checkModifiers (if types && owner == .constructor then propertyModifiers else []) modifiers
  let pattern ← g .pattern
  Parser.check (modifiers.isEmpty || pattern.boundName?.isSome)
  let optional ← if types then eat "?" else pure false
  let type ← typeAnnotation? g
  let value ← initializer? g
  Parser.check !(optional && !value.isEmpty)
  finish start .parameter (decorators ++ [pattern] ++ type ++ value)

/-- The parameter that gives the type of `this`. -/
def thisParameter (g : Grammar) : Parser Node := do
  let start ← offset
  expectWord "this"
  let type ← typeAnnotation? g
  let parameter ← finish start .thisParameter type
  if !(← isAt ")") then expect ","
  return parameter

/-- Parameters in parentheses. -/
def parameters (g : Grammar) (owner : ParameterOwner) : Parser Node := do
  let start ← offset
  expect "("
  withInOperator do
    let this ← if (← typescript) && (← isAtWord "this") then pure [← thisParameter g] else pure []
    let items ← commaListUntil ")" (parameter g owner)
    finish start .parameters (this ++ items)

/-- Whether parameters begin with one for `this`. -/
def hasThisParameter (parameters : Node) : Bool :=
  parameters.parts.any fun part =>
    match part.form with
    | .thisParameter => true
    | _ => false

end ModuleLinkage.Syntax
