import ModuleLinkage.Syntax.Parser.Type

/-!
Markup: elements and fragments, their attributes and children. An element's last greater-than sign
is left as the present token, because what follows it is read as text inside another element and as
ordinary tokens elsewhere.
-/

set_option autoImplicit false

namespace ModuleLinkage.Syntax

/-- The token at a place inside an element, between its children. -/
def childToken (place : Place) : Token × Place :=
  match place.rest with
  | [] => (.endOfText, place)
  | '<' :: rest => (.punctuator "<", ⟨rest, place.offset + 1⟩)
  | '\x7b' :: rest => (.punctuator "\x7b", ⟨rest, place.offset + 1⟩)
  | _ =>
    match scanMarkupText place.offset place.rest with
    | some next => (.markupText, next)
    | none => (.invalid, place)

/-- Goes on to a token that `read` reads right behind the present one. -/
def advanceBy (read : Place → Token × Place) : Parser Unit :=
  Parser.modify fun state =>
    let place := state.lexeme.next
    let (token, next) := read place
    { state with
      previousStop := state.lexeme.span.stop
      lexeme := ⟨token, ⟨place.offset, next.offset⟩, false, next⟩ }

/-- The token behind the equals sign of an attribute. -/
def valueToken (place : Place) : Token × Place :=
  match place.rest with
  | c :: rest =>
    if c == '"' || c == '\'' then
      match scanMarkupString c (place.offset + 1) rest with
      | some next => (.string ⟨"", true⟩, next)
      | none => (.invalid, place)
    else readToken place
  | [] => (.endOfText, place)

/-- Goes on over a gap to the value of an attribute. -/
def advanceToAttributeValue : Parser Unit :=
  Parser.modify fun state =>
    let place := state.lexeme.next
    let lexeme :=
      match skipGap false .open 0 false place.offset place.rest with
      | some gap =>
        let (token, next) := valueToken gap.next
        ⟨token, ⟨gap.next.offset, next.offset⟩, gap.newline, next⟩
      | none => ⟨.invalid, ⟨place.offset, place.offset⟩, false, place⟩
    { state with previousStop := state.lexeme.span.stop, lexeme }

/-- Reads a name that may hold hyphens. One that is written with escapes, which no keyword is, is
another name than the one without: a backslash marks it. -/
def markupWord : Parser String := do
  match ← present with
  | .word word escaped =>
    Parser.require !(escaped && isKeyword word)
    let state ← Parser.get
    let next := scanMarkupName state.lexeme.next.offset state.lexeme.next.rest
    let tail := Text.takeBytes (next.offset - state.lexeme.next.offset) state.lexeme.next.rest
    replaceToken (.word word escaped) next
    pass
    let mark := if escaped then ['\\'] else []
    return String.ofList (mark ++ word.toList ++ tail)
  | _ => Parser.fail

/-- Reads a name behind a period, which may hold no hyphens. -/
def markupMember : Parser String := do
  let name ← markupWord
  Parser.require !(name.contains '-')
  return name

/-- Reads the name of an element or attribute: words joined by periods or by one colon. -/
def markupName (element : Bool) : Parser String := do
  let first ← markupWord
  if ← eat ":" then return first ++ ":" ++ (← markupWord)
  if !element then return first
  Parser.iterate
    (fun name => do
      if ← eat "." then return some (name ++ "." ++ (← markupMember))
      return none)
    first

/-- Whether an expression is a sequence with commas. -/
def isSequence (expression : Node) : Bool :=
  match expression.form with
  | .sequence => true
  | _ => false

/-- An expression in braces, which is no sequence by itself. As a child of an element it may be left
out or be spread. The closing brace stays the present token. -/
def bracedExpression (g : Grammar) (isChild : Bool) : Parser (List Node) := do
  expect "\x7b"
  if isChild && (← isAt "\x7d") then return []
  let spread ← if isChild then eat "..." else pure false
  let expression ← g .expression
  Parser.check (spread || !isSequence expression)
  Parser.require (← isAt "\x7d")
  return [expression]

/-- An attribute of an element. -/
def markupAttribute (g : Grammar) : Parser (List Node) := do
  if ← isAt "\x7b" then
    expect "\x7b"
    expect "..."
    let expression ← g .expression
    expect "\x7d"
    return [expression]
  discard (markupName false)
  if ← isAt "=" then
    advanceToAttributeValue
    match ← present with
    | .string _ =>
      advance
      return []
    | .punctuator "\x7b" =>
      let value ← bracedExpression g false
      expect "\x7d"
      return value
    | .punctuator "<" =>
      let value ← g .markup
      advance
      return [value]
    | _ => Parser.fail
  return []

/-- The children of an element, up to the slash of its closing tag. -/
def markupChildren (g : Grammar) : Parser (List Node) := do
  let parts ← Parser.many do
    match ← present with
    | .markupText =>
      advanceBy childToken
      return some []
    | .punctuator "\x7b" =>
      let parts ← bracedExpression g true
      advanceBy childToken
      return some parts
    | .punctuator "<" =>
      if ← nextSees (isAt "/") then
        advance
        return none
      let child ← g .markup
      advanceBy childToken
      return some [child]
    | _ => Parser.fail
  return parts.flatten

/-- The node that ends with the present token. -/
def finishAtPresent (start : Nat) (form : Form) (parts : List Node) : Parser Node := do
  return .mk ⟨start, (← Parser.get).lexeme.span.stop⟩ form parts

/-- An element or a fragment, up to its last greater-than sign. -/
def markup (g : Grammar) : Parser Node := do
  let start ← offset
  expect "<"
  if ← isAt ">" then
    advanceBy childToken
    let parts ← markupChildren g
    expect "/"
    Parser.require (← isAt ">")
    finishAtPresent start .markup parts
  else
    let name ← markupName true
    let arguments ← if ← typescript then typeArguments? g else pure []
    let attributes ← Parser.many do
      if (← isAt ">") || (← isAt "/") then return none
      return some (← markupAttribute g)
    if ← eat "/" then
      Parser.require (← isAt ">")
      finishAtPresent start .markup (arguments ++ attributes.flatten)
    else
      Parser.require (← isAt ">")
      advanceBy childToken
      let parts ← markupChildren g
      expect "/"
      let closing ← markupName true
      Parser.require (closing == name && (← isAt ">"))
      finishAtPresent start .markup (arguments ++ attributes.flatten ++ parts)

end ModuleLinkage.Syntax
