import ModuleLinkage.Syntax.Parser.State
import ModuleLinkage.Syntax.Parser.Words

/-!
Reading tokens: tests of the present token, moving on to the next, names, and the semicolons that
may be left out. A word may be written with escapes as a name, but not in a role of its own: tests
do not tell the spellings apart, and going on over a word in its role notes the fault.
-/

set_option autoImplicit false

namespace ModuleLinkage.Syntax

open Text (Span)

/-- The token that the parser stands at. -/
def present : Parser Token := do
  return (← Parser.get).lexeme.token

/-- The offset where the present token begins. -/
def offset : Parser Nat := do
  return (← Parser.get).lexeme.span.start

/-- Whether a line break comes before the present token. -/
def onNewLine : Parser Bool := do
  return (← Parser.get).lexeme.newlineBefore

def settings : Parser Settings := do
  return (← Parser.get).settings

def context : Parser Context := do
  return (← Parser.get).context

/-- Whether the grammar of types is switched on. -/
def typescript : Parser Bool := do
  return (← settings).typescript

/-- Goes on to the token behind the present one, which is a name if it is a word. -/
def pass : Parser Unit :=
  Parser.modify fun state =>
    { state with
      previousStop := state.lexeme.span.stop
      lexeme := readLexeme (!state.settings.module) false state.lexeme.next }

/-- Goes on to the token behind the present one, which has its own role if it is a word. -/
def advance : Parser Unit := do
  match ← present with
  | .word word true => Parser.check !(isKeyword word)
  | _ => pure ()
  pass

/-- Takes `token`, which ends at `next`, in place of the present token. -/
def replaceToken (token : Token) (next : Place) : Parser Unit :=
  Parser.modify fun state =>
    { state with
      lexeme := { state.lexeme with
        token
        span := ⟨state.lexeme.span.start, next.offset⟩
        next } }

/-- Reads, from the closing brace that is the present token, the next piece of a template. -/
def continueTemplate : Parser Unit := do
  let next := (← Parser.get).lexeme.next
  let (token, next) := scanTemplate 0 true next.offset next.rest
  replaceToken token next

/-- Whether the present token is the punctuator `mark`. -/
def isAt (mark : String) : Parser Bool := do
  return (← present) == .punctuator mark

/-- Whether the present token is the word `word`. -/
def isAtWord (word : String) : Parser Bool := do
  match ← present with
  | .word found _ => return found == word
  | _ => return false

/-- Reads the punctuator `mark` if it is the present token. -/
def eat (mark : String) : Parser Bool := do
  if ← isAt mark then
    advance
    return true
  return false

/-- Reads the word `word` if it is the present token. -/
def eatWord (word : String) : Parser Bool := do
  if ← isAtWord word then
    advance
    return true
  return false

def expect (mark : String) : Parser Unit := do
  Parser.require (← eat mark)

def expectWord (word : String) : Parser Unit := do
  Parser.require (← eatWord word)

/-- The node that ends with the token before the present one. -/
def finish (start : Nat) (form : Form) (parts : List Node) : Parser Node := do
  return .mk ⟨start, (← Parser.get).previousStop⟩ form parts

/-- Reads the present token as a node without parts. -/
def leaf (form : Form) : Parser Node := do
  let start ← offset
  advance
  finish start form []

/-- Reads the present word as a name. -/
def nameLeaf (form : Form) : Parser Node := do
  let start ← offset
  pass
  finish start form []

/-- Whether the token behind the present one passes `test`. -/
def nextSees (test : Parser Bool) : Parser Bool :=
  Parser.sees do
    advance
    test

/-- Whether the token behind the present one stands on the same line and passes `test`. -/
def nextOnLineSees (test : Parser Bool) : Parser Bool :=
  nextSees do return !(← onNewLine) && (← test)

/-- Notes a fault where `word` names a variable though it is an operator here. -/
def checkName (word : String) : Parser Unit := do
  let context ← context
  Parser.check !((word == "await" && context.await) || (word == "yield" && context.yield))

/-- Whether the present token is a word that may name a variable somewhere. -/
def isAtName : Parser Bool := do
  match ← present with
  | .word word _ => return !isReserved word
  | _ => return false

/-- Whether the present token is a word that may name a variable everywhere. -/
def isAtIdentifier : Parser Bool := do
  match ← present with
  | .word word _ => return !isReservedSomewhere word
  | _ => return false

/-- Whether the present token is any word, reserved ones included. -/
def isAtAnyWord : Parser Bool := do
  match ← present with
  | .word _ _ => return true
  | _ => return false

/-- Reads the name of a variable as a node of the form that `form` gives. -/
def variableName (form : String → Form) : Parser Node := do
  match ← present with
  | .word word _ =>
    Parser.require !(isReserved word)
    checkName word
    nameLeaf (form word)
  | _ => Parser.fail

/-- Reads a name that is bound here. -/
def bindingName : Parser Node :=
  variableName .binding

/-- Reads any word as the name of a property. -/
def propertyWord : Parser Node := do
  match ← present with
  | .word word _ => nameLeaf (.propertyName word)
  | _ => Parser.fail

/-- Whether a semicolon may be left out before the present token, or is there. -/
def endsStatement : Parser Bool := do
  match ← present with
  | .punctuator ";" | .punctuator "\x7d" | .endOfText => return true
  | _ => onNewLine

/-- Reads the end of a statement: a semicolon, or nothing where it may be left out. -/
def semicolon : Parser Unit := do
  Parser.require (← endsStatement)
  discard (eat ";")

/-- Whether the present token is a string. -/
def isAtString : Parser Bool := do
  match ← present with
  | .string _ => return true
  | _ => return false

/-- Reads a string as a node of the form that `form` gives for its value. -/
def stringAs (form : String → Form) : Parser Node := do
  match ← present with
  | .string value => leaf (form value.text)
  | _ => Parser.fail

/-- The parts read by `item`, separated by commas, up to the punctuator `close`, which is read
too. A comma may follow the last of them. -/
def commaListUntil {α : Type} (close : String) (item : Parser α) : Parser (List α) := do
  let items ← Parser.many do
    if ← isAt close then return none
    let part ← item
    if !(← isAt close) then expect ","
    return some part
  expect close
  return items

/-- One or more parts read by `item`, separated by commas. -/
def commaSequence (item : Parser Node) : Parser (List Node) := do
  let first ← item
  let rest ← Parser.many do
    if ← eat "," then return some (← item)
    return none
  return first :: rest

end ModuleLinkage.Syntax
