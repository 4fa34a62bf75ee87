import ModuleLinkage.Syntax.Lexer.Gap
import ModuleLinkage.Syntax.Lexer.Name
import ModuleLinkage.Syntax.Lexer.Numeral
import ModuleLinkage.Syntax.Lexer.Quotation

/-!
Reading tokens. Which token stands at a place depends on what the parser expects there, so tokens
are read one at a time: `readLexeme` reads the token after a gap, and the other readers read, at the
place of the present token, what it is in a regular expression, a template or a markup element.
-/

set_option autoImplicit false

namespace ModuleLinkage.Syntax

open Unicode

/-- The punctuators, longer ones before those that they begin with. A greater-than sign is always
read alone; where an operator is expected, `rereadOperator` joins it with what follows. -/
def punctuators : List String :=
  ["...", "===", "!==", "**=", "<<=", "&&=", "||=", "??=",
    "=>", "==", "!=", "<=", "&&", "||", "??", "?.", "++", "--", "+=", "-=", "*=", "%=", "&=", "|=",
    "^=", "/=", "<<", "**",
    "\x7b", "\x7d", "(", ")", "[", "]", ".", ";", ",", "<", ">", "+", "-", "*", "%", "&", "|", "^",
    "!", "~", "?", ":", "=", "@", "/"]

/-- What is left of `text` behind `start`, if it begins with that. -/
def dropStart? : List Char → List Char → Option (List Char)
  | [], text => some text
  | _ :: _, [] => none
  | s :: start, c :: text => if s == c then dropStart? start text else none

/-- Whether `mark` is the punctuator at the start of `text`; a `?.` before a digit is not one. -/
def standsAt (mark : String) (text : List Char) : Option (List Char) :=
  match dropStart? mark.toList text with
  | some rest =>
    if mark == "?." && (rest.head?.map isAsciiDigit).getD false then none else some rest
  | none => none

/-- The first of `marks` that stands at a place. -/
def readPunctuator (marks : List String) (place : Place) : Token × Place :=
  match marks.findSome? fun mark => (standsAt mark place.rest).map fun rest => (mark, rest) with
  | some (mark, rest) => (.punctuator mark, ⟨rest, place.offset + mark.utf8ByteSize⟩)
  | none => (.invalid, place)

/-- The name at a place, as the token that `token` makes of it. -/
def readNameAs (token : String → Bool → Token) (place : Place) : Token × Place :=
  match readName? place with
  | some name => (token (String.ofList name.chars) name.escaped, name.next)
  | none => (.invalid, place)

/-- The token at a place where no gap stands. -/
def readToken (place : Place) : Token × Place :=
  match place.rest with
  | [] => (.endOfText, place)
  | c :: rest =>
    let behind : Place := ⟨rest, place.offset + c.utf8Size⟩
    if isIdentifierStart c || c == '\\' then readNameAs .word place
    else if isAsciiDigit c then readNumeral place
    else if c == '"' || c == '\'' then readString c behind
    else if c == '`' then scanTemplate 0 true behind.offset behind.rest
    else if c == '#' then readNameAs (fun name _ => .privateName name) behind
    else if c == '.' && (rest.head?.map isAsciiDigit).getD false then endFraction true behind
    else readPunctuator punctuators place

/-- The first token behind a place, after any gap. `markers` and `newline` are those of
`skipGap`. -/
def readLexeme (markers newline : Bool) (place : Place) : Lexeme :=
  match skipGap markers .open 0 newline place.offset place.rest with
  | some gap =>
    let (token, next) := readToken gap.next
    ⟨token, ⟨gap.next.offset, next.offset⟩, gap.newline, next⟩
  | none => ⟨.invalid, ⟨place.offset, place.offset⟩, newline, place⟩

/-- The operators that a greater-than sign begins. -/
def greaterOperators : List String :=
  [">>>=", ">>>", ">>=", ">>", ">=", ">"]

/-- The operator at `place`, which begins with a greater-than sign. -/
def rereadOperator (place : Place) : Token × Place :=
  readPunctuator greaterOperators place

/-- Reads a markup name: a name that may hold hyphens. It has no escapes. -/
def scanMarkupName (offset : Nat) : List Char → Place
  | [] => ⟨[], offset⟩
  | c :: rest =>
    if isIdentifierPart c || c == '-' then scanMarkupName (offset + c.utf8Size) rest
    else ⟨c :: rest, offset⟩

/-- Reads a markup attribute's string: everything up to the closing quote, without escapes. -/
def scanMarkupString (quote : Char) (offset : Nat) : List Char → Option Place
  | [] => none
  | c :: rest =>
    if c == quote then some ⟨rest, offset + c.utf8Size⟩
    else scanMarkupString quote (offset + c.utf8Size) rest

/-- Reads markup text up to an opening brace or tag. A closing brace or greater-than sign may not
stand in it. -/
def scanMarkupText (offset : Nat) : List Char → Option Place
  | [] => some ⟨[], offset⟩
  | c :: rest =>
    if c == '<' || c == '\x7b' then some ⟨c :: rest, offset⟩
    else if c == '>' || c == '\x7d' then none
    else scanMarkupText (offset + c.utf8Size) rest

end ModuleLinkage.Syntax
