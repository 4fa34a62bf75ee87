import ModuleLinkage.Text.Span

/-!
Tokens of source text. Keywords are words: which words are reserved depends on the place, and is
the parser's business.
-/

set_option autoImplicit false

namespace ModuleLinkage.Syntax

/-- The value of a string literal. A surrogate that stands alone has no character; it is written
as the replacement character followed by its four hexadecimal digits, and in such a value the
replacement character itself is written the same way. -/
structure StringValue where
  text : String
  /-- Whether no surrogate stands alone in the value. -/
  wellFormed : Bool
  deriving Repr, DecidableEq, Inhabited

inductive Token where
  /-- An identifier or keyword, its escapes decoded. -/
  | word (name : String) (escaped : Bool)
  /-- A name after `#`. -/
  | privateName (name : String)
  | punctuator (text : String)
  | number
  | bigint
  | string (value : StringValue)
  /-- A piece of a template, from the grave accent or closing brace that begins it. `last` says
  that a grave accent ends it, `cooked` that its escapes all denote characters. -/
  | template (last cooked : Bool)
  | regex
  /-- The text between the tags of a markup element. -/
  | markupText
  | endOfText
  /-- Characters that begin no token. -/
  | invalid
  deriving Repr, DecidableEq, Inhabited

/-- A place in a source text: what is left of it and the offset where that begins. -/
structure Place where
  rest : List Char
  offset : Nat
  deriving Repr, Inhabited

/-- A token, where it stands, whether a line break comes before it, and the place behind it. -/
structure Lexeme where
  token : Token
  span : Text.Span
  newlineBefore : Bool
  next : Place
  deriving Repr, Inhabited

end ModuleLinkage.Syntax
