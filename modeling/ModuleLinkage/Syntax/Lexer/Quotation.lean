import ModuleLinkage.Syntax.Token
import ModuleLinkage.Syntax.Lexer.Escape

/-!
Quoted text: string literals, the pieces of templates, and regular expressions.
-/

set_option autoImplicit false

namespace ModuleLinkage.Syntax

open Unicode

/-- What a string literal holds, before it is written as a value. -/
inductive Unit16 where
  | char (c : Char)
  | surrogate (code : Nat)
  deriving Repr, DecidableEq

/-- A code below 2¹⁶ behind the replacement character, in four hexadecimal digits. -/
def replacementFor (code : Nat) : List Char :=
  '\ufffd' :: [code / 4096 % 16, code / 256 % 16, code / 16 % 16, code % 16].map Nat.digitChar

/-- The value of a string literal that holds `units`. -/
def StringValue.ofUnits (units : List Unit16) : StringValue :=
  let isChar : Unit16 → Bool
    | .char _ => true
    | .surrogate _ => false
  let wellFormed := units.all isChar
  let spell : Unit16 → List Char
    | .char c => if c == '\ufffd' && !wellFormed then replacementFor c.toNat else [c]
    | .surrogate code => replacementFor code
  ⟨String.ofList (units.flatMap spell), wellFormed⟩

/-- Reads a string literal up to the closing `quote`. `skip` counts characters of an escape that
has been read, and `units` holds what has been read, last first. Line feeds and carriage returns
end no string. -/
def scanString (quote : Char) (skip : Nat) (units : List Unit16) (offset : Nat) :
    List Char → Option (List Unit16 × Place)
  | [] => none
  | c :: rest =>
    match skip with
    | skip + 1 => scanString quote skip units (offset + c.utf8Size) rest
    | 0 =>
      if c == quote then some (units.reverse, ⟨rest, offset + c.utf8Size⟩)
      else if c == '\n' || c == '\r' then none
      else if c == '\\' then
        match readEscape rest with
        | some (.char denoted, used) =>
          scanString quote used (.char denoted :: units) (offset + c.utf8Size) rest
        | some (.surrogate code, used) =>
          scanString quote used (.surrogate code :: units) (offset + c.utf8Size) rest
        | some (.nothing, used) => scanString quote used units (offset + c.utf8Size) rest
        | none => none
      else scanString quote 0 (.char c :: units) (offset + c.utf8Size) rest

/-- The string literal behind an opening `quote`. -/
def readString (quote : Char) (place : Place) : Token × Place :=
  match scanString quote 0 [] place.offset place.rest with
  | some (units, next) => (.string (.ofUnits units), next)
  | none => (.invalid, place)

/-- Reads a piece of a template up to a grave accent or the opening of a substitution. -/
def scanTemplate (skip : Nat) (cooked : Bool) (offset : Nat) :
    List Char → Token × Place
  | [] => (.invalid, ⟨[], offset⟩)
  | c :: rest =>
    match skip with
    | skip + 1 => scanTemplate skip cooked (offset + c.utf8Size) rest
    | 0 =>
      match c, rest with
      | '`', _ => (.template true cooked, ⟨rest, offset + 1⟩)
      | '$', '\x7b' :: after => (.template false cooked, ⟨after, offset + 2⟩)
      | '\\', _ =>
        match readEscape rest with
        | some (_, used) =>
          scanTemplate used (cooked && !isLegacyEscape rest) (offset + 1) rest
        | none => scanTemplate (min 1 rest.length) false (offset + 1) rest
      | _, _ => scanTemplate 0 cooked (offset + c.utf8Size) rest

/-- Reads the body of a regular expression up to the slash that ends it. `inClass` says that the
reader is inside brackets, where a slash does not count, and `skip` that the next character is
escaped. -/
def scanPattern (inClass skip : Bool) (offset : Nat) : List Char → Option Place
  | [] => none
  | c :: rest =>
    let offset := offset + c.utf8Size
    if isLineBreak c then none
    else if skip then scanPattern inClass false offset rest
    else if c == '\\' then scanPattern inClass true offset rest
    else if c == '[' then scanPattern true false offset rest
    else if c == ']' then scanPattern false false offset rest
    else if c == '/' && !inClass then some ⟨rest, offset⟩
    else scanPattern inClass false offset rest

/-- Reads the flags of a regular expression: each of the known letters at most once. -/
def scanFlags (seen : List Char) (offset : Nat) : List Char → Option Place
  | [] => some ⟨[], offset⟩
  | c :: rest =>
    if isIdentifierPart c then
      if "dgimsuvy".toList.contains c && !seen.contains c then
        scanFlags (c :: seen) (offset + c.utf8Size) rest
      else none
    else some ⟨c :: rest, offset⟩

/-- The regular expression behind an opening slash. -/
def readRegex (place : Place) : Token × Place :=
  match scanPattern false false place.offset place.rest with
  | some next =>
    match scanFlags [] next.offset next.rest with
    | some next => (.regex, next)
    | none => (.invalid, next)
  | none => (.invalid, place)

end ModuleLinkage.Syntax
