import ModuleLinkage.Syntax.Token
import ModuleLinkage.Syntax.Lexer.Escape

/-!
Names: identifiers and keywords, which may spell any of their characters by a Unicode escape.
-/

set_option autoImplicit false

namespace ModuleLinkage.Syntax

open Unicode

/-- A name that has been read. -/
structure Name where
  chars : List Char
  escaped : Bool
  next : Place
  deriving Repr, Inhabited

/-- Reads the rest of a name. `first` says that nothing of it has been read, `skip` counts
characters that belong to an escape already read, and `read` holds the name so far, last character
first. There is no name where an escape denotes a character that may not stand there. -/
def scanName (first escaped : Bool) (skip : Nat) (read : List Char) (offset : Nat) :
    List Char → Option Name
  | [] => if first then none else some ⟨read.reverse, escaped, ⟨[], offset⟩⟩
  | c :: rest =>
    match skip with
    | skip + 1 => scanName first escaped skip read (offset + c.utf8Size) rest
    | 0 =>
      let fits (c : Char) : Bool := if first then isIdentifierStart c else isIdentifierPart c
      if fits c then scanName false escaped 0 (c :: read) (offset + c.utf8Size) rest
      else
        match c, rest with
        | '\\', 'u' :: after =>
          match unicodeCode? after with
          | some (code, used) =>
            match charOfCode? code with
            | some denoted =>
              if fits denoted then
                scanName false true (used + 1) (denoted :: read) (offset + 1) rest
              else none
            | none => none
          | none => none
        | '\\', _ => none
        | _, _ =>
          if first then none else some ⟨read.reverse, escaped, ⟨c :: rest, offset⟩⟩

/-- The name that begins at a place. -/
def readName? (place : Place) : Option Name :=
  scanName true false 0 [] place.offset place.rest

end ModuleLinkage.Syntax
