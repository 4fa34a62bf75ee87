import ModuleLinkage.Syntax.Token
import ModuleLinkage.Unicode.Class

/-!
What stands between tokens: white space, line breaks and comments. The gap is read in one pass
that remembers which kind of comment, if any, it is inside.
-/

set_option autoImplicit false

namespace ModuleLinkage.Syntax

open Unicode

/-- Where in a gap the reader is. -/
inductive GapMode where
  | open
  | lineComment
  | blockComment
  deriving Repr, DecidableEq

/-- A gap that has been read: whether it holds a line break, and the place behind it. -/
structure Gap where
  newline : Bool
  next : Place
  deriving Repr

/-- Whether `text` begins with the characters of `start`. -/
def startsWith (start : String) (text : List Char) : Bool :=
  start.toList.isPrefixOf text

/-- The comment that the text `c :: rest` opens, and the number of characters of the opening mark
behind the first. `markers` says that `<!--`, and `-->` at the start of a line, open comments. -/
def commentOpening? (markers newline : Bool) (c : Char) (rest : List Char) :
    Option (GapMode × Nat) :=
  if c == '/' && startsWith "/" rest then some (.lineComment, 1)
  else if c == '/' && startsWith "*" rest then some (.blockComment, 1)
  else if markers && c == '<' && startsWith "!--" rest then some (.lineComment, 3)
  else if markers && newline && c == '-' && startsWith "->" rest then some (.lineComment, 2)
  else none

/-- Reads a gap. `skip` counts characters of a comment mark that has been read, and `newline` says
that the place is at the start of a line. No gap ends inside a block comment. -/
def skipGap (markers : Bool) (mode : GapMode) (skip : Nat) (newline : Bool) (offset : Nat) :
    List Char → Option Gap
  | [] => if mode = .blockComment then none else some ⟨newline, ⟨[], offset⟩⟩
  | c :: rest =>
    let behind := offset + c.utf8Size
    match skip, mode with
    | skip + 1, _ => skipGap markers mode skip newline behind rest
    | 0, .lineComment =>
      if isLineBreak c then skipGap markers .open 0 true behind rest
      else skipGap markers .lineComment 0 newline behind rest
    | 0, .blockComment =>
      if c == '*' && startsWith "/" rest then skipGap markers .open 1 newline behind rest
      else skipGap markers .blockComment 0 (newline || isLineBreak c) behind rest
    | 0, .open =>
      match commentOpening? markers newline c rest with
      | some (comment, skip) => skipGap markers comment skip newline behind rest
      | none =>
        if isLineBreak c then skipGap markers .open 0 true behind rest
        else if isSourceSpace c then skipGap markers .open 0 newline behind rest
        else some ⟨newline, ⟨c :: rest, offset⟩⟩

end ModuleLinkage.Syntax
