import ModuleLinkage.Unicode.IdentifierStart
import ModuleLinkage.Unicode.IdentifierContinue
import ModuleLinkage.Unicode.WordCharacter
import ModuleLinkage.Unicode.Displayed

/-!
Character classes over the whole of Unicode. ASCII is answered directly, everything else from the
tables.
-/

set_option autoImplicit false

namespace ModuleLinkage.Unicode

/-- Code points at which membership in `White_Space` changes. -/
def blank : ToggleTable := #[
  9, 14, 32, 33, 133, 134, 160, 161, 5760, 5761, 8192, 8203, 8232, 8234, 8239, 8240, 8287, 8288,
  12288, 12289]

/-- An ASCII letter. -/
def isAsciiLetter (c : Char) : Bool :=
  ('a' ≤ c && c ≤ 'z') || ('A' ≤ c && c ≤ 'Z')

/-- An ASCII decimal digit. -/
def isAsciiDigit (c : Char) : Bool :=
  '0' ≤ c && c ≤ '9'

/-- The characters that may begin an identifier name. -/
def isIdentifierStart (c : Char) : Bool :=
  if c.toNat < 128 then isAsciiLetter c || c == '_' || c == '$'
  else identifierStart.contains c

/-- The characters that may continue an identifier name; the two join controls are among them. -/
def isIdentifierPart (c : Char) : Bool :=
  if c.toNat < 128 then isAsciiLetter c || isAsciiDigit c || c == '_' || c == '$'
  else identifierContinue.contains c || c == '\u200c' || c == '\u200d'

/-- The characters that make up words, for the purpose of finding word boundaries. -/
def isWordCharacter (c : Char) : Bool :=
  if c.toNat < 128 then isAsciiLetter c || isAsciiDigit c || c == '_'
  else wordCharacter.contains c

/-- White space, line breaks included. -/
def isBlank (c : Char) : Bool :=
  blank.contains c

/-- The characters that a quoted debug text shows as themselves. -/
def isDisplayed (c : Char) : Bool :=
  if c.toNat < 128 then ' ' ≤ c && c != '\x7f' else displayed.contains c

/-- The white space of source text between tokens: tab, vertical tab, form feed, the byte order
mark, the space separators, and also next line and the zero width space. -/
def isSourceSpace (c : Char) : Bool :=
  c == ' ' || c == '\t' || c == '\x0b' || c == '\x0c' || c == '\ufeff' || c == '\u200b' ||
    (c.toNat ≥ 128 && isBlank c && c != '\u2028' && c != '\u2029')

/-- The characters that end a line of source text. -/
def isLineBreak (c : Char) : Bool :=
  c == '\n' || c == '\r' || c == '\u2028' || c == '\u2029'

/-- The characters that may begin an identifier in plain ASCII. -/
def isPlainStart (c : Char) : Bool :=
  isAsciiLetter c || c == '_' || c == '$'

/-- The characters of a plain ASCII word: letters, digits, underscore and dollar sign. -/
def isPlainPart (c : Char) : Bool :=
  isPlainStart c || isAsciiDigit c

end ModuleLinkage.Unicode
