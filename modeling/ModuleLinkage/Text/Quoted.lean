import ModuleLinkage.Unicode.Class

/-!
Double-quoted text. Quotes, backslashes and control characters below the space are escaped; every
other character stands for itself, so that the written form of a text holds no line feed and no
carriage return.
-/

set_option autoImplicit false

namespace ModuleLinkage.Text

open Unicode

/-- The four hexadecimal digits of a code below 2¹⁶, in lower case. -/
def fourHex (code : Nat) : List Char :=
  [code / 4096 % 16, code / 256 % 16, code / 16 % 16, code % 16].map Nat.digitChar

/-- One character inside quotes. -/
def escapeChar (c : Char) : List Char :=
  if c == '"' then ['\\', '"']
  else if c == '\\' then ['\\', '\\']
  else if c == '\x08' then ['\\', 'b']
  else if c == '\t' then ['\\', 't']
  else if c == '\n' then ['\\', 'n']
  else if c == '\x0c' then ['\\', 'f']
  else if c == '\r' then ['\\', 'r']
  else if c < ' ' then '\\' :: 'u' :: fourHex c.toNat
  else [c]

/-- `text` as a string literal. -/
def quote (text : List Char) : List Char :=
  '"' :: (text.flatMap escapeChar ++ ['"'])

/-- A plain identifier: an ASCII letter, underscore or dollar sign, then any number of these and
digits. -/
def isPlainIdentifier : List Char → Bool
  | [] => false
  | c :: rest => isPlainStart c && rest.all isPlainPart

/-- `name` as the key of a property: bare where it is a plain identifier, quoted elsewhere. -/
def propertyKey (name : List Char) : List Char :=
  if isPlainIdentifier name then name else quote name

end ModuleLinkage.Text
