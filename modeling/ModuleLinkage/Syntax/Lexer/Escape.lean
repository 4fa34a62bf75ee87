import ModuleLinkage.Unicode.Class

/-!
Escape sequences. Each reader takes what follows the backslash and answers what the escape denotes
together with the number of characters it takes.
-/

set_option autoImplicit false

namespace ModuleLinkage.Syntax

open Unicode

/-- The value of a hexadecimal digit. -/
def hexValue? (c : Char) : Option Nat :=
  if isAsciiDigit c then some (c.toNat - '0'.toNat)
  else if 'a' ≤ c && c ≤ 'f' then some (c.toNat - 'a'.toNat + 10)
  else if 'A' ≤ c && c ≤ 'F' then some (c.toNat - 'A'.toNat + 10)
  else none

/-- The number that all of `digits` denote in base 16. -/
def hexNumber? (digits : List Char) : Option Nat :=
  digits.foldl
    (fun value digit => do return (← value) * 16 + (← hexValue? digit)) (some 0)

/-- Reads hexadecimal digits up to a closing brace; `used` counts the characters read before. -/
def bracedCode? (value used : Nat) : List Char → Option (Nat × Nat)
  | [] => none
  | '\x7d' :: _ => if used = 0 then none else some (value, used + 1)
  | c :: rest =>
    match hexValue? c with
    | some digit =>
      let value := value * 16 + digit
      if value > 0x10ffff then none else bracedCode? value (used + 1) rest
    | none => none

/-- Reads what follows `\u`: four digits, or digits in braces. -/
def unicodeCode? : List Char → Option (Nat × Nat)
  | '\x7b' :: rest => (bracedCode? 0 0 rest).map fun (code, used) => (code, used + 1)
  | a :: b :: c :: d :: _ => (hexNumber? [a, b, c, d]).map fun code => (code, 4)
  | _ => none

/-- The character with a given code, unless the code is that of a surrogate or too large. -/
def charOfCode? (code : Nat) : Option Char :=
  if code.isValidChar then some (Char.ofNat code) else none

/-- What an escape in quoted text denotes. -/
inductive Escaped where
  | char (c : Char)
  /-- A surrogate that stands alone. -/
  | surrogate (code : Nat)
  /-- A line continuation. -/
  | nothing
  deriving Repr, DecidableEq

/-- What a code denotes when nothing is joined to it. -/
def escapedCode (code : Nat) : Escaped :=
  match charOfCode? code with
  | some c => .char c
  | none => .surrogate code

/-- Joins a high surrogate with a low one that follows it. -/
def joinSurrogates (high low : Nat) : Char :=
  Char.ofNat (0x10000 + (high - 0xd800) * 0x400 + (low - 0xdc00))

/-- What a code from an escape of four digits denotes when `rest` follows it. A high surrogate that
a second such escape follows joins with the low surrogate that this one denotes; it stands alone
before any other code, and nothing but four digits may follow the second mark. -/
def fourDigitEscape (code : Nat) (rest : List Char) : Option (Escaped × Nat) :=
  if 0xd800 ≤ code && code < 0xdc00 then
    match rest with
    | '\\' :: 'u' :: a :: b :: c :: d :: _ =>
      (hexNumber? [a, b, c, d]).map fun low =>
        if 0xdc00 ≤ low && low < 0xe000 then (.char (joinSurrogates code low), 10)
        else (.surrogate code, 4)
    | '\\' :: 'u' :: _ => none
    | _ => some (.surrogate code, 4)
  else some (escapedCode code, 4)

/-- Reads what follows `\u` in quoted text. -/
def unicodeEscape : List Char → Option (Escaped × Nat)
  | '\x7b' :: rest =>
    (bracedCode? 0 0 rest).map fun (code, used) => (escapedCode code, used + 1)
  | a :: b :: c :: d :: rest => do fourDigitEscape (← hexNumber? [a, b, c, d]) rest
  | _ => none

/-- Reads an octal escape whose first digit is `first`: at most three digits, below 256. -/
def octalEscape (first : Char) (rest : List Char) : Escaped × Nat :=
  let digit (c : Char) : Option Nat :=
    if '0' ≤ c && c ≤ '7' then some (c.toNat - '0'.toNat) else none
  let a := first.toNat - '0'.toNat
  match rest with
  | second :: rest =>
    match digit second with
    | none => (.char (Char.ofNat a), 1)
    | some b =>
      match rest with
      | third :: _ =>
        match digit third with
        | some c =>
          if a ≤ 3 then (.char (Char.ofNat (a * 64 + b * 8 + c)), 3)
          else (.char (Char.ofNat (a * 8 + b)), 2)
        | none => (.char (Char.ofNat (a * 8 + b)), 2)
      | [] => (.char (Char.ofNat (a * 8 + b)), 2)
  | [] => (.char (Char.ofNat a), 1)

/-- Reads the escape that `text` begins with, the backslash left out. -/
def readEscape : List Char → Option (Escaped × Nat)
  | [] => none
  | 'n' :: _ => some (.char '\n', 1)
  | 't' :: _ => some (.char '\t', 1)
  | 'r' :: _ => some (.char '\r', 1)
  | 'b' :: _ => some (.char '\x08', 1)
  | 'f' :: _ => some (.char '\x0c', 1)
  | 'v' :: _ => some (.char '\x0b', 1)
  | '\r' :: '\n' :: _ => some (.nothing, 2)
  | 'x' :: a :: b :: _ => (hexNumber? [a, b]).map fun code => (.char (Char.ofNat code), 3)
  | 'x' :: _ => none
  | 'u' :: rest => (unicodeEscape rest).map fun (escaped, used) => (escaped, used + 1)
  | c :: rest =>
    if isLineBreak c then some (.nothing, 1)
    else if '0' ≤ c && c ≤ '7' then some (octalEscape c rest)
    else some (.char c, 1)

/-- Whether an escape is one that only quoted strings allow: an octal escape other than a lone
zero, or an eight or nine. -/
def isLegacyEscape : List Char → Bool
  | '0' :: c :: _ => isAsciiDigit c
  | '0' :: [] => false
  | c :: _ => isAsciiDigit c
  | [] => false

end ModuleLinkage.Syntax
