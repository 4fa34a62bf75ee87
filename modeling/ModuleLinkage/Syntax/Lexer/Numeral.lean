import ModuleLinkage.Syntax.Token
import ModuleLinkage.Unicode.Class

/-!
Numeric literals: decimal numerals with fraction and exponent, numerals in base 2, 8 and 16, the
older octal numerals with a leading zero, underscores between digits, and big integers.
-/

set_option autoImplicit false

namespace ModuleLinkage.Syntax

open Unicode

/-- A run of digits: how many there are, whether it holds underscores, whether each of these stands
between two digits, and the place behind the run. -/
structure DigitRun where
  count : Nat
  separated : Bool
  wellFormed : Bool
  next : Place
  deriving Repr, Inhabited

/-- A run that ends where `next` begins; `afterDigit` says that its last character is a digit. -/
def DigitRun.close (run : DigitRun) (afterDigit : Bool) (next : Place) : DigitRun :=
  { run with wellFormed := run.wellFormed && (afterDigit || !run.separated), next }

/-- Reads a run of digits and underscores. `afterDigit` says that a digit of the run comes just
before. -/
def scanDigits (isDigit : Char → Bool) (afterDigit : Bool) (run : DigitRun) (offset : Nat) :
    List Char → DigitRun
  | [] => run.close afterDigit ⟨[], offset⟩
  | c :: rest =>
    if isDigit c then
      scanDigits isDigit true { run with count := run.count + 1 } (offset + c.utf8Size) rest
    else if c == '_' then
      scanDigits isDigit false
        { run with separated := true, wellFormed := run.wellFormed && afterDigit }
        (offset + c.utf8Size) rest
    else run.close afterDigit ⟨c :: rest, offset⟩

/-- The digits that stand at a place. -/
def readDigits (isDigit : Char → Bool) (place : Place) : DigitRun :=
  scanDigits isDigit false ⟨0, false, true, place⟩ place.offset place.rest

/-- `token` at a place where no digit and no name follows; otherwise no numeral at all. -/
def numeralAt (token : Token) (place : Place) : Token × Place :=
  match place.rest with
  | c :: _ => if isIdentifierStart c || isAsciiDigit c then (.invalid, place) else (token, place)
  | [] => (token, place)

/-- Ends an integer, which a trailing `n` makes a big one. -/
def endInteger (wellFormed : Bool) (place : Place) : Token × Place :=
  if wellFormed then
    match place.rest with
    | 'n' :: rest => numeralAt .bigint ⟨rest, place.offset + 1⟩
    | _ => numeralAt .number place
  else (.invalid, place)

/-- Reads the digits of an exponent with the sign that may stand before them. Whatever follows
them is not looked at. -/
def readExponent (wellFormed : Bool) (place : Place) : Token × Place :=
  let digits : Place :=
    match place.rest with
    | '+' :: rest | '-' :: rest => ⟨rest, place.offset + 1⟩
    | _ => place
  let run := readDigits isAsciiDigit digits
  if wellFormed && run.wellFormed && run.count > 0 then (.number, run.next)
  else (.invalid, run.next)

/-- Reads the exponent of a decimal numeral, if there is one, and the end of the numeral. -/
def endDecimal (wellFormed : Bool) (place : Place) : Token × Place :=
  let (token, next) : Token × Place :=
    match place.rest with
    | 'e' :: rest | 'E' :: rest => readExponent wellFormed ⟨rest, place.offset + 1⟩
    | _ => (if wellFormed then .number else .invalid, place)
  numeralAt token next

/-- Reads the fraction that follows a decimal point. -/
def endFraction (wellFormed : Bool) (place : Place) : Token × Place :=
  let run := readDigits isAsciiDigit place
  endDecimal (wellFormed && run.wellFormed) run.next

def isHexDigit (c : Char) : Bool :=
  isAsciiDigit c || ('a' ≤ c && c ≤ 'f') || ('A' ≤ c && c ≤ 'F')

def isOctalDigit (c : Char) : Bool :=
  '0' ≤ c && c ≤ '7'

def isBinaryDigit (c : Char) : Bool :=
  c == '0' || c == '1'

/-- Reads an integer in the base of `isDigit`, behind its marker. -/
def readBased (isDigit : Char → Bool) (place : Place) : Token × Place :=
  let run := readDigits isDigit place
  endInteger (run.wellFormed && run.count > 0) run.next

/-- Reads a numeral that begins with a zero and a further digit: octal where all digits allow it,
decimal elsewhere. Neither may be separated or big, and only the decimal one has a fraction or an
exponent, which begins with a small letter and may be followed by a name. -/
def readZeroLed (place : Place) : Token × Place :=
  let digits := place.rest.takeWhile isAsciiDigit
  let next : Place := ⟨place.rest.drop digits.length, place.offset + digits.length⟩
  if digits.all isOctalDigit then numeralAt .number next
  else
    match next.rest with
    | '.' :: rest => endFraction true ⟨rest, next.offset + 1⟩
    | 'e' :: rest => readExponent true ⟨rest, next.offset + 1⟩
    | _ => numeralAt .number next

/-- Reads a decimal numeral from its first digit. -/
def readDecimal (place : Place) : Token × Place :=
  let run := readDigits isAsciiDigit place
  match run.next.rest with
  | '.' :: rest => endFraction run.wellFormed ⟨rest, run.next.offset + 1⟩
  | 'n' :: _ => endInteger run.wellFormed run.next
  | _ => endDecimal run.wellFormed run.next

/-- Reads the numeral that begins with a digit at a place. A lone zero may have an exponent that a
name follows at once. -/
def readNumeral (place : Place) : Token × Place :=
  let behind (rest : List Char) : Place := ⟨rest, place.offset + 2⟩
  match place.rest with
  | '0' :: 'x' :: rest | '0' :: 'X' :: rest => readBased isHexDigit (behind rest)
  | '0' :: 'o' :: rest | '0' :: 'O' :: rest => readBased isOctalDigit (behind rest)
  | '0' :: 'b' :: rest | '0' :: 'B' :: rest => readBased isBinaryDigit (behind rest)
  | '0' :: 'e' :: rest | '0' :: 'E' :: rest => readExponent true (behind rest)
  | '0' :: c :: rest =>
    if isAsciiDigit c then readZeroLed place
    else if c == '_' then (.invalid, ⟨c :: rest, place.offset + 1⟩)
    else readDecimal place
  | _ => readDecimal place

end ModuleLinkage.Syntax
