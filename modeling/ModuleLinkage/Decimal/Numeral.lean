import ModuleLinkage.Unicode.Class

/-!
Reading numerals: a sign, digits with a decimal point anywhere among them and an exponent, or one
of the words for infinity and for what is no number. The value is the float nearest to the numeral.
-/

set_option autoImplicit false

namespace ModuleLinkage.Decimal

open Unicode

/-- The number that decimal digits denote. -/
def naturalOf (digits : List Char) : Nat :=
  digits.foldl (fun value digit => value * 10 + (digit.toNat - '0'.toNat)) 0

/-- The digits at the start of a text, and what follows them. -/
def splitDigits (text : List Char) : List Char × List Char :=
  (text.takeWhile isAsciiDigit, text.dropWhile isAsciiDigit)

/-- An exponent of ten: its mark, a sign and digits, or nothing at all. -/
def exponent? : List Char → Option Int
  | [] => some 0
  | mark :: rest =>
    if mark == 'e' || mark == 'E' then
      let (negative, digits) :=
        match rest with
        | '-' :: digits => (true, digits)
        | '+' :: digits => (false, digits)
        | digits => (false, digits)
      if digits.isEmpty || !digits.all isAsciiDigit then none
      else
        let value : Int := naturalOf digits
        some (if negative then -value else value)
    else none

/-- The float nearest to `count` units of `10 ^ exponent`. -/
def scaled (count : Nat) (exponent : Int) : Float :=
  Float.ofScientific count (exponent < 0) exponent.natAbs

/-- A numeral without a sign. -/
def unsigned? (text : List Char) : Option Float :=
  let lower := text.map Char.toLower
  if lower == "nan".toList then some (0.0 / 0.0)
  else if lower == "inf".toList || lower == "infinity".toList then some (1.0 / 0.0)
  else
    let (whole, rest) := splitDigits text
    let (fraction, rest) :=
      match rest with
      | '.' :: rest => splitDigits rest
      | rest => ([], rest)
    if whole.isEmpty && fraction.isEmpty then none
    else
      (exponent? rest).map fun exponent =>
        scaled (naturalOf (whole ++ fraction)) (exponent - fraction.length)

/-- The float that a numeral denotes. -/
def toFloat? : List Char → Option Float
  | '-' :: rest => (unsigned? rest).map fun value => -value
  | '+' :: rest => unsigned? rest
  | text => unsigned? text

end ModuleLinkage.Decimal
