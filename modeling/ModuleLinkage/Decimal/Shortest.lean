/-!
The shortest decimal numeral that reads back as a given float. The reals that round to the float
form an interval around it; of the decimal grids 10⁰, 10⁻¹, … relative to the leading digit, the
first with a point in the interval gives the digits, and of two such points the nearer one is
taken, the greater one if they are equally near. All arithmetic is exact.
-/

set_option autoImplicit false

namespace ModuleLinkage.Decimal

/-- A positive rational, together with the bounds of what rounds to it, all over one
denominator. -/
structure Rounding where
  value : Nat
  low : Nat
  high : Nat
  denominator : Nat
  /-- Whether the bounds themselves round to the value. -/
  closed : Bool
  deriving Repr

/-- The place value of the significand's leading bit, which normal floats leave out: 2⁵². -/
def hiddenBit : Nat :=
  4503599627370496

/-- The place value of the sign bit: 2⁶³. -/
def signBit : Nat :=
  9223372036854775808

/-- The significand and the binary exponent of a finite float, from its bits. -/
def significand (bits : Nat) : Nat × Int :=
  let exponent := bits / hiddenBit % 2048
  let fraction := bits % hiddenBit
  if exponent = 0 then (fraction, -1074) else (hiddenBit + fraction, (exponent : Int) - 1075)

/-- What rounds to the float with significand `m` and exponent `q`. The gap below a power of two
is half as wide as the one above it. -/
def Rounding.ofSignificand (m : Nat) (q : Int) : Rounding :=
  let scale := Nat.pow 2 (q - 2).toNat
  let below := if m = hiddenBit ∧ q > -1074 then 1 else 2
  { value := 4 * m * scale
    low := (4 * m - below) * scale
    high := (4 * m + 2) * scale
    denominator := Nat.pow 2 (2 - q).toNat
    closed := m % 2 == 0 }

/-- The number of zeros between the decimal point and the first digit of a fraction below one,
found by scaling `value` up to the denominator, at most `bound` times. -/
def leadingZeros (value denominator : Nat) : Nat → Nat
  | 0 => 0
  | bound + 1 =>
    if value * 10 < denominator then leadingZeros (value * 10) denominator bound + 1 else 0

/-- The number of digits before the decimal point, negative where zeros follow the point. -/
def Rounding.magnitude (r : Rounding) : Int :=
  if r.denominator ≤ r.value then ((Nat.toDigits 10 (r.value / r.denominator)).length : Int)
  else -(leadingZeros r.value r.denominator 400 : Int)

/-- Whether `count` units of `10 ^ exponent` round to the value. -/
def Rounding.accepts (r : Rounding) (count : Nat) (exponent : Int) : Bool :=
  let up := Nat.pow 10 (-exponent).toNat
  let point := count * r.denominator * Nat.pow 10 exponent.toNat
  if r.closed then r.low * up ≤ point && point ≤ r.high * up
  else r.low * up < point && point < r.high * up

/-- The better of the two grid points around the value, if one of them rounds to it. -/
def Rounding.nearest? (r : Rounding) (exponent : Int) : Option Nat :=
  let scaled := r.value * Nat.pow 10 (-exponent).toNat
  let unit := r.denominator * Nat.pow 10 exponent.toNat
  let below := scaled / unit
  let rest := scaled % unit
  match r.accepts below exponent, r.accepts (below + 1) exponent with
  | true, true => some (if 2 * rest < unit then below else below + 1)
  | true, false => some below
  | false, true => some (below + 1)
  | false, false => none

/-- Tries grids of `digits` digits and more, up to `bound` further ones. -/
def Rounding.search (r : Rounding) (digits : Nat) : Nat → Nat × Int
  | 0 => (r.value / r.denominator, 0)
  | bound + 1 =>
    let exponent := r.magnitude - digits
    match r.nearest? exponent with
    | some count => (count, exponent)
    | none => r.search (digits + 1) bound

/-- Drops the zeros at the end of a list of digits, counting them. -/
def dropTrailingZeros (digits : List Char) : List Char × Nat :=
  let kept := (digits.reverse.dropWhile (· == '0')).reverse
  (kept, digits.length - kept.length)

/-- `count` units of `10 ^ exponent` without an exponent mark. -/
def positional (count : Nat) (exponent : Int) : List Char :=
  let (digits, zeros) := dropTrailingZeros (Nat.toDigits 10 count)
  let exponent := exponent + zeros
  if 0 ≤ exponent then digits ++ List.replicate exponent.toNat '0'
  else
    let places := (-exponent).toNat
    if places < digits.length then
      digits.take (digits.length - places) ++ '.' :: digits.drop (digits.length - places)
    else '0' :: '.' :: (List.replicate (places - digits.length) '0' ++ digits)

/-- The text of the magnitude of a finite float with the given bits. -/
def magnitudeText (bits : Nat) : List Char :=
  let (m, q) := significand bits
  if m = 0 then ['0']
  else
    let (count, exponent) := (Rounding.ofSignificand m q).search 1 18
    positional count exponent

/-- The text of a float: the shortest digits that read back, never with an exponent. -/
def ofFloat (x : Float) : List Char :=
  let bits := x.toBits.toNat
  if x.isNaN then "NaN".toList
  else
    let magnitude := if x.isInf then "inf".toList else magnitudeText (bits % signBit)
    if bits < signBit then magnitude else '-' :: magnitude

end ModuleLinkage.Decimal
