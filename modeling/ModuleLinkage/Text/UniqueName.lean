import ModuleLinkage.Unicode.Class

/-!
Names that a text does not use yet. A text uses the numerals that stand behind `name` in its words;
the free name carries the number after the largest.
-/

set_option autoImplicit false

namespace ModuleLinkage.Text

open Unicode

/-- The maximal runs of word characters of `text`, from left to right; `run` holds, last character
first, the run that is being read. -/
def wordsFrom (run : List Char) : List Char → List (List Char)
  | [] => if run.isEmpty then [] else [run.reverse]
  | c :: rest =>
    if isPlainPart c then wordsFrom (c :: run) rest
    else if run.isEmpty then wordsFrom [] rest
    else run.reverse :: wordsFrom [] rest

/-- The maximal runs of ASCII letters, digits, underscores and dollar signs. -/
def words (text : List Char) : List (List Char) :=
  wordsFrom [] text

/-- What follows `start` in `word`, if `word` begins with it. -/
def suffixAfter? : List Char → List Char → Option (List Char)
  | [], word => some word
  | _ :: _, [] => none
  | s :: start, w :: word => if s == w then suffixAfter? start word else none

/-- The digits of a number without zeros in front; those of zero are a single zero. -/
def stripZeros (digits : List Char) : List Char :=
  match digits.dropWhile (· == '0') with
  | [] => ['0']
  | significant => significant

/-- The numeral that `word` stands for under `name`: `word` is `name` followed by digits only. -/
def numeralUnder? (name word : List Char) : Option (List Char) :=
  match suffixAfter? name word with
  | some suffix => if suffix.all isAsciiDigit then some (stripZeros suffix) else none
  | none => none

/-- Numerals compare by length, those of one length by their characters. -/
def compareNumerals (left right : List Char) : Ordering :=
  (compare left.length right.length).then (compare left right)

/-- The greater of two numerals. -/
def greaterNumeral (left right : List Char) : List Char :=
  if compareNumerals left right == .gt then left else right

/-- The greatest of some numerals. -/
def greatestNumeral? : List (List Char) → Option (List Char)
  | [] => none
  | first :: rest => some (rest.foldl greaterNumeral first)

/-- The digits of the number after that of `digits`; the last digit comes first. -/
def incrementFromLast : List Char → List Char
  | [] => ['1']
  | digit :: before =>
    if digit == '9' then '0' :: incrementFromLast before
    else Char.ofNat (digit.toNat + 1) :: before

/-- One is added to a numeral. -/
def incrementDigits (digits : List Char) : List Char :=
  (incrementFromLast digits.reverse).reverse

/-- `name` itself if no word of `text` is `name` with digits after it; otherwise `name` with the
number after the largest in use. The digits are compared and counted up as texts, so a number may
be of any length. -/
def uniqueName (name text : List Char) : List Char :=
  match greatestNumeral? ((words text).filterMap (numeralUnder? name)) with
  | none => name
  | some greatest => name ++ incrementDigits greatest

end ModuleLinkage.Text
