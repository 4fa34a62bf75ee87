import ModuleLinkage.Proofs.Lowering.Hygiene
import ModuleLinkage.Proofs.Syntax.Keys
import ModuleLinkage.Proofs.Text.Numerals
import ModuleLinkage.Proofs.Unicode.Tables

/-!
# The tokens of generated code

Every piece of generated code has its tokens (`Piece.tokens`): a key and a literal are one token each,
whatever they hold, and a text of punctuation is its marks. What is written with pieces is read as their
tokens (`Spelled`), if no name goes on behind a name, a numeral is followed by what ends an item, and no
mark joins with what follows. This is shown for single pieces, then for what builds requests from them
(`Readable`), and so for the statement of a request (`spelled_requestPieces`).
-/

set_option autoImplicit false

namespace ModuleLinkage.Lowering

open Syntax Text Unicode Ledger

/-! ### Tokens that stand one after another -/

/-- Whether tokens are what is read where their text stands in front of another. -/
def AllStand : List Syntax.Piece → List Char → Prop
  | [], _ => True
  | piece :: pieces, rest => piece.Stands (Syntax.textOf pieces rest) ∧ AllStand pieces rest

section Standing

variable {first second : List Syntax.Piece} {rest : List Char}

theorem allStand_append :
    AllStand (first ++ second) rest ↔ AllStand first (Syntax.textOf second rest) ∧ AllStand second rest := by
  induction first with
  | nil => simp [AllStand]
  | cons piece first ih =>
    rw [List.cons_append, AllStand, ih, AllStand, Syntax.textOf_append, and_assoc]

/-- Whether tokens are what a text is read as in front of another. -/
def ReadAs (tokens : List Syntax.Piece) (text rest : List Char) : Prop :=
  Syntax.textOf tokens rest = text ++ rest ∧ AllStand tokens rest

theorem readAs_append {text behind : List Char}
    (hfirst : ReadAs first text (behind ++ rest)) (hsecond : ReadAs second behind rest) :
    ReadAs (first ++ second) (text ++ behind) rest := by
  unfold ReadAs at hfirst hsecond ⊢
  rw [Syntax.textOf_append, hsecond.1, hfirst.1, allStand_append, hsecond.1, List.append_assoc]
  exact ⟨rfl, hfirst.2, hsecond.2⟩

theorem readAs_flatMap {α : Type} {items : List α} {tokens : α → List Syntax.Piece}
    {text : α → List Char} (hitems : ∀ item ∈ items, ∀ rest, ReadAs (tokens item) (text item) rest) :
    ReadAs (items.flatMap tokens) (items.flatMap text) rest := by
  induction items with
  | nil => exact ⟨rfl, trivial⟩
  | cons item items ih =>
    rw [List.forall_mem_cons] at hitems
    rw [List.flatMap_cons, List.flatMap_cons]
    exact readAs_append (hitems.1 _) (ih hitems.2)

end Standing

/-- A token without a gap. -/
def gapless (body : List Char) (token : Token) : Syntax.Piece :=
  ⟨[], false, .plain, body, token⟩

/-- The key of a property as a token. -/
def keyPiece (name : String) : Syntax.Piece :=
  gapless (Text.propertyKey name.toList) (Syntax.keyToken name.toList)

/-- A string literal as a token. -/
def literalPiece (value : String) : Syntax.Piece :=
  gapless (quote value.toList) (.string ⟨value, true⟩)

/-- A number as a token. -/
def numberPiece (value : Nat) : Syntax.Piece :=
  gapless (Nat.toDigits 10 value) .number

/-- The marks at the start of a text, of `count` characters at most. -/
def marksUpTo : Nat → List Char → List String
  | 0, _ => []
  | count + 1, text =>
    match readPunctuator punctuators ⟨text, 0⟩ with
    | (.punctuator mark, next) => mark :: marksUpTo count next.rest
    | _ => []

/-- The marks that a text of punctuation consists of. -/
def marksOf (text : String) : List String :=
  marksUpTo text.length text.toList

mutual

/-- The tokens of a piece. A key and a literal are one token each, whatever they hold. -/
def Piece.tokens : Piece → List Syntax.Piece
  | .mark text _ => (marksOf text).map markPiece
  | .yes => [namePiece [] false "true"]
  | .null => [namePiece [] false "null"]
  | .property name => [namePiece [] false name]
  | .key name => [keyPiece name]
  | .literal value => [literalPiece value]
  | .number value => [numberPiece value]
  | .outer name => [namePiece [] false name]
  | .parameter name => [namePiece [] false name]
  | .function _ pieces => tokensOf pieces

def tokensOf : List Piece → List Syntax.Piece
  | [] => []
  | piece :: rest => piece.tokens ++ tokensOf rest

end

@[simp] theorem Piece.tokens_mark (text : String) (punctuation : isPunctuation text = true) :
    (Piece.mark text punctuation).tokens = (marksOf text).map markPiece := rfl

@[simp] theorem Piece.tokens_function (parameters : List String) (pieces : List Piece) :
    (Piece.function parameters pieces).tokens = tokensOf pieces := rfl

@[simp] theorem tokensOf_nil : tokensOf [] = [] := rfl

@[simp] theorem tokensOf_cons (piece : Piece) (rest : List Piece) :
    tokensOf (piece :: rest) = piece.tokens ++ tokensOf rest := rfl

@[simp] theorem tokensOf_append (first second : List Piece) :
    tokensOf (first ++ second) = tokensOf first ++ tokensOf second := by
  induction first with
  | nil => rfl
  | cons piece rest ih => simp [ih]

/-! ### What is read where pieces are written -/

/-- Whether the text of pieces in front of another is read as their tokens. -/
def Spelled (pieces : List Piece) (rest : List Char) : Prop :=
  ReadAs (tokensOf pieces) (textOf pieces) rest

/-- Whether a text begins with a mark that ends an item. -/
def EndsItem (text : List Char) : Prop :=
  ∃ c ∈ text.head?, c ∈ [',', ';', ')', ']', '\x7d']

/-- Whether pieces are read as their tokens wherever they stand as an item. -/
def Readable (pieces : List Piece) : Prop :=
  ∀ rest, EndsItem rest → Spelled pieces rest

section Spelling

variable {first second pieces : List Piece} {piece : Piece} {rest : List Char} {name : String}

theorem spelled_nil : Spelled [] rest :=
  ⟨rfl, trivial⟩

theorem spelled_append (hfirst : Spelled first (textOf second ++ rest)) (hsecond : Spelled second rest) :
    Spelled (first ++ second) rest := by
  rw [Spelled, tokensOf_append, textOf_append]
  exact readAs_append hfirst hsecond

theorem spelled_cons (hpiece : Spelled [piece] (textOf pieces ++ rest)) (hpieces : Spelled pieces rest) :
    Spelled (piece :: pieces) rest :=
  spelled_append hpiece hpieces

theorem endsItem_cons {c : Char} (hc : c ∈ [',', ';', ')', ']', '\x7d']) : EndsItem (c :: rest) :=
  ⟨c, rfl, hc⟩

theorem EndsItem.not_continuesName (hrest : EndsItem rest) : ¬ ContinuesName rest := by
  obtain ⟨c, hc, hmark⟩ := hrest
  obtain ⟨tail, rfl⟩ := List.head?_eq_some_iff.mp hc
  rw [continuesName_cons]
  simp only [List.mem_cons, List.not_mem_nil, or_false] at hmark
  rcases hmark with rfl | rfl | rfl | rfl | rfl <;> decide

/-- An identifier is a character that may begin one, and what follows it. -/
theorem exists_of_isIdentifier {chars : List Char} (hchars : isIdentifier chars = true) :
    ∃ c more, chars = c :: more ∧ isIdentifierStart c = true := by
  cases chars with
  | nil => cases hchars
  | cons c more => exact ⟨c, more, rfl, (Bool.and_eq_true_iff.mp hchars).1⟩

/-- No gap begins with what begins an identifier. -/
theorem startsToken_identifier {chars : List Char} (hchars : isIdentifier chars = true) :
    StartsToken (chars ++ rest) := by
  obtain ⟨c, more, rfl, hstart⟩ := exists_of_isIdentifier hchars
  have hpart := isIdentifierPart_of_isIdentifierStart hstart
  have hjoins {test : Char → Bool} (htest : test c = true → separates c = true) : test c = false := by
    by_contra hc
    have hseparates := htest (by simpa using hc)
    simp [separates, hpart] at hseparates
  exact startsToken_cons ⟨ne_of_class hstart (by decide), hjoins separates_of_isLineBreak,
    hjoins separates_of_isSourceSpace⟩ _

theorem gapless_stands {body : List Char} {token : Token} (hvalid : token ≠ .invalid)
    (hbody : body ≠ []) (hstarts : StartsToken (body ++ rest))
    (hread : ∀ offset, readToken ⟨body ++ rest, offset⟩ = (token, ⟨rest, offset + width body⟩)) :
    (gapless body token).Stands rest :=
  ⟨hvalid, hbody, .inr (skipGap_of_startsToken hstarts false), hread⟩

theorem name_stands (hname : isIdentifier name.toList = true) (hrest : ¬ ContinuesName rest) :
    (namePiece [] false name).Stands rest := by
  obtain ⟨c, more, hchars, -⟩ := exists_of_isIdentifier hname
  refine gapless_stands nofun (by simp [hchars]) (startsToken_identifier hname) fun offset => ?_
  rw [readToken_identifier hname hrest, String.ofList_toList]

theorem literal_stands (value : String) (rest : List Char) : (literalPiece value).Stands rest := by
  refine gapless_stands nofun (List.cons_ne_nil _ _) (startsToken_cons (by decide) _)
    fun offset => ?_
  rw [readToken_quoted, String.ofList_toList]

theorem key_stands (hrest : ¬ ContinuesName rest) : (keyPiece name).Stands rest := by
  unfold keyPiece
  by_cases hplain : isPlainIdentifier name.toList = true
  · rw [Syntax.keyToken, Text.propertyKey, if_pos hplain, if_pos hplain, String.ofList_toList]
    exact name_stands (isIdentifier_of_isPlainIdentifier hplain) hrest
  · rw [Syntax.keyToken, Text.propertyKey, if_neg hplain, if_neg hplain, String.ofList_toList]
    exact literal_stands name rest

/-- The marks that are read alike in front of any text. -/
theorem mark_stands {mark : String}
    (hmark : mark ∈ ["(", ")", ",", ";", ":", "[", "]", "\x7b", "\x7d", "=>", "!=="])
    (rest : List Char) : (markPiece mark).Stands rest := by
  simp only [List.mem_cons, List.not_mem_nil, or_false] at hmark
  rcases hmark with rfl | rfl | rfl | rfl | rfl | rfl | rfl | rfl | rfl | rfl | rfl
  all_goals exact markPiece_stands (by decide) (startsToken_cons (by decide) _) fun _ => rfl

/-- A digit begins a numeral, and neither a name nor a gap. -/
theorem begins_of_isAsciiDigit {c : Char} (hc : isAsciiDigit c = true) :
    (isIdentifierStart c || c == '\\') = false ∧
      c ≠ '/' ∧ isLineBreak c = false ∧ isSourceSpace c = false := by
  have hall : ∀ code < 58, 48 ≤ code →
      (isIdentifierStart (Char.ofNat code) || Char.ofNat code == '\\') = false ∧
        Char.ofNat code ≠ '/' ∧ isLineBreak (Char.ofNat code) = false ∧
          isSourceSpace (Char.ofNat code) = false := by
    decide
  obtain ⟨hlow, hhigh⟩ := isAsciiDigit_iff.mp hc
  have hcode := hall c.toNat (by omega) hlow
  rwa [Char.ofNat_toNat] at hcode

/-- In front of an identifier no mark is read as the beginning of a longer one. -/
theorem mark_stands_before {mark : String} (hmark : mark ∈ [".", "=", "&&"])
    {chars : List Char} (hchars : isIdentifier chars = true) :
    (markPiece mark).Stands (chars ++ rest) := by
  obtain ⟨c, more, rfl, hstart⟩ := exists_of_isIdentifier hchars
  have hne {d : Char} (hd : isIdentifierStart d = false) : ¬ d = c := (ne_of_class hstart hd).symm
  have hdigit : isAsciiDigit c = false := by
    by_contra hc
    have hnone := (begins_of_isAsciiDigit (by simpa using hc)).1
    simp [hstart] at hnone
  have hdot : ¬ '.' = c := hne (by decide)
  have hequal : ¬ '=' = c := hne (by decide)
  have hgreater : ¬ '>' = c := hne (by decide)
  have hmarks : isIdentifierStart '.' = false ∧ isIdentifierStart '=' = false ∧
      isIdentifierStart '&' = false := by decide
  have hdigits : isAsciiDigit '.' = false ∧ isAsciiDigit '=' = false ∧ isAsciiDigit '&' = false := by
    decide
  simp only [List.mem_cons, List.not_mem_nil, or_false] at hmark
  rcases hmark with rfl | rfl | rfl
  all_goals
    refine markPiece_stands (by decide) (startsToken_cons (by decide) _) fun offset => ?_
    simp [readToken, readPunctuator, punctuators, standsAt, dropStart?, hdot, hequal, hgreater, hdigit,
      hmarks, hdigits]
    rfl

/-! #### Numbers -/

/-- Digits are read up to a mark that ends an item. -/
theorem scanDigits_digits {digits : List Char} (hdigits : digits.all isAsciiDigit = true)
    (hrest : EndsItem rest) (afterDigit : Bool) {run : DigitRun} (hformed : run.wellFormed = true)
    (hplain : run.separated = false) (offset : Nat) :
    (scanDigits isAsciiDigit afterDigit run offset (digits ++ rest)).wellFormed = true ∧
      (scanDigits isAsciiDigit afterDigit run offset (digits ++ rest)).next =
        ⟨rest, offset + width digits⟩ := by
  induction digits generalizing afterDigit run offset with
  | nil =>
    obtain ⟨c, hc, hmark⟩ := hrest
    obtain ⟨tail, rfl⟩ := List.head?_eq_some_iff.mp hc
    simp only [List.mem_cons, List.not_mem_nil, or_false] at hmark
    obtain ⟨hdigit, hscore⟩ : isAsciiDigit c = false ∧ (c == '_') = false := by
      rcases hmark with rfl | rfl | rfl | rfl | rfl <;> exact ⟨rfl, rfl⟩
    simp [scanDigits, hdigit, hscore, DigitRun.close, hformed, hplain]
  | cons digit digits ih =>
    rw [List.all_cons, Bool.and_eq_true] at hdigits
    rw [List.cons_append, scanDigits, if_pos hdigits.1, width_cons, ← Nat.add_assoc]
    exact @ih hdigits.2 true { run with count := run.count + 1 } hformed hplain _

/-- A numeral is read up to a mark that ends an item. -/
theorem readDecimal_digits {digits : List Char} (hdigits : digits.all isAsciiDigit = true)
    (hrest : EndsItem rest) (offset : Nat) :
    readDecimal ⟨digits ++ rest, offset⟩ = (.number, ⟨rest, offset + width digits⟩) := by
  obtain ⟨hformed, hnext⟩ :=
    @scanDigits_digits _ _ hdigits hrest false ⟨0, false, true, ⟨digits ++ rest, offset⟩⟩ rfl rfl offset
  obtain ⟨c, hc, hmark⟩ := hrest
  obtain ⟨tail, rfl⟩ := List.head?_eq_some_iff.mp hc
  unfold readDecimal readDigits
  dsimp only
  rw [hnext, hformed]
  simp only [List.mem_cons, List.not_mem_nil, or_false] at hmark
  rcases hmark with rfl | rfl | rfl | rfl | rfl <;> rfl

/-- A numeral stands in front of what ends an item. -/
theorem readNumeral_numeral {digits : List Char} (hdigits : IsNumeral digits) (hrest : EndsItem rest)
    (offset : Nat) :
    readNumeral ⟨digits ++ rest, offset⟩ = (.number, ⟨rest, offset + width digits⟩) := by
  rcases hchars : digits with _ | ⟨digit, others⟩
  · exact absurd hchars hdigits.full
  by_cases hzero : digit = '0'
  · -- Behind a lone zero stands the mark, which makes the zero no other numeral.
    subst hzero
    obtain rfl : others = [] := by simpa [hchars] using hdigits.lead (by rw [hchars]; rfl)
    have hread := readDecimal_digits (show ['0'].all isAsciiDigit = true by decide) hrest offset
    obtain ⟨c, hc, hmark⟩ := hrest
    obtain ⟨tail, rfl⟩ := List.head?_eq_some_iff.mp hc
    simp only [List.mem_cons, List.not_mem_nil, or_false] at hmark
    rcases hmark with rfl | rfl | rfl | rfl | rfl <;> exact hread
  · rw [← hchars, ← readDecimal_digits hdigits.decimal hrest, hchars, List.cons_append]
    unfold readNumeral
    split
    all_goals first | rfl | simp_all

theorem number_stands (value : Nat) (hrest : EndsItem rest) : (numberPiece value).Stands rest := by
  have hnumeral := isNumeral_toDigits value
  obtain ⟨digit, digits, hdigits⟩ := List.exists_cons_of_ne_nil hnumeral.full
  have hdigit : isAsciiDigit digit = true :=
    List.all_eq_true.mp hnumeral.decimal digit (by simp [hdigits])
  obtain ⟨hname, hgap⟩ := begins_of_isAsciiDigit hdigit
  refine gapless_stands nofun hnumeral.full (hdigits ▸ startsToken_cons hgap _) fun offset => ?_
  rw [← readNumeral_numeral hnumeral hrest, hdigits, List.cons_append, readToken]
  dsimp only
  rw [hname, if_neg Bool.false_ne_true, if_pos hdigit]

/-! #### Pieces -/

theorem spelled_single {token : Syntax.Piece} (htokens : piece.tokens = [token])
    (hgap : token.gap = []) (hbody : token.body = piece.text) (hstands : token.Stands rest) :
    Spelled [piece] rest := by
  refine ⟨?_, ?_⟩
  · simp [htokens, Syntax.textOf, Syntax.Piece.chars, hgap, hbody]
  · simpa [htokens, AllStand, Syntax.textOf] using hstands

theorem spelled_outer (hname : isIdentifier name.toList = true) (hrest : ¬ ContinuesName rest) :
    Spelled [.outer name] rest :=
  spelled_single rfl rfl rfl (name_stands hname hrest)

theorem spelled_parameter (hname : isIdentifier name.toList = true) (hrest : ¬ ContinuesName rest) :
    Spelled [.parameter name] rest :=
  spelled_single rfl rfl rfl (name_stands hname hrest)

theorem spelled_property (hname : isIdentifier name.toList = true) (hrest : ¬ ContinuesName rest) :
    Spelled [.property name] rest :=
  spelled_single rfl rfl rfl (name_stands hname hrest)

theorem spelled_key (hrest : ¬ ContinuesName rest) : Spelled [.key name] rest :=
  spelled_single rfl rfl rfl (key_stands hrest)

theorem spelled_literal (value : String) (rest : List Char) : Spelled [.literal value] rest :=
  spelled_single rfl rfl rfl (literal_stands value rest)

theorem spelled_number (value : Nat) (hrest : EndsItem rest) : Spelled [.number value] rest :=
  spelled_single rfl rfl rfl (number_stands value hrest)

theorem textOf_function (parameters : List String) (pieces : List Piece) :
    textOf [.function parameters pieces] = textOf pieces := by
  simp

theorem spelled_function {parameters : List String} (hpieces : Spelled pieces rest) :
    Spelled [.function parameters pieces] rest := by
  unfold Spelled at hpieces ⊢
  simpa using hpieces

/-- The marks that are read alike in front of any text. -/
def plainMarks : List String :=
  ["(", ")", ",", ";", ":", "[", "]", "\x7b", "\x7d", "=>", "!=="]

/-- Whether a text of punctuation is read as its marks in front of any text. -/
def isReadAnywhere (text : String) : Bool :=
  (marksOf text).flatMap String.toList == text.toList && (marksOf text).all plainMarks.contains

/-- Whether a text of punctuation is read as its marks in front of an identifier. -/
def isReadBeforeName (text : String) : Bool :=
  (marksOf text).flatMap String.toList == text.toList &&
    (marksOf text).dropLast.all plainMarks.contains &&
      (marksOf text).getLast?.any fun mark => [".", "=", "&&"].contains mark

theorem allStand_marks {marks : List String} (hmarks : marks.all plainMarks.contains = true) :
    AllStand (marks.map markPiece) rest := by
  induction marks with
  | nil => trivial
  | cons mark marks ih =>
    rw [List.all_cons, Bool.and_eq_true, List.contains_iff_mem] at hmarks
    exact ⟨mark_stands hmarks.1 _, ih hmarks.2⟩

theorem spelled_marks {text : String} {punctuation : isPunctuation text = true}
    (htext : (marksOf text).flatMap String.toList = text.toList)
    (hstand : AllStand ((marksOf text).map markPiece) rest) : Spelled [.mark text punctuation] rest := by
  refine ⟨?_, by simpa [AllStand] using hstand⟩
  have hbodies (marks : List String) :
      Syntax.textOf (marks.map markPiece) rest = marks.flatMap String.toList ++ rest := by
    simp [Syntax.textOf, List.flatMap_map, Syntax.Piece.chars, markPiece]
  simpa [htext] using hbodies (marksOf text)

theorem spelled_mark {text : String} {punctuation : isPunctuation text = true}
    (hread : isReadAnywhere text = true) : Spelled [.mark text punctuation] rest := by
  obtain ⟨htext, hmarks⟩ := Bool.and_eq_true_iff.mp hread
  exact spelled_marks (beq_iff_eq.mp htext) (allStand_marks hmarks)

theorem spelled_mark_before {text : String} {punctuation : isPunctuation text = true}
    (hread : isReadBeforeName text = true) (hpiece : isIdentifier piece.text = true) :
    Spelled [.mark text punctuation] (textOf (piece :: pieces) ++ rest) := by
  simp only [isReadBeforeName, Bool.and_eq_true, beq_iff_eq] at hread
  obtain ⟨⟨htext, hfront⟩, hlast⟩ := hread
  refine spelled_marks htext ?_
  rcases hmark : (marksOf text).getLast? with _ | mark
  · rw [hmark] at hlast
    cases hlast
  have hjoins : [".", "=", "&&"].contains mark = true := by rwa [hmark] at hlast
  rw [← List.dropLast_append_getLast? mark hmark, List.map_append, allStand_append, textOf_cons,
    List.append_assoc]
  have hstands : (markPiece mark).Stands (piece.text ++ (textOf pieces ++ rest)) :=
    mark_stands_before (List.contains_iff_mem.mp hjoins) hpiece
  exact ⟨allStand_marks hfront, hstands, trivial⟩

/-- Whether the first character of a text passes a test. -/
def opensWith (test : Char → Bool) (text : String) : Bool :=
  text.toList.head?.any test

theorem exists_of_opensWith {test : Char → Bool} {text : String} (hopens : opensWith test text = true) :
    ∃ c tail, text.toList = c :: tail ∧ test c = true := by
  unfold opensWith at hopens
  rcases hchars : text.toList with _ | ⟨c, tail⟩
  · rw [hchars] at hopens
    cases hopens
  · rw [hchars] at hopens
    exact ⟨c, tail, rfl, hopens⟩

/-- Whether no name goes on in a character. -/
def closesName (c : Char) : Bool :=
  !isIdentifierPart c && c != '\\'

/-- Whether a character ends an item. -/
def closesItem (c : Char) : Bool :=
  [',', ';', ')', ']', '\x7d'].contains c

theorem not_continuesName_mark {text : String} {punctuation : isPunctuation text = true}
    (hopens : opensWith closesName text = true) :
    ¬ ContinuesName (textOf (.mark text punctuation :: pieces) ++ rest) := by
  obtain ⟨c, tail, htext, hclosed⟩ := exists_of_opensWith hopens
  simp only [closesName, Bool.and_eq_true, Bool.not_eq_true', bne_iff_ne] at hclosed
  rw [textOf_cons, Piece.text_mark, htext, List.cons_append, List.cons_append, continuesName_cons]
  simpa using hclosed

theorem endsItem_mark {text : String} {punctuation : isPunctuation text = true}
    (hopens : opensWith closesItem text = true) :
    EndsItem (textOf (.mark text punctuation :: pieces) ++ rest) := by
  obtain ⟨c, tail, htext, hclosed⟩ := exists_of_opensWith hopens
  rw [textOf_cons, Piece.text_mark, htext, List.cons_append, List.cons_append]
  exact endsItem_cons (List.contains_iff_mem.mp hclosed)

/-! ### What builds the line -/

theorem Readable.append_mark {text : String} {punctuation : isPunctuation text = true}
    (hpieces : Readable pieces) (hopens : opensWith closesItem text = true)
    (hread : isReadAnywhere text = true) : Spelled (pieces ++ [.mark text punctuation]) rest :=
  spelled_append (hpieces _ (endsItem_mark hopens)) (spelled_mark hread)

theorem readable_separated {mark : String} {punctuation : isPunctuation mark = true}
    (hopens : opensWith closesItem mark = true) (hread : isReadAnywhere mark = true)
    {items : List (List Piece)} (hitems : ∀ item ∈ items, Readable item) :
    Readable (separated mark items punctuation) := by
  unfold separated
  intro rest hrest
  induction items with
  | nil => exact spelled_nil
  | cons item items ih =>
    rw [List.forall_mem_cons] at hitems
    cases items with
    | nil => simpa using hitems.1 rest hrest
    | cons second items =>
      rw [List.intercalate_cons_cons]
      exact spelled_append (hitems.1.append_mark hopens hread) (ih hitems.2)

theorem readable_commas {items : List (List Piece)} (hitems : ∀ item ∈ items, Readable item) :
    Readable (separated "," items) :=
  readable_separated (by decide) (by decide) hitems

theorem readable_semicolons {items : List (List Piece)} (hitems : ∀ item ∈ items, Readable item) :
    Readable (separated ";" items) :=
  readable_separated (by decide) (by decide) hitems

theorem spelled_inBraces (hpieces : Readable pieces) : Spelled (inBraces pieces) rest :=
  spelled_cons (spelled_mark (by decide)) (hpieces.append_mark (by decide) (by decide))

theorem readable_parameter (hname : isIdentifier name.toList = true) : Readable [.parameter name] :=
  fun _ hrest => spelled_parameter hname hrest.not_continuesName

theorem readable_outer (hname : isIdentifier name.toList = true) : Readable [.outer name] :=
  fun _ hrest => spelled_outer hname hrest.not_continuesName

theorem readable_yes : Readable [.yes] := fun _ hrest =>
  spelled_single rfl rfl rfl
    (name_stands (by decide) hrest.not_continuesName)

theorem readable_number (value : Nat) : Readable [.number value] :=
  fun _ hrest => spelled_number value hrest

theorem readable_literal (value : String) : Readable [.literal value] :=
  fun rest _ => spelled_literal value rest

variable {reference operation exported result : String} {arguments : List (List Piece)}

theorem spelled_callPieces (hreference : isIdentifier reference.toList = true)
    (hoperation : isIdentifier operation.toList = true)
    (harguments : ∀ argument ∈ arguments, Readable argument) :
    Spelled (callPieces reference operation arguments) rest := by
  have hlist := readable_commas harguments
  unfold callPieces
  simp only [List.cons_append, List.nil_append]
  refine spelled_cons (spelled_outer hreference (not_continuesName_mark (by decide)))
    (spelled_cons ?_ (spelled_cons (spelled_property hoperation (not_continuesName_mark (by decide)))
      (spelled_cons (spelled_mark (by decide)) (hlist.append_mark (by decide) (by decide)))))
  exact spelled_mark_before (by decide) hoperation

theorem readable_callPieces (hreference : isIdentifier reference.toList = true)
    (hoperation : isIdentifier operation.toList = true)
    (harguments : ∀ argument ∈ arguments, Readable argument) :
    Readable (callPieces reference operation arguments) :=
  fun _ _ => spelled_callPieces hreference hoperation harguments

/-- The getter of an export, for whatever gives its value. -/
theorem readable_getter (hresult : Readable [piece]) :
    Readable [.key exported, .mark ":", .function [] [.mark "()=>", piece]] := by
  intro rest hrest
  exact spelled_cons (spelled_key (not_continuesName_mark (by decide))) (spelled_cons
    (spelled_mark (by decide)) (spelled_function (spelled_cons (spelled_mark (by decide))
      (hresult rest hrest))))

theorem readable_getterPieces (hresult : isIdentifier result.toList = true) :
    Readable (getterPieces exported result) :=
  readable_getter (readable_parameter hresult)

theorem readable_exportPieces {getters : List (List Piece)}
    (hreference : isIdentifier reference.toList = true) (hgetters : ∀ getter ∈ getters, Readable getter) :
    Readable (exportPieces reference getters) := by
  refine readable_callPieces hreference (by decide) ?_
  rw [List.forall_mem_cons, List.forall_mem_singleton]
  exact ⟨fun _ _ => spelled_inBraces (readable_commas hgetters), readable_yes⟩

theorem readable_callbackPieces {key : String} {parameters : List String} {body : List Piece}
    (hparameters : ∀ parameter ∈ parameters, isIdentifier parameter.toList = true)
    (hbody : Readable body) : Readable (callbackPieces key parameters body) := by
  have hlist : Readable (separated "," (parameters.map fun name => [.parameter name])) :=
    readable_commas (List.forall_mem_map.mpr fun name hname => readable_parameter (hparameters name hname))
  intro rest _
  refine spelled_cons (spelled_key ?_) (spelled_function (spelled_cons (spelled_mark (by decide)) ?_))
  · rw [textOf_function]
    exact not_continuesName_mark (by decide)
  · rw [List.append_cons]
    exact spelled_append (hlist.append_mark (by decide) (by decide)) (spelled_inBraces hbody)

theorem readable_assignmentPieces {scheme : Scheme} {value target : String}
    (hreference : isIdentifier scheme.reference.toList = true)
    (htarget : isIdentifier target.toList = true) (hvalue : isIdentifier value.toList = true) :
    Readable (assignmentPieces scheme value target) := by
  have hassignment : Readable [.outer target, .mark "=", .parameter value] := fun rest hrest =>
    spelled_cons (spelled_outer htarget (not_continuesName_mark (by decide)))
      (spelled_cons (spelled_mark_before (by decide) hvalue) (readable_parameter hvalue rest hrest))
  unfold assignmentPieces
  dsimp only
  split
  · exact readable_callPieces hreference (by decide) (List.forall_mem_singleton.mpr hassignment)
  · exact hassignment

theorem readable_memberPieces {name value : String}
    (hobject : ∀ rest, ¬ ContinuesName rest → Spelled [piece] rest)
    (hname : isIdentifier name.toList = true) (hvalue : isIdentifier value.toList = true) :
    Readable (memberPieces piece name value) := fun rest hrest =>
  spelled_cons (hobject _ (not_continuesName_mark (by decide))) (spelled_cons (spelled_mark (by decide))
    (spelled_cons (spelled_parameter hname (not_continuesName_mark (by decide)))
      (spelled_cons (spelled_mark_before (by decide) hvalue) (readable_parameter hvalue rest hrest))))

theorem spelled_keyedPieces {specifier : String} {callbacks : List (List Piece)} {offset : Nat}
    {objects : List Piece} (hreference : isIdentifier reference.toList = true)
    (hcallbacks : ∀ callback ∈ callbacks, Readable callback)
    (hobjects : ∀ object ∈ objects, Readable [object]) :
    Spelled (keyedPieces reference specifier callbacks offset objects) rest := by
  have hlist : Readable (separated "," (objects.map fun object => [object])) :=
    readable_commas (List.forall_mem_map.mpr hobjects)
  refine spelled_callPieces hreference (by decide) (List.forall_mem_append.mpr ⟨?_, ?_⟩)
  · rw [List.forall_mem_cons, List.forall_mem_cons, List.forall_mem_singleton]
    exact ⟨readable_literal specifier, fun _ _ => spelled_inBraces (readable_commas hcallbacks),
      readable_number offset⟩
  · split
    · exact List.forall_mem_nil _
    · exact List.forall_mem_singleton.mpr fun _ _ =>
        spelled_cons (spelled_mark (by decide)) (hlist.append_mark (by decide) (by decide))

/-! ### Requests -/

/-- Underscores behind an identifier leave it one. -/
theorem isIdentifier_freshName (base : String) (hbase : isIdentifier base.toList = true)
    (taken : List String) : isIdentifier (freshName base taken).toList = true := by
  obtain ⟨count, hname, -⟩ := (firstFree_freshName base taken).first
  obtain ⟨c, more, hchars, -⟩ := exists_of_isIdentifier hbase
  rw [hchars] at hbase
  rw [hname, underscored, String.toList_append, String.toList_ofList, hchars, List.cons_append]
  obtain ⟨hstart, hparts⟩ := Bool.and_eq_true_iff.mp hbase
  refine Bool.and_eq_true_iff.mpr ⟨hstart, ?_⟩
  rw [List.all_append, hparts, Bool.true_and, List.all_replicate]
  simp only [show isIdentifierPart '_' = true by decide, ite_self]

theorem forall_mem_pair {first second : String} (hfirst : isIdentifier first.toList = true)
    (hsecond : isIdentifier second.toList = true) :
    ∀ name ∈ [first, second], isIdentifier name.toList = true :=
  List.forall_mem_cons.mpr ⟨hfirst, List.forall_mem_singleton.mpr hsecond⟩

theorem spelled_bindingsPieces {scheme : Scheme} {specifier : String} {offset : Nat}
    {names : List (String × String)} {objects : List String}
    (hreference : isIdentifier scheme.reference.toList = true)
    (hnames : ∀ pair ∈ names, isIdentifier pair.2.toList = true)
    (hobjects : ∀ object ∈ objects, isIdentifier object.toList = true) :
    Spelled (bindingsPieces scheme specifier offset names objects) rest := by
  unfold bindingsPieces
  split
  · exact spelled_callPieces hreference (by decide)
      (List.forall_mem_singleton.mpr (readable_literal specifier))
  have hvalue := isIdentifier_freshName "v" (by decide)
    (names.map (·.2) ++ objects ++ [scheme.reference])
  have hname := isIdentifier_freshName "n" (by decide)
    (names.map (·.2) ++ objects ++ [scheme.reference])
  dsimp only
  refine spelled_keyedPieces hreference (List.forall_mem_append.mpr ⟨?_, ?_⟩)
    (List.forall_mem_map.mpr fun object hobject => readable_outer (hobjects object hobject))
  · refine List.forall_mem_map.mpr fun group hgroup => ?_
    refine readable_callbackPieces (List.forall_mem_singleton.mpr hvalue)
      (readable_semicolons (List.forall_mem_map.mpr fun target htarget => ?_))
    -- The variables of a group are variables of the import.
    rw [(((groupsOf_groupByFirst names).mem group.1 group.2).mp hgroup).1] at htarget
    exact readable_assignmentPieces hreference (hnames _ (mem_targetsOf.mp htarget)) hvalue
  · split
    · exact List.forall_mem_nil _
    · refine List.forall_mem_singleton.mpr (readable_callbackPieces (forall_mem_pair hvalue hname)
        (readable_semicolons (List.forall_mem_map.mpr fun object hobject => ?_)))
      exact readable_memberPieces (fun _ hrest => spelled_outer (hobjects object hobject) hrest) hname hvalue

theorem spelled_reExportPieces {specifier : String} {offset : Nat} {names : List (String × String)}
    (hreference : isIdentifier reference.toList = true) :
    Spelled (reExportPieces reference specifier offset names) rest := by
  have hvalue := isIdentifier_freshName "v" (by decide) [reference]
  unfold reExportPieces
  dsimp only
  refine spelled_keyedPieces hreference (List.forall_mem_map.mpr fun group _ => ?_) (List.forall_mem_nil _)
  exact readable_callbackPieces (List.forall_mem_singleton.mpr hvalue) (readable_exportPieces hreference
    (List.forall_mem_map.mpr fun exported _ => readable_getterPieces hvalue))

theorem spelled_reExportAllPieces {specifier : String} {offset : Nat}
    (hreference : isIdentifier reference.toList = true) :
    Spelled (reExportAllPieces reference specifier offset) rest := by
  have hvalue := isIdentifier_freshName "v" (by decide) [reference]
  have hname := isIdentifier_freshName "n" (by decide) [reference]
  unfold reExportAllPieces
  dsimp only
  refine spelled_keyedPieces hreference (List.forall_mem_singleton.mpr ?_) (List.forall_mem_nil _)
  refine readable_callbackPieces (forall_mem_pair hvalue hname) fun rest hrest => ?_
  have hgetter : Readable [.mark "[", .parameter (freshName "n" [reference]), .mark "]:",
      .function [] [.mark "()=>", .parameter (freshName "v" [reference])]] := fun rest hrest =>
    spelled_cons (spelled_mark (by decide)) (spelled_cons
      (spelled_parameter hname (not_continuesName_mark (by decide))) (spelled_cons
        (spelled_mark (by decide)) (spelled_function (spelled_cons (spelled_mark (by decide))
          (readable_parameter hvalue rest hrest)))))
  have hexport : Readable (exportPieces reference [[.mark "[", .parameter (freshName "n" [reference]),
      .mark "]:", .function [] [.mark "()=>", .parameter (freshName "v" [reference])]]]) :=
    readable_exportPieces hreference (List.forall_mem_singleton.mpr hgetter)
  exact spelled_cons (spelled_parameter hname (not_continuesName_mark (by decide))) (spelled_cons
    (spelled_mark (by decide)) (spelled_cons (spelled_literal _ _) (spelled_cons
      (spelled_mark_before (by decide) hreference) (hexport rest hrest))))

/-- The call that makes an object without members is read as such up to a closing mark. -/
theorem spelled_creation {text : String} {punctuation : isPunctuation text = true}
    (hopens : opensWith closesItem text = true) (hread : isReadAnywhere text = true) :
    Spelled [.outer "Object", .mark ".", .property "create", .mark "(", .null, .mark text punctuation]
      rest := by
  have hnull {rest : List Char} (hrest : EndsItem rest) : Spelled [.null] rest :=
    spelled_single rfl rfl rfl
      (name_stands (by decide) hrest.not_continuesName)
  exact spelled_cons (spelled_outer (by decide) (not_continuesName_mark (by decide))) (spelled_cons
    (spelled_mark_before (by decide) (by decide)) (spelled_cons
      (spelled_property (by decide) (not_continuesName_mark (by decide))) (spelled_cons
        (spelled_mark (by decide)) (spelled_cons (hnull (endsItem_mark hopens)) (spelled_mark hread)))))

theorem spelled_reExportNamespacePieces {specifier exported : String} {offset : Nat}
    (hreference : isIdentifier reference.toList = true) :
    Spelled (reExportNamespacePieces reference specifier offset exported) rest := by
  unfold reExportNamespacePieces
  dsimp only
  have hobject := isIdentifier_freshName "o" (by decide) [reference]
  generalize freshName "o" [reference] = object at hobject ⊢
  have hvalue := isIdentifier_freshName "v" (by decide) [reference, object]
  have hname := isIdentifier_freshName "n" (by decide) [reference, object]
  have hregister : Readable (exportPieces reference [getterPieces exported object]) :=
    readable_exportPieces hreference (List.forall_mem_singleton.mpr (readable_getterPieces hobject))
  have hrequest : Readable (keyedPieces reference specifier
      [callbackPieces everyName [freshName "v" [reference, object], freshName "n" [reference, object]]
        (memberPieces (.parameter object) (freshName "n" [reference, object])
          (freshName "v" [reference, object]))] offset [.parameter object]) := fun _ _ =>
    spelled_keyedPieces hreference (List.forall_mem_singleton.mpr
      (readable_callbackPieces (forall_mem_pair hvalue hname)
        (readable_memberPieces (fun _ hrest => spelled_parameter hobject hrest) hname hvalue)))
      (List.forall_mem_singleton.mpr (readable_parameter hobject))
  refine spelled_cons (spelled_mark (by decide)) (spelled_cons (spelled_function ?_) ?_)
  · refine spelled_cons (spelled_parameter hobject (not_continuesName_mark (by decide)))
      (spelled_cons (spelled_mark (by decide)) (spelled_inBraces fun rest hrest => ?_))
    exact spelled_append (hregister _ (endsItem_mark (by decide)))
      (spelled_cons (spelled_mark (by decide)) (hrequest rest hrest))
  · exact spelled_cons (spelled_mark (by decide)) (spelled_creation (by decide) (by decide))

/-- The statement of a request is read as the tokens of its pieces. -/
theorem spelled_requestPieces {scheme : Scheme} {request : Request}
    (hreference : isIdentifier scheme.reference.toList = true)
    (hvariables : ∀ pair ∈ request.importedVariables, isIdentifier pair.2.toList = true)
    (hobjects : ∀ object ∈ request.importedNamespaces, isIdentifier object.toList = true) :
    Spelled (requestPieces scheme request) rest := by
  unfold requestPieces
  obtain ⟨offset, specifier, use⟩ := request
  refine spelled_append ?_ (spelled_mark (by decide))
  cases use with
  | bindings names objects => exact spelled_bindingsPieces hreference hvariables hobjects
  | reExport names => exact spelled_reExportPieces hreference
  | reExportAll => exact spelled_reExportAllPieces hreference
  | reExportNamespace exported => exact spelled_reExportNamespacePieces hreference

end Spelling

end ModuleLinkage.Lowering
