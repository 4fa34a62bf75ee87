import ModuleLinkage.Proofs.Syntax.Reading
import ModuleLinkage.Proofs.Text.Lines
import ModuleLinkage.Syntax.Parser.Markup

/-!
# Tokens stand in the text

Every reader of the lexer stops further along in the text that it was started on (`Place.Reaches`),
and what lies between is what the token spells (`Token.Spells`): a punctuator exactly, a word up to
a tail behind a hyphen that only names in markup have, unless it is written with escapes. Where the
characters of a word stand in the text, they stand there as a whole (`StandsWhole`).
-/

set_option autoImplicit false

namespace ModuleLinkage.Syntax

open Text Unicode

/-! ### Places -/

/-- Whether a text stands between two places. -/
structure Place.Leads (place : Place) (body : List Char) (next : Place) : Prop where
  rest : place.rest = body ++ next.rest
  offset : next.offset = place.offset + width body

/-- Whether a place is further along in the text of another. -/
def Place.Reaches (place next : Place) : Prop :=
  ∃ body, place.Leads body next

namespace Place

variable {first second third : Place}

theorem Leads.reaches {body : List Char} (h : first.Leads body second) : first.Reaches second :=
  ⟨body, h⟩

theorem Leads.append {body body' : List Char} (h : first.Leads body second)
    (h' : second.Leads body' third) : first.Leads (body ++ body') third where
  rest := by rw [h.rest, h'.rest, List.append_assoc]
  offset := by rw [h'.offset, h.offset, width_append, Nat.add_assoc]

theorem Reaches.refl (place : Place) : place.Reaches place :=
  ⟨[], rfl, rfl⟩

theorem Reaches.trans (h : first.Reaches second) (h' : second.Reaches third) :
    first.Reaches third := by
  obtain ⟨body, h⟩ := h
  obtain ⟨body', h'⟩ := h'
  exact ⟨body ++ body', h.append h'⟩

theorem Reaches.offset_le (h : first.Reaches second) : first.offset ≤ second.offset := by
  obtain ⟨body, h⟩ := h
  rw [h.offset]
  exact Nat.le_add_right _ _

/-- A text is what leads to a place. -/
theorem leads_append (body rest : List Char) (offset : Nat) :
    Leads ⟨body ++ rest, offset⟩ body ⟨rest, offset + width body⟩ :=
  ⟨rfl, rfl⟩

theorem reaches_cons (c : Char) (rest : List Char) (offset : Nat) :
    Reaches ⟨c :: rest, offset⟩ ⟨rest, offset + c.utf8Size⟩ :=
  (leads_append [c] rest offset).reaches

theorem reaches_of_cons {c : Char} {rest : List Char} {offset : Nat} {next : Place}
    (h : Reaches ⟨rest, offset + c.utf8Size⟩ next) : Reaches ⟨c :: rest, offset⟩ next :=
  (reaches_cons c rest offset).trans h

/-- The places of a text are those that its beginning reaches. -/
def In (source : List Char) (place : Place) : Prop :=
  Reaches ⟨source, 0⟩ place

theorem In.trans {source : List Char} (h : first.In source) (h' : first.Reaches second) :
    second.In source :=
  Reaches.trans h h'

theorem In.isBoundary {source : List Char} {place : Place} (h : place.In source) :
    isBoundary source place.offset = true := by
  obtain ⟨before, hrest, hoffset⟩ := h
  rw [hoffset, Nat.zero_add]
  exact isBoundary_of_append hrest

theorem In.dropBytes {source : List Char} {place : Place} (h : place.In source) :
    dropBytes place.offset source = place.rest := by
  obtain ⟨before, hrest, hoffset⟩ := h
  dsimp only at hrest hoffset
  rw [hoffset, Nat.zero_add, hrest, dropBytes_width]

end Place

/-! ### What tokens spell -/

/-- Whether a text does not begin with a name that only begins as the given one does. -/
def StandsWhole (name text : List Char) : Prop :=
  ∀ after, text = name ++ after → EndsName after

/-- What is known of a token that covers `body` at the beginning of `text`. -/
def Token.Spells (text body : List Char) : Token → Prop
  | .punctuator mark => body = mark.toList
  | .word name escaped => isIdentifier name.toList = true ∧ StandsWhole name.toList text ∧
    (escaped = false → ∃ tail, body = name.toList ++ tail ∧ ∀ c ∈ tail.head?, c = '-')
  | _ => True

/-- Whether nothing is known of the text of a token. -/
def Token.isFree : Token → Bool
  | .punctuator _ | .word _ _ => false
  | _ => true

theorem Token.spells_of_isFree {token : Token} (hfree : token.isFree = true)
    (text body : List Char) : token.Spells text body := by
  cases token <;> trivial

theorem Token.ne_word_of_isFree {token : Token} (hfree : token.isFree = true) (name : String)
    (escaped : Bool) : token ≠ .word name escaped := by
  rintro rfl
  cases hfree

/-- Whether a token and the place behind it are read at a place. -/
def Lexes (place : Place) (found : Token × Place) : Prop :=
  ∃ body, place.Leads body found.2 ∧ found.1.Spells place.rest body

/-- Whether a token of which nothing is known is read at a place. -/
def LexesFree (place : Place) (found : Token × Place) : Prop :=
  place.Reaches found.2 ∧ found.1.isFree = true

theorem LexesFree.lexes {place : Place} {found : Token × Place} (h : LexesFree place found) :
    Lexes place found := by
  obtain ⟨⟨body, hbody⟩, hfree⟩ := h
  exact ⟨body, hbody, Token.spells_of_isFree hfree _ body⟩

theorem LexesFree.behind {first second : Place} {found : Token × Place} (h : LexesFree second found)
    (hreaches : first.Reaches second) : LexesFree first found :=
  ⟨hreaches.trans h.1, h.2⟩

theorem lexesFree_here {token : Token} (hfree : token.isFree = true) (place : Place) :
    LexesFree place (token, place) :=
  ⟨.refl place, hfree⟩

theorem Lexes.reaches {place : Place} {found : Token × Place} (h : Lexes place found) :
    place.Reaches found.2 := by
  obtain ⟨body, hbody, -⟩ := h
  exact hbody.reaches

/-! ### Names -/

theorem reaches_scanName {first escaped : Bool} {skip offset : Nat} {read text : List Char}
    {name : Name} (hscan : scanName first escaped skip read offset text = some name) :
    Place.Reaches ⟨text, offset⟩ name.next := by
  induction text generalizing first escaped skip read offset with
  | nil =>
    unfold scanName at hscan
    split at hscan <;> cases hscan
    exact .refl _
  | cons c text ih =>
    cases skip with
    | succ skip => exact Place.reaches_of_cons (ih hscan)
    | zero =>
      rw [scanName_cons] at hscan
      split at hscan
      · exact Place.reaches_of_cons (ih hscan)
      · split at hscan
        · next hslash =>
          subst hslash
          split at hscan
          · exact Place.reaches_of_cons (ih hscan)
          · cases hscan
        · split at hscan <;> cases hscan
          exact .refl _

/-- A character that fits where a name has been read up to makes the name longer, or begins it. -/
theorem isIdentifier_reverse_cons {c : Char} {read : List Char} {first : Bool}
    (hread : if first then read = [] else isIdentifier read.reverse = true)
    (hfits : fitsName first c = true) : isIdentifier (c :: read).reverse = true := by
  cases first with
  | true =>
    subst hread
    exact Bool.and_eq_true_iff.mpr ⟨hfits, rfl⟩
  | false =>
    change isIdentifier read.reverse = true at hread
    rw [List.reverse_cons]
    cases hchars : read.reverse with
    | nil => simp [hchars, isIdentifier] at hread
    | cons d chars =>
      rw [hchars] at hread
      obtain ⟨hstart, hparts⟩ := Bool.and_eq_true_iff.mp hread
      have hall : (chars ++ [c]).all isIdentifierPart = true := by
        rw [List.all_append, hparts]
        simpa [fitsName] using hfits
      exact Bool.and_eq_true_iff.mpr ⟨hstart, hall⟩

/-- A name is an identifier, however it is written. -/
theorem isIdentifier_of_scanName {first escaped : Bool} {skip offset : Nat} {read text : List Char}
    {name : Name} (hscan : scanName first escaped skip read offset text = some name)
    (hread : if first then read = [] else isIdentifier read.reverse = true) :
    isIdentifier name.chars = true := by
  induction text generalizing first escaped skip read offset with
  | nil =>
    unfold scanName at hscan
    split at hscan
    · cases hscan
    · next hfirst =>
      cases hscan
      simpa [hfirst] using hread
  | cons c text ih =>
    cases skip with
    | succ skip => exact ih hscan hread
    | zero =>
      rw [scanName_cons] at hscan
      split at hscan
      · next hfits => exact ih hscan (isIdentifier_reverse_cons hread hfits)
      · split at hscan
        · split at hscan
          · next hescape =>
            obtain ⟨-, -, -, -, -, -, hfits, -⟩ := nameEscape?_eq_some.mp hescape
            exact ih hscan (isIdentifier_reverse_cons hread hfits)
          · cases hscan
        · split at hscan
          · cases hscan
          · next hfirst =>
            cases hscan
            simpa [hfirst] using hread

/-- A name that is written without escapes is written with its own characters. -/
theorem exists_of_scanName {first escaped : Bool} {skip offset : Nat} {read text : List Char}
    {name : Name} (hscan : scanName first escaped skip read offset text = some name)
    (hplain : name.escaped = false) : escaped = false ∧
      (skip = 0 → ∃ more, name.chars = read.reverse ++ more ∧ text = more ++ name.next.rest) := by
  induction text generalizing first escaped skip read offset with
  | nil =>
    unfold scanName at hscan
    split at hscan <;> cases hscan
    exact ⟨hplain, fun _ => ⟨[], by simp⟩⟩
  | cons c text ih =>
    cases skip with
    | succ skip => exact ⟨(ih hscan).1, fun hzero => absurd hzero (Nat.succ_ne_zero skip)⟩
    | zero =>
      rw [scanName_cons] at hscan
      split at hscan
      · obtain ⟨hbefore, hmore⟩ := ih hscan
        obtain ⟨more, hchars, rfl⟩ := hmore rfl
        exact ⟨hbefore, fun _ => ⟨c :: more, by rw [hchars, List.reverse_cons, List.append_assoc]; rfl,
          rfl⟩⟩
      · split at hscan
        · split at hscan
          · exact absurd (ih hscan).1 (by simp)
          · cases hscan
        · split at hscan <;> cases hscan
          exact ⟨hplain, fun _ => ⟨[], by simp⟩⟩

theorem prefix_of_scanName {first escaped : Bool} {skip offset : Nat} {read text : List Char}
    {name : Name} (hscan : scanName first escaped skip read offset text = some name) :
    read.reverse <+: name.chars := by
  induction text generalizing first escaped skip read offset with
  | nil =>
    unfold scanName at hscan
    split at hscan <;> cases hscan
    exact List.prefix_refl _
  | cons c text ih =>
    have hmore (d : Char) : read.reverse <+: (d :: read).reverse := by
      rw [List.reverse_cons]
      exact List.prefix_append _ _
    cases skip with
    | succ skip => exact ih hscan
    | zero =>
      rw [scanName_cons] at hscan
      split at hscan
      · exact (hmore c).trans (ih hscan)
      · split at hscan
        · split at hscan
          · exact (hmore _).trans (ih hscan)
          · cases hscan
        · split at hscan <;> cases hscan
          exact List.prefix_refl _

/-- A name ends where no further character can continue it, and no escape is what it denotes. -/
theorem standsWhole_of_scanName {first escaped : Bool} {offset : Nat} {read text : List Char}
    {name : Name} (hscan : scanName first escaped 0 read offset text = some name) :
    StandsWhole name.chars (read.reverse ++ text) := by
  intro after htext
  induction text generalizing first escaped read offset with
  | nil =>
    unfold scanName at hscan
    split at hscan <;> cases hscan
    obtain rfl : [] = after := List.append_cancel_left htext
    intro c hc
    cases hc
  | cons c text ih =>
    rw [scanName_cons] at hscan
    split at hscan
    · exact ih hscan (by rw [List.reverse_cons, List.append_assoc]; exact htext)
    · next hunfit =>
      split at hscan
      · next hslash =>
        subst hslash
        split at hscan
        · next denoted used hescape =>
          -- The backslash is no character of the name.
          obtain ⟨-, -, -, -, -, -, hfits, -⟩ := nameEscape?_eq_some.mp hescape
          obtain ⟨more, hmore⟩ := prefix_of_scanName hscan
          rw [← hmore, List.reverse_cons, List.append_assoc, List.append_assoc,
            List.append_cancel_left_eq] at htext
          obtain ⟨rfl, -⟩ := List.cons.inj htext
          exact absurd hfits hunfit
        · cases hscan
      · split at hscan <;> cases hscan
        next hfirst =>
        obtain rfl : c :: text = after := List.append_cancel_left htext
        obtain rfl : first = false := by simpa using hfirst
        intro d hd
        obtain rfl := Option.some.inj hd
        simpa [fitsName] using hunfit

/-- A name that is read as a word stands in the text. -/
theorem lexes_readNameAs_word (place : Place) : Lexes place (readNameAs .word place) := by
  unfold readNameAs readName?
  split
  · next name hscan =>
    obtain ⟨body, hbody⟩ := reaches_scanName hscan
    refine ⟨body, hbody, ?_, ?_, fun hplain => ⟨[], ?_, nofun⟩⟩
    · rw [String.toList_ofList]
      exact isIdentifier_of_scanName hscan rfl
    · rw [String.toList_ofList]
      exact standsWhole_of_scanName hscan
    · obtain ⟨more, hchars, htext⟩ := (exists_of_scanName hscan hplain).2 rfl
      obtain rfl : body = more := List.append_cancel_right (hbody.rest.symm.trans htext)
      rw [String.toList_ofList, hchars, List.append_nil]
      rfl
  · exact (lexesFree_here rfl place).lexes

theorem lexesFree_readNameAs_privateName (place : Place) :
    LexesFree place (readNameAs (fun name _ => .privateName name) place) := by
  unfold readNameAs readName?
  split
  · next name hscan => exact ⟨reaches_scanName hscan, rfl⟩
  · exact lexesFree_here rfl place

/-! ### Numerals -/

theorem reaches_scanDigits (isDigit : Char → Bool) (afterDigit : Bool) (run : DigitRun) (offset : Nat)
    (text : List Char) :
    Place.Reaches ⟨text, offset⟩ (scanDigits isDigit afterDigit run offset text).next := by
  induction text generalizing afterDigit run offset with
  | nil => exact .refl _
  | cons c text ih =>
    unfold scanDigits
    split
    · exact Place.reaches_of_cons (ih _ _ _)
    · split
      · exact Place.reaches_of_cons (ih _ _ _)
      · exact .refl _

theorem reaches_readDigits (isDigit : Char → Bool) (place : Place) :
    place.Reaches (readDigits isDigit place).next :=
  reaches_scanDigits isDigit _ _ _ _

theorem lexesFree_numeralAt {token : Token} (hfree : token.isFree = true) (place : Place) :
    LexesFree place (numeralAt token place) := by
  unfold numeralAt
  split
  · split
    · exact lexesFree_here rfl place
    · exact lexesFree_here hfree place
  · exact lexesFree_here hfree place

/-- A character of one byte is passed. -/
theorem reaches_of_rest {place : Place} {c : Char} {rest : List Char} (hrest : place.rest = c :: rest)
    (hsize : c.utf8Size = 1) : place.Reaches ⟨rest, place.offset + 1⟩ :=
  ⟨[c], by rw [hrest]; rfl, by simp [hsize]⟩

theorem lexesFree_endInteger (wellFormed : Bool) (place : Place) :
    LexesFree place (endInteger wellFormed place) := by
  unfold endInteger
  split
  · split
    · next hrest => exact (lexesFree_numeralAt rfl _).behind (reaches_of_rest hrest rfl)
    · exact lexesFree_numeralAt rfl place
  · exact lexesFree_here rfl place

theorem lexesFree_readExponent (wellFormed : Bool) (place : Place) :
    LexesFree place (readExponent wellFormed place) := by
  unfold readExponent
  dsimp only
  have hrun (digits : Place) (hdigits : place.Reaches digits) :
      LexesFree place (if wellFormed && (readDigits isAsciiDigit digits).wellFormed &&
          (readDigits isAsciiDigit digits).count > 0 then
        (.number, (readDigits isAsciiDigit digits).next)
      else (.invalid, (readDigits isAsciiDigit digits).next)) := by
    have hreaches := hdigits.trans (reaches_readDigits isAsciiDigit digits)
    split
    · exact ⟨hreaches, rfl⟩
    · exact ⟨hreaches, rfl⟩
  split
  · next hrest => exact hrun _ (reaches_of_rest hrest rfl)
  · next hrest => exact hrun _ (reaches_of_rest hrest rfl)
  · exact hrun _ (.refl _)

theorem lexesFree_endDecimal (wellFormed : Bool) (place : Place) :
    LexesFree place (endDecimal wellFormed place) := by
  have hend (found : Token × Place) (hfound : LexesFree place found) :
      LexesFree place (numeralAt found.1 found.2) :=
    (lexesFree_numeralAt hfound.2 _).behind hfound.1
  unfold endDecimal
  dsimp only
  split
  · next hrest =>
    exact hend _ ((lexesFree_readExponent wellFormed _).behind (reaches_of_rest hrest rfl))
  · next hrest =>
    exact hend _ ((lexesFree_readExponent wellFormed _).behind (reaches_of_rest hrest rfl))
  · refine hend (_, place) ⟨.refl _, ?_⟩
    split <;> rfl

theorem lexesFree_endFraction (wellFormed : Bool) (place : Place) :
    LexesFree place (endFraction wellFormed place) :=
  (lexesFree_endDecimal _ _).behind (reaches_readDigits isAsciiDigit place)

theorem lexesFree_readBased (isDigit : Char → Bool) (place : Place) :
    LexesFree place (readBased isDigit place) :=
  (lexesFree_endInteger _ _).behind (reaches_readDigits isDigit place)

theorem lexesFree_readDecimal (place : Place) : LexesFree place (readDecimal place) := by
  have hdigits := reaches_readDigits isAsciiDigit place
  unfold readDecimal
  dsimp only
  split
  · next hrest =>
    exact (lexesFree_endFraction _ _).behind (hdigits.trans (reaches_of_rest hrest rfl))
  · exact (lexesFree_endInteger _ _).behind hdigits
  · exact (lexesFree_endDecimal _ _).behind hdigits

/-- Digits are of one byte each. -/
theorem width_of_isAsciiDigit {digits : List Char} (h : ∀ c ∈ digits, isAsciiDigit c = true) :
    width digits = digits.length := by
  induction digits with
  | nil => rfl
  | cons c rest ih =>
    have hsize : c.utf8Size = 1 := by
      have hdigit := h c (by simp)
      simp only [isAsciiDigit, Bool.and_eq_true, decide_eq_true_eq, Char.le_def] at hdigit
      have hnine : '9'.val ≤ 127 := by decide
      exact Char.utf8Size_eq_one_iff.mpr (UInt32.le_trans hdigit.2 hnine)
    rw [width_cons, hsize, ih fun d hd => h d (by simp [hd]), List.length_cons, Nat.add_comm]

theorem lexesFree_readZeroLed (place : Place) : LexesFree place (readZeroLed place) := by
  have hdigits : place.Reaches ⟨place.rest.drop (place.rest.takeWhile isAsciiDigit).length,
      place.offset + (place.rest.takeWhile isAsciiDigit).length⟩ := by
    refine ⟨place.rest.takeWhile isAsciiDigit, ?_, ?_⟩
    · have hsplit : place.rest.takeWhile isAsciiDigit ++ place.rest.dropWhile isAsciiDigit =
          place.rest := List.takeWhile_append_dropWhile
      dsimp only
      generalize place.rest.takeWhile isAsciiDigit = digits at hsplit ⊢
      rw [← hsplit, List.drop_left]
    · rw [width_of_isAsciiDigit fun c hc => (List.all_eq_true.mp (List.all_takeWhile)) c hc]
  unfold readZeroLed
  dsimp only
  split
  · exact (lexesFree_numeralAt rfl _).behind hdigits
  · split
    · next hrest =>
      exact (lexesFree_endFraction _ _).behind (hdigits.trans (reaches_of_rest hrest rfl))
    · next hrest =>
      exact (lexesFree_readExponent _ _).behind (hdigits.trans (reaches_of_rest hrest rfl))
    · exact (lexesFree_numeralAt rfl _).behind hdigits

theorem lexesFree_readNumeral (place : Place) : LexesFree place (readNumeral place) := by
  have htwo {c d : Char} {rest : List Char} (hrest : place.rest = c :: d :: rest)
      (hc : c.utf8Size = 1) (hd : d.utf8Size = 1) : place.Reaches ⟨rest, place.offset + 2⟩ :=
    ⟨[c, d], by rw [hrest]; rfl, by simp [hc, hd]⟩
  unfold readNumeral
  dsimp only
  split
  · next hrest => exact (lexesFree_readBased _ _).behind (htwo hrest rfl rfl)
  · next hrest => exact (lexesFree_readBased _ _).behind (htwo hrest rfl rfl)
  · next hrest => exact (lexesFree_readBased _ _).behind (htwo hrest rfl rfl)
  · next hrest => exact (lexesFree_readBased _ _).behind (htwo hrest rfl rfl)
  · next hrest => exact (lexesFree_readBased _ _).behind (htwo hrest rfl rfl)
  · next hrest => exact (lexesFree_readBased _ _).behind (htwo hrest rfl rfl)
  · next hrest => exact (lexesFree_readExponent _ _).behind (htwo hrest rfl rfl)
  · next hrest => exact (lexesFree_readExponent _ _).behind (htwo hrest rfl rfl)
  · next hrest =>
    split
    · exact lexesFree_readZeroLed place
    · split
      · exact ⟨reaches_of_rest hrest rfl, rfl⟩
      · exact lexesFree_readDecimal place
  · exact lexesFree_readDecimal place

/-! ### Quoted text -/

theorem reaches_scanString {quote : Char} {skip offset : Nat} {units units' : List Unit16}
    {text : List Char} {next : Place}
    (hscan : scanString quote skip units offset text = some (units', next)) :
    Place.Reaches ⟨text, offset⟩ next := by
  induction text generalizing skip units offset with
  | nil => cases hscan
  | cons c text ih =>
    refine Place.reaches_of_cons ?_
    cases skip with
    | succ skip => exact ih hscan
    | zero =>
      unfold scanString at hscan
      dsimp only at hscan
      split at hscan
      · cases hscan
        exact .refl _
      · split at hscan
        · cases hscan
        · split at hscan
          · split at hscan
            · exact ih hscan
            · exact ih hscan
            · exact ih hscan
            · cases hscan
          · exact ih hscan

theorem lexesFree_readString (quote : Char) (place : Place) :
    LexesFree place (readString quote place) := by
  unfold readString
  split
  · next hscan => exact ⟨reaches_scanString hscan, rfl⟩
  · exact lexesFree_here rfl place

theorem lexesFree_scanTemplate (skip : Nat) (cooked : Bool) (offset : Nat) (text : List Char) :
    LexesFree ⟨text, offset⟩ (scanTemplate skip cooked offset text) := by
  induction text generalizing skip cooked offset with
  | nil => exact lexesFree_here rfl _
  | cons c text ih =>
    have hbehind (skip : Nat) (cooked : Bool) :
        LexesFree ⟨c :: text, offset⟩ (scanTemplate skip cooked (offset + c.utf8Size) text) :=
      (ih _ _ _).behind (Place.reaches_cons c text offset)
    cases skip with
    | succ skip => exact hbehind skip cooked
    | zero =>
      unfold scanTemplate
      dsimp only
      split
      · exact ⟨Place.reaches_cons '`' text offset, rfl⟩
      · next after =>
        exact ⟨(Place.leads_append ['$', '\x7b'] after offset).reaches, rfl⟩
      · split
        · exact hbehind _ _
        · exact hbehind _ _
      · exact hbehind _ _

theorem reaches_scanPattern {inClass skip : Bool} {offset : Nat} {text : List Char} {next : Place}
    (hscan : scanPattern inClass skip offset text = some next) :
    Place.Reaches ⟨text, offset⟩ next := by
  induction text generalizing inClass skip offset with
  | nil => cases hscan
  | cons c text ih =>
    refine Place.reaches_of_cons ?_
    unfold scanPattern at hscan
    dsimp only at hscan
    repeat' split at hscan
    all_goals first
      | exact ih hscan
      | cases hscan
        try exact .refl _

theorem reaches_scanFlags {seen : List Char} {offset : Nat} {text : List Char} {next : Place}
    (hscan : scanFlags seen offset text = some next) : Place.Reaches ⟨text, offset⟩ next := by
  induction text generalizing seen offset with
  | nil =>
    cases hscan
    exact .refl _
  | cons c text ih =>
    unfold scanFlags at hscan
    split at hscan
    · split at hscan
      · exact Place.reaches_of_cons (ih hscan)
      · cases hscan
    · cases hscan
      exact .refl _

theorem lexesFree_readRegex (place : Place) : LexesFree place (readRegex place) := by
  unfold readRegex
  split
  · next hpattern =>
    have hbody := reaches_scanPattern hpattern
    split
    · next hflags => exact ⟨hbody.trans (reaches_scanFlags hflags), rfl⟩
    · exact ⟨hbody, rfl⟩
  · exact lexesFree_here rfl place

/-! ### Punctuators -/

theorem width_mark : ∀ mark ∈ punctuators ++ greaterOperators, mark.utf8ByteSize = width mark.toList := by
  decide

theorem lexes_readPunctuator {marks : List String} (hmarks : marks ⊆ punctuators ++ greaterOperators)
    (place : Place) : Lexes place (readPunctuator marks place) := by
  unfold readPunctuator
  split
  · next mark rest hfound =>
    obtain ⟨found, hmem, hstands⟩ := List.exists_of_findSome?_eq_some hfound
    obtain ⟨behind, hbehind, hpair⟩ := Option.map_eq_some_iff.mp hstands
    obtain ⟨rfl, rfl⟩ := Prod.mk.inj hpair
    refine ⟨found.toList, ⟨(standsAt_eq_some.mp hbehind).1, ?_⟩, rfl⟩
    rw [width_mark found (hmarks hmem)]
  · exact (lexesFree_here rfl place).lexes

theorem lexes_rereadOperator (place : Place) : Lexes place (rereadOperator place) :=
  lexes_readPunctuator (List.subset_append_right _ _) place

/-! ### Tokens -/

theorem lexes_readToken (place : Place) : Lexes place (readToken place) := by
  unfold readToken
  split
  · exact (lexesFree_here rfl place).lexes
  · next c rest hrest =>
    have hbehind : place.Reaches ⟨rest, place.offset + c.utf8Size⟩ := ⟨[c], hrest, rfl⟩
    dsimp only
    split
    · exact lexes_readNameAs_word place
    · split
      · exact (lexesFree_readNumeral place).lexes
      · split
        · exact ((lexesFree_readString c _).behind hbehind).lexes
        · split
          · exact ((lexesFree_scanTemplate 0 true _ _).behind hbehind).lexes
          · split
            · exact ((lexesFree_readNameAs_privateName _).behind hbehind).lexes
            · split
              · exact ((lexesFree_endFraction true _).behind hbehind).lexes
              · exact lexes_readPunctuator (List.subset_append_left _ _) place

theorem reaches_skipGap {markers newline : Bool} {mode : GapMode} {skip offset : Nat}
    {text : List Char} {gap : Gap} (hskip : skipGap markers mode skip newline offset text = some gap) :
    Place.Reaches ⟨text, offset⟩ gap.next := by
  induction text generalizing mode skip newline offset with
  | nil =>
    unfold skipGap at hskip
    split at hskip <;> cases hskip
    exact .refl _
  | cons c text ih =>
    unfold skipGap at hskip
    dsimp only at hskip
    repeat' split at hskip
    all_goals first
      | exact Place.reaches_of_cons (ih hskip)
      | cases hskip
        exact .refl _

/-! ### Markup -/

theorem reaches_scanMarkupName (offset : Nat) (text : List Char) :
    Place.Reaches ⟨text, offset⟩ (scanMarkupName offset text) := by
  induction text generalizing offset with
  | nil => exact .refl _
  | cons c text ih =>
    unfold scanMarkupName
    split
    · exact Place.reaches_of_cons (ih _)
    · exact .refl _

theorem reaches_scanMarkupString {quote : Char} {offset : Nat} {text : List Char} {next : Place}
    (hscan : scanMarkupString quote offset text = some next) :
    Place.Reaches ⟨text, offset⟩ next := by
  induction text generalizing offset with
  | nil => cases hscan
  | cons c text ih =>
    unfold scanMarkupString at hscan
    split at hscan
    · cases hscan
      exact Place.reaches_cons c text offset
    · exact Place.reaches_of_cons (ih hscan)

theorem reaches_scanMarkupText {offset : Nat} {text : List Char} {next : Place}
    (hscan : scanMarkupText offset text = some next) : Place.Reaches ⟨text, offset⟩ next := by
  induction text generalizing offset with
  | nil =>
    cases hscan
    exact .refl _
  | cons c text ih =>
    unfold scanMarkupText at hscan
    split at hscan
    · cases hscan
      exact .refl _
    · split at hscan
      · cases hscan
      · exact Place.reaches_of_cons (ih hscan)

theorem lexes_childToken (place : Place) : Lexes place (childToken place) := by
  unfold childToken
  split
  · exact (lexesFree_here rfl place).lexes
  · next rest hrest => exact ⟨['<'], ⟨hrest, rfl⟩, rfl⟩
  · next rest hrest => exact ⟨['\x7b'], ⟨hrest, rfl⟩, rfl⟩
  · split
    · next hscan => exact LexesFree.lexes ⟨reaches_scanMarkupText hscan, rfl⟩
    · exact (lexesFree_here rfl place).lexes

theorem lexes_valueToken (place : Place) : Lexes place (valueToken place) := by
  unfold valueToken
  split
  · next c rest hrest =>
    split
    · next hquote =>
      have hsize : c.utf8Size = 1 := by
        simp only [Bool.or_eq_true, beq_iff_eq] at hquote
        obtain rfl | rfl := hquote
        · rfl
        · rfl
      split
      · next hscan =>
        exact LexesFree.lexes ⟨(reaches_of_rest hrest hsize).trans (reaches_scanMarkupString hscan), rfl⟩
      · exact (lexesFree_here rfl place).lexes
    · exact lexes_readToken place
  · exact (lexesFree_here rfl place).lexes

end ModuleLinkage.Syntax
