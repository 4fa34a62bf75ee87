import ModuleLinkage.Proofs.Syntax.Anchoring.Lexemes
import ModuleLinkage.Proofs.Syntax.Insertion
import ModuleLinkage.Proofs.Unicode.Tables
import ModuleLinkage.Text.ModuleSyntax

/-!
# Where tokens begin

What is read at a place ends behind a character that belongs to no word, or before one
(`Place.Closes`). Only numerals may end so that a name follows at once, because not all of them look at
what stands behind them. So wherever a token stands, no word goes on from what stands before it, unless
a numeral ends there (`Place.Apart`, `Place.Apart.cases`). The token behind such a place stands in the
text (`stands_readLexeme`), and the place behind the token is such a place again.
-/

set_option autoImplicit false

namespace ModuleLinkage.Syntax

open Text Unicode

/-! ### How readers end -/

/-- How what is read at a place may end at another one, if it is no numeral. -/
inductive Place.Closes (place next : Place) : Prop
  | ahead (hreaches : place.Reaches next) (hends : EndsName next.rest)
  | behind {body : List Char} {c : Char} (hleads : place.Leads (body ++ [c]) next)
      (hc : separates c = true)

namespace Place.Closes

variable {first place next : Place}

theorem reaches (h : place.Closes next) : place.Reaches next := by
  cases h with
  | ahead hreaches hends => exact hreaches
  | behind hleads hc => exact hleads.reaches

theorem after (h : place.Closes next) (hreaches : first.Reaches place) : first.Closes next := by
  cases h with
  | ahead hreaches' hends => exact .ahead (hreaches.trans hreaches') hends
  | behind hleads hc =>
    obtain ⟨body, hbody⟩ := hreaches
    exact .behind (by rw [List.append_assoc]; exact hbody.append hleads) hc

theorem of_cons {c : Char} {rest : List Char} {offset : Nat}
    (h : Closes ⟨rest, offset + c.utf8Size⟩ next) : Closes ⟨c :: rest, offset⟩ next :=
  h.after (reaches_cons c rest offset)

/-- A character that belongs to no word. -/
theorem char {c : Char} {rest : List Char} (hrest : place.rest = c :: rest)
    (hc : separates c = true) : place.Closes ⟨rest, place.offset + c.utf8Size⟩ := by
  have hleads : place.Leads ([] ++ [c]) ⟨rest, place.offset + c.utf8Size⟩ := ⟨hrest, by simp⟩
  exact .behind hleads hc

/-- A character that belongs to no word, and what is read behind it, or nothing. -/
theorem char_after {c : Char} {rest : List Char} (hrest : place.rest = c :: rest)
    (hc : separates c = true)
    (h : next = ⟨rest, place.offset + c.utf8Size⟩ ∨ Closes ⟨rest, place.offset + c.utf8Size⟩ next) :
    place.Closes next := by
  have hfirst := char hrest hc
  rcases h with rfl | h
  · exact hfirst
  · exact h.after hfirst.reaches

end Place.Closes

theorem endsName_nil : EndsName [] := nofun

theorem endsName_cons {c : Char} (hc : isIdentifierPart c = false) (rest : List Char) :
    EndsName (c :: rest) := by
  intro d hd
  obtain rfl := Option.some.inj hd
  exact hc

theorem endsName_of_scanName {first escaped : Bool} {skip offset : Nat} {read text : List Char}
    {name : Name} (hscan : scanName first escaped skip read offset text = some name) :
    EndsName name.next.rest := by
  induction text generalizing first escaped skip read offset with
  | nil =>
    unfold scanName at hscan
    split at hscan <;> cases hscan
    exact endsName_nil
  | cons c text ih =>
    cases skip with
    | succ skip => exact ih hscan
    | zero =>
      rw [scanName_cons] at hscan
      split at hscan
      · exact ih hscan
      · next hunfit =>
        split at hscan
        · split at hscan
          · exact ih hscan
          · cases hscan
        · split at hscan <;> cases hscan
          next hfirst =>
          obtain rfl : first = false := by simpa using hfirst
          exact endsName_cons (by simpa [fitsName] using hunfit) text

theorem closes_readNameAs (token : String → Bool → Token) (place : Place) :
    (readNameAs token place).2 = place ∨ place.Closes (readNameAs token place).2 := by
  unfold readNameAs readName?
  split
  · next name hscan => exact .inr (.ahead (reaches_scanName hscan) (endsName_of_scanName hscan))
  · exact .inl rfl

theorem closes_scanString {quote : Char} (hquote : separates quote = true) {skip offset : Nat}
    {units units' : List Unit16} {text : List Char} {next : Place}
    (hscan : scanString quote skip units offset text = some (units', next)) :
    Place.Closes ⟨text, offset⟩ next := by
  induction text generalizing skip units offset with
  | nil => cases hscan
  | cons c text ih =>
    cases skip with
    | succ skip => exact (ih hscan).of_cons
    | zero =>
      unfold scanString at hscan
      dsimp only at hscan
      split at hscan
      · next hc =>
        cases hscan
        obtain rfl : c = quote := by simpa using hc
        exact .char rfl hquote
      · split at hscan
        · cases hscan
        · split at hscan
          · split at hscan
            · exact (ih hscan).of_cons
            · exact (ih hscan).of_cons
            · exact (ih hscan).of_cons
            · cases hscan
          · exact (ih hscan).of_cons

theorem closes_readString {quote : Char} (hquote : separates quote = true) (place : Place) :
    (readString quote place).2 = place ∨ place.Closes (readString quote place).2 := by
  unfold readString
  split
  · next hscan => exact .inr (closes_scanString hquote hscan)
  · exact .inl rfl

theorem closes_scanTemplate (skip : Nat) (cooked : Bool) (offset : Nat) (text : List Char) :
    Place.Closes ⟨text, offset⟩ (scanTemplate skip cooked offset text).2 := by
  induction text generalizing skip cooked offset with
  | nil => exact .ahead (.refl _) endsName_nil
  | cons c text ih =>
    cases skip with
    | succ skip => exact (ih skip cooked _).of_cons
    | zero =>
      unfold scanTemplate
      dsimp only
      split
      · have haccent : separates '`' = true := by decide
        exact .char rfl haccent
      · next after =>
        have hbrace : separates '\x7b' = true := by decide
        have hleads : Place.Leads ⟨'$' :: '\x7b' :: after, offset⟩ (['$'] ++ ['\x7b'])
            ⟨after, offset + 2⟩ := ⟨rfl, rfl⟩
        exact .behind hleads hbrace
      · split
        · exact (ih _ _ _).of_cons
        · exact (ih _ _ _).of_cons
      · exact (ih _ _ _).of_cons

theorem closes_scanPattern {inClass skip : Bool} {offset : Nat} {text : List Char} {next : Place}
    (hscan : scanPattern inClass skip offset text = some next) :
    Place.Closes ⟨text, offset⟩ next := by
  induction text generalizing inClass skip offset with
  | nil => cases hscan
  | cons c text ih =>
    unfold scanPattern at hscan
    dsimp only at hscan
    split at hscan
    · cases hscan
    split at hscan
    · exact (ih hscan).of_cons
    split at hscan
    · exact (ih hscan).of_cons
    split at hscan
    · exact (ih hscan).of_cons
    split at hscan
    · exact (ih hscan).of_cons
    split at hscan
    · next hslash =>
      cases hscan
      obtain ⟨rfl, -⟩ : c = '/' ∧ inClass = false := by simpa using hslash
      exact .char rfl (by decide)
    · exact (ih hscan).of_cons

theorem closes_readRegex (place : Place) :
    (readRegex place).2 = place ∨ place.Closes (readRegex place).2 := by
  unfold readRegex
  split
  · next hpattern =>
    have hbody := closes_scanPattern hpattern
    split
    · next hflags =>
      exact .inr (.ahead (hbody.reaches.trans (reaches_scanFlags hflags)) (endsName_of_scanFlags hflags))
    · exact .inr hbody
  · exact .inl rfl

theorem exists_separates_mark : ∀ mark ∈ punctuators ++ greaterOperators,
    ∃ c ∈ mark.toList.getLast?, separates c = true := by
  have hall : (punctuators ++ greaterOperators).all
      (fun mark => (mark.toList.getLast?.map separates).getD false) = true := by
    decide
  intro mark hmark
  have hlast := List.all_eq_true.mp hall mark hmark
  cases hchars : mark.toList.getLast? with
  | none => simp [hchars] at hlast
  | some c => exact ⟨c, rfl, by simpa [hchars] using hlast⟩

theorem closes_readPunctuator {marks : List String} (hmarks : marks ⊆ punctuators ++ greaterOperators)
    (place : Place) :
    (readPunctuator marks place).2 = place ∨ place.Closes (readPunctuator marks place).2 := by
  unfold readPunctuator
  split
  · next mark rest hfound =>
    obtain ⟨found, hmem, hstands⟩ := List.exists_of_findSome?_eq_some hfound
    obtain ⟨behind, hbehind, hpair⟩ := Option.map_eq_some_iff.mp hstands
    obtain ⟨rfl, rfl⟩ := Prod.mk.inj hpair
    obtain ⟨c, hc, hseparates⟩ := exists_separates_mark found (hmarks hmem)
    obtain ⟨before, hbefore⟩ := List.getLast?_eq_some_iff.mp hc
    have hleads : place.Leads (before ++ [c]) ⟨behind, place.offset + found.utf8ByteSize⟩ := by
      rw [← hbefore]
      exact ⟨(standsAt_eq_some.mp hbehind).1, by rw [width_mark found (hmarks hmem)]⟩
    exact .inr (.behind hleads hseparates)
  · exact .inl rfl

/-! ### Gaps -/

theorem ne_open_of_commentOpening {markers newline : Bool} {c : Char} {rest : List Char}
    {mode : GapMode} {skip : Nat}
    (hopening : commentOpening? markers newline c rest = some (mode, skip)) : mode ≠ .open := by
  unfold commentOpening? at hopening
  repeat' split at hopening
  all_goals cases hopening
  all_goals decide

/-- How a gap ends from where its reader is: in a comment, between tokens, or before the slash that
ends a comment. -/
theorem closes_skipGap {markers newline : Bool} {mode : GapMode} {skip offset : Nat}
    {text : List Char} {gap : Gap}
    (hskip : skipGap markers mode skip newline offset text = some gap) :
    (mode ≠ .open → Place.Closes ⟨text, offset⟩ gap.next) ∧
    (mode = .open → skip = 0 → gap.next = ⟨text, offset⟩ ∨ Place.Closes ⟨text, offset⟩ gap.next) ∧
    (mode = .open → skip = 1 → text.head? = some '/' → Place.Closes ⟨text, offset⟩ gap.next) := by
  induction text generalizing mode skip newline offset with
  | nil =>
    unfold skipGap at hskip
    split at hskip <;> cases hskip
    have hcloses : Place.Closes ⟨[], offset⟩ ⟨[], offset⟩ := .ahead (.refl _) endsName_nil
    exact ⟨fun _ => hcloses, fun _ _ => .inr hcloses, fun _ _ _ => hcloses⟩
  | cons c text ih =>
    cases skip with
    | succ skip =>
      refine ⟨fun hmode => ((ih hskip).1 hmode).of_cons, fun _ hzero => absurd hzero (Nat.succ_ne_zero _),
        fun hmode hone hslash => ?_⟩
      obtain rfl : c = '/' := by simpa using hslash
      exact .char_after rfl (by decide) ((ih hskip).2.1 hmode (Nat.succ.inj hone))
    | zero =>
      cases mode with
      | lineComment =>
        refine ⟨fun _ => ?_, GapMode.noConfusion, GapMode.noConfusion⟩
        unfold skipGap at hskip
        dsimp only at hskip
        split at hskip
        · next hbreak =>
          exact .char_after rfl (separates_of_isLineBreak hbreak) ((ih hskip).2.1 rfl rfl)
        · exact ((ih hskip).1 (by decide)).of_cons
      | blockComment =>
        refine ⟨fun _ => ?_, GapMode.noConfusion, GapMode.noConfusion⟩
        unfold skipGap at hskip
        dsimp only at hskip
        split at hskip
        · next hend =>
          have hslash : text.head? = some '/' := by
            obtain ⟨-, tail, rfl⟩ : c = '*' ∧ ['/'] <+: text := by
              simpa [startsWith] using hend
            rfl
          exact ((ih hskip).2.2 rfl rfl hslash).of_cons
        · exact ((ih hskip).1 (by decide)).of_cons
      | «open» =>
        refine ⟨fun hmode => absurd rfl hmode, fun _ _ => ?_, fun _ hone => absurd hone Nat.zero_ne_one⟩
        unfold skipGap at hskip
        dsimp only at hskip
        split at hskip
        · next hopening =>
          exact .inr ((ih hskip).1 (ne_open_of_commentOpening hopening)).of_cons
        · split at hskip
          · next hbreak =>
            exact .inr (.char_after rfl (separates_of_isLineBreak hbreak) ((ih hskip).2.1 rfl rfl))
          · split at hskip
            · next hspace =>
              exact .inr (.char_after rfl (separates_of_isSourceSpace hspace)
                ((ih hskip).2.1 rfl rfl))
            · cases hskip
              exact .inl rfl

/-- The first character of a gap belongs to no word. -/
theorem separates_of_skipGap {markers newline : Bool} {offset : Nat} {c : Char} {text : List Char}
    {gap : Gap} (hskip : skipGap markers .open 0 newline offset (c :: text) = some gap) :
    gap.next = ⟨c :: text, offset⟩ ∨ separates c = true := by
  unfold skipGap at hskip
  dsimp only at hskip
  split at hskip
  · next hopening =>
    unfold commentOpening? at hopening
    simp only [Bool.and_eq_true, beq_iff_eq] at hopening
    refine .inr ?_
    split_ifs at hopening with hline hblock hmark hend
    · rw [hline.1]
      decide
    · rw [hblock.1]
      decide
    · rw [hmark.1.2]
      decide
    · rw [hend.1.2]
      decide
  · split at hskip
    · next hbreak => exact .inr (separates_of_isLineBreak hbreak)
    · split at hskip
      · next hspace => exact .inr (separates_of_isSourceSpace hspace)
      · cases hskip
        exact .inl rfl

/-! ### Tokens -/

/-- Whether a numeral begins at a place, well-formed or not. -/
def Place.beginsNumeral (place : Place) : Bool :=
  match place.rest with
  | [] => false
  | c :: rest => isAsciiDigit c || c == '.' && (rest.head?.map isAsciiDigit).getD false

theorem closes_readToken {place : Place} (hplain : place.beginsNumeral = false) :
    (readToken place).2 = place ∨ place.Closes (readToken place).2 := by
  unfold Place.beginsNumeral at hplain
  unfold readToken
  split
  · exact .inl rfl
  · next c rest hrest =>
    rw [hrest] at hplain
    dsimp only at hplain ⊢
    simp only [Bool.or_eq_false_iff] at hplain
    obtain ⟨hdigit, hfraction⟩ := hplain
    have hbehind (found : Token × Place) (hc : separates c = true)
        (h : found.2 = ⟨rest, place.offset + c.utf8Size⟩ ∨
          Place.Closes ⟨rest, place.offset + c.utf8Size⟩ found.2) :
        found.2 = place ∨ place.Closes found.2 := .inr (.char_after hrest hc h)
    split
    · exact closes_readNameAs .word place
    split
    · next hnumeral => exact absurd hnumeral (Bool.eq_false_iff.mp hdigit)
    split
    · next hquote =>
      have hc : separates c = true := by
        simp only [Bool.or_eq_true, beq_iff_eq] at hquote
        obtain rfl | rfl := hquote <;> decide
      exact hbehind _ hc (closes_readString hc _)
    split
    · next haccent =>
      obtain rfl : c = '`' := by simpa using haccent
      exact hbehind _ (by decide) (.inr (closes_scanTemplate 0 true _ _))
    split
    · next hsharp =>
      obtain rfl : c = '#' := by simpa using hsharp
      exact hbehind _ (by decide) (closes_readNameAs _ _)
    split
    · next hnumeral => exact absurd hnumeral (Bool.eq_false_iff.mp hfraction)
    · exact closes_readPunctuator (List.subset_append_left _ _) place

/-! ### Markup -/

theorem closes_scanMarkupName (offset : Nat) (text : List Char) :
    Place.Closes ⟨text, offset⟩ (scanMarkupName offset text) := by
  refine .ahead (reaches_scanMarkupName offset text) ?_
  induction text generalizing offset with
  | nil => exact endsName_nil
  | cons c text ih =>
    unfold scanMarkupName
    split
    · exact ih _
    · next hc =>
      simp only [Bool.or_eq_true, not_or, Bool.not_eq_true] at hc
      exact endsName_cons hc.1 text

/-- A name in markup goes on behind a word with a hyphen. -/
theorem head_of_leads_scanMarkupName {place : Place} {body : List Char}
    (hleads : place.Leads body (scanMarkupName place.offset place.rest)) (hends : EndsName place.rest) :
    ∀ c ∈ body.head?, c = '-' := by
  obtain ⟨rest, offset⟩ := place
  rcases body with _ | ⟨c, body⟩
  · exact nofun
  intro d hd
  obtain rfl := Option.some.inj hd
  obtain ⟨more, rfl⟩ : ∃ more, rest = c :: more := ⟨_, hleads.rest⟩
  by_contra hhyphen
  have hpart : isIdentifierPart c = false := hends c rfl
  have hoffset := hleads.offset
  rw [scanMarkupName, if_neg (by simp [hpart, hhyphen]), width_cons] at hoffset
  dsimp only at hoffset
  have := c.utf8Size_pos
  omega

/-- A word in markup may go on behind hyphens. -/
theorem Token.Spells.hyphened {name : String} {escaped : Bool} {place : Place} {body more : List Char}
    (h : Token.Spells (body ++ place.rest) body (.word name escaped))
    (hmore : place.Leads more (scanMarkupName place.offset place.rest)) :
    Token.Spells (body ++ place.rest) (body ++ more) (.word name escaped) := by
  obtain ⟨hname, hwhole, hplain⟩ := h
  refine ⟨hname, hwhole, fun hescaped => ?_⟩
  obtain ⟨tail, rfl, htail⟩ := hplain hescaped
  refine ⟨tail ++ more, List.append_assoc .., ?_⟩
  rcases tail with _ | ⟨c, tail⟩
  · exact head_of_leads_scanMarkupName hmore (hwhole _ (by rw [List.append_nil]))
  · exact htail

theorem closes_scanMarkupString {quote : Char} (hquote : separates quote = true) {offset : Nat}
    {text : List Char} {next : Place} (hscan : scanMarkupString quote offset text = some next) :
    Place.Closes ⟨text, offset⟩ next := by
  induction text generalizing offset with
  | nil => cases hscan
  | cons c text ih =>
    unfold scanMarkupString at hscan
    split at hscan
    · next hc =>
      cases hscan
      obtain rfl : c = quote := by simpa using hc
      exact .char rfl hquote
    · exact (ih hscan).of_cons

theorem closes_scanMarkupText {offset : Nat} {text : List Char} {next : Place}
    (hscan : scanMarkupText offset text = some next) : Place.Closes ⟨text, offset⟩ next := by
  refine .ahead (reaches_scanMarkupText hscan) ?_
  induction text generalizing offset with
  | nil =>
    cases hscan
    exact endsName_nil
  | cons c text ih =>
    unfold scanMarkupText at hscan
    split at hscan
    · next hc =>
      cases hscan
      simp only [Bool.or_eq_true, beq_iff_eq] at hc
      obtain rfl | rfl := hc
      · exact endsName_cons (by decide) text
      · exact endsName_cons (by decide) text
    · split at hscan
      · cases hscan
      · exact ih hscan

theorem closes_childToken (place : Place) :
    (childToken place).2 = place ∨ place.Closes (childToken place).2 := by
  unfold childToken
  split
  · exact .inl rfl
  · next rest hrest => exact .inr (.char hrest (by decide))
  · next rest hrest => exact .inr (.char hrest (by decide))
  · split
    · next hscan => exact .inr (closes_scanMarkupText hscan)
    · exact .inl rfl

/-! ### Places in a text -/

/-- Whether no word goes on from what stands before a place of a text, unless that is a numeral. -/
inductive Place.Apart (source : List Char) : Place → Prop
  | start : Apart source ⟨source, 0⟩
  | closed {place next : Place} (h : place.In source) (hcloses : place.Closes next) :
      Apart source next
  | numeral {place : Place} (h : Apart source place) (hbegins : place.beginsNumeral = true) :
      Apart source (readToken place).2

/-- Whether a numeral, well-formed or not, is read up to an offset of a text. -/
def EndsNumeral (source : List Char) (offset : Nat) : Prop :=
  ∃ place : Place, place.Apart source ∧ place.beginsNumeral = true ∧
    (readToken place).2.offset = offset

namespace Place.Apart

variable {source : List Char} {place behind : Place}

theorem isIn (h : place.Apart source) : place.In source := by
  induction h with
  | start => exact .refl _
  | closed h hcloses => exact h.trans hcloses.reaches
  | numeral h hbegins ih => exact ih.trans (lexes_readToken _).reaches

/-- What ends where no word goes on, or ends nowhere. -/
theorem next (h : place.Apart source) (hcloses : behind = place ∨ place.Closes behind) :
    behind.Apart source := by
  rcases hcloses with rfl | hcloses
  · exact h
  · exact .closed h.isIn hcloses

theorem readToken (h : place.Apart source) : (readToken place).2.Apart source := by
  cases hbegins : place.beginsNumeral with
  | true => exact .numeral h hbegins
  | false => exact h.next (closes_readToken hbegins)

theorem skipGap (h : place.Apart source) {markers newline : Bool} {gap : Gap}
    (hskip : skipGap markers .open 0 newline place.offset place.rest = some gap) :
    gap.next.Apart source :=
  h.next ((closes_skipGap hskip).2.1 rfl rfl)

theorem valueToken (h : place.Apart source) : (valueToken place).2.Apart source := by
  unfold Syntax.valueToken
  split
  · next c rest hrest =>
    split
    · next hquote =>
      have hc : separates c = true ∧ c.utf8Size = 1 := by
        simp only [Bool.or_eq_true, beq_iff_eq] at hquote
        obtain rfl | rfl := hquote
        · exact ⟨by decide, rfl⟩
        · exact ⟨by decide, rfl⟩
      split
      · next hscan =>
        rw [← hc.2] at hscan
        exact h.next (.inr (.char_after hrest hc.1 (.inr (closes_scanMarkupString hc.1 hscan))))
      · exact h
    · exact h.readToken
  · exact h

/-- What stands beside such a place: before it a character that belongs to no word, or behind it what no
name begins with, or a numeral ends there. -/
theorem cases (h : place.Apart source) :
    (∀ c ∈ (takeBytes place.offset source).getLast?, separates c = true) ∨ EndsName place.rest ∨
      EndsNumeral source place.offset := by
  cases h with
  | start =>
    refine .inl ?_
    rw [show takeBytes 0 source = [] from takeBytes_width [] source]
    exact nofun
  | closed hin hcloses =>
    cases hcloses with
    | ahead hreaches hends => exact .inr (.inl hends)
    | @behind body c hleads hc =>
      obtain ⟨before, hbefore⟩ := hin
      have hwhole := hbefore.append hleads
      have hrest : source = (before ++ (body ++ [c])) ++ place.rest := hwhole.rest
      have hoffset : place.offset = width (before ++ (body ++ [c])) := by
        rw [hwhole.offset, Nat.zero_add]
      refine .inl fun d hd => ?_
      rw [hoffset, hrest, takeBytes_width, ← List.append_assoc, List.getLast?_concat] at hd
      obtain rfl := Option.some.inj hd
      exact hc
  | numeral h hbegins => exact .inr (.inr ⟨_, h, hbegins, rfl⟩)

end Place.Apart

/-! ### Words in a text -/

/-- Whether a name that a word token spells may stand at an offset of a text. If it is written there
without escapes, it stands there as a whole, and nothing before it belongs to it. -/
def NamedAt (source : List Char) (offset : Nat) (name : List Char) : Prop :=
  ∃ place : Place, place.Apart source ∧ place.offset = offset ∧ StandsWhole name place.rest

/-- Whether a keyword stands at an offset of a text as a word, unless a numeral stands before it. -/
def KeywordAt (source : List Char) (offset : Nat) (word : List Char) : Prop :=
  ∃ place : Place, place.Apart source ∧ place.offset = offset ∧
    ∃ after, place.rest = word ++ after ∧ endsWord after = true

theorem KeywordAt.prefix_dropBytes {source word : List Char} {offset : Nat}
    (h : KeywordAt source offset word) : word <+: dropBytes offset source := by
  obtain ⟨place, hplace, rfl, after, hafter, -⟩ := h
  rw [hplace.isIn.dropBytes, hafter]
  exact List.prefix_append _ _

theorem separates_headMark : ∀ mark ∈ punctuators, ∃ c tail, mark.toList = c :: tail ∧
    separates c = true := by
  have hall : ∀ mark ∈ punctuators, (mark.toList.head?.map separates).getD false = true := by
    decide
  intro mark hmark
  have hhead := hall mark hmark
  cases hlist : mark.toList with
  | nil => simp [hlist] at hhead
  | cons c tail => exact ⟨c, tail, rfl, by simpa [hlist] using hhead⟩

/-- What begins a token other than an invalid one belongs to no word, if it goes on with no name. -/
theorem separates_of_readToken {c : Char} {rest : List Char} {offset : Nat}
    (hpart : isIdentifierPart c = false)
    (hvalid : (readToken ⟨c :: rest, offset⟩).1 ≠ .invalid) : separates c = true := by
  have hascii {d : Char} (hd : c = d) (hseparates : separates d = true) : separates c = true :=
    hd ▸ hseparates
  unfold readToken at hvalid
  dsimp only at hvalid
  split at hvalid
  · next hname =>
    simp only [Bool.or_eq_true, beq_iff_eq] at hname
    rcases hname with hstart | hslash
    · rw [isIdentifierPart_of_isIdentifierStart hstart] at hpart
      cases hpart
    · exact hascii hslash (by decide)
  split at hvalid
  · next hdigit =>
    rw [isIdentifierPart_of_isPlainPart (by simp [isPlainPart, hdigit])] at hpart
    cases hpart
  split at hvalid
  · next hquote =>
    simp only [Bool.or_eq_true, beq_iff_eq] at hquote
    rcases hquote with hquote | hquote
    · exact hascii hquote (by decide)
    · exact hascii hquote (by decide)
  split at hvalid
  · next haccent => exact hascii (beq_iff_eq.mp haccent) (by decide)
  split at hvalid
  · next hsharp => exact hascii (beq_iff_eq.mp hsharp) (by decide)
  split at hvalid
  · next hfraction =>
    simp only [Bool.and_eq_true, beq_iff_eq] at hfraction
    exact hascii hfraction.1 (by decide)
  · unfold readPunctuator at hvalid
    split at hvalid
    · next mark behind hfound =>
      obtain ⟨found, hmem, hstands⟩ := List.exists_of_findSome?_eq_some hfound
      obtain ⟨text, htext, -⟩ := Option.map_eq_some_iff.mp hstands
      obtain ⟨d, tail, hmark, hd⟩ := separates_headMark found hmem
      have hrest : c :: rest = found.toList ++ text := (standsAt_eq_some.mp htext).1
      rw [hmark, List.cons_append] at hrest
      exact hascii (List.cons.inj hrest).1 hd
    · exact absurd rfl hvalid

/-- Behind a whole word no word goes on, if a token other than an invalid one follows. -/
theorem endsWord_of_readLexeme {markers newline : Bool} {place : Place} (hends : EndsName place.rest)
    (hvalid : (readLexeme markers newline place).token ≠ .invalid) : endsWord place.rest = true := by
  obtain ⟨rest, offset⟩ := place
  dsimp only at hends ⊢
  rcases rest with _ | ⟨c, rest⟩
  · rfl
  suffices hc : separates c = true by
    simp only [separates, Bool.and_eq_true] at hc
    exact hc.2
  unfold readLexeme at hvalid
  dsimp only at hvalid
  split at hvalid
  · next gap hgap =>
    rcases separates_of_skipGap hgap with hhere | hc
    · rw [hhere] at hvalid
      exact separates_of_readToken (hends c rfl) hvalid
    · exact hc
  · exact absurd rfl hvalid

/-! ### Lexemes -/

/-- Another token in the place of one, which ends at another place. -/
def Lexeme.retold (lexeme : Lexeme) (token : Token) (next : Place) : Lexeme :=
  { lexeme with token, span := ⟨lexeme.span.start, next.offset⟩, next }

/-- Whether a token stands in a text where it says, and no word goes on across where it begins and
ends, unless at the end of a numeral. -/
def Lexeme.Stands (source : List Char) (lexeme : Lexeme) : Prop :=
  ∃ place : Place, place.Apart source ∧ lexeme.span = ⟨place.offset, lexeme.next.offset⟩ ∧
    Lexes place (lexeme.token, lexeme.next) ∧ lexeme.next.Apart source

namespace Lexeme.Stands

variable {source : List Char} {lexeme : Lexeme}

theorem start (h : lexeme.Stands source) : isBoundary source lexeme.span.start = true := by
  obtain ⟨place, hplace, hspan, -⟩ := h
  rw [hspan]
  exact hplace.isIn.isBoundary

theorem next (h : lexeme.Stands source) : lexeme.next.Apart source := by
  obtain ⟨place, -, -, -, hnext⟩ := h
  exact hnext

theorem stop_eq (h : lexeme.Stands source) : lexeme.span.stop = lexeme.next.offset := by
  obtain ⟨place, -, hspan, -⟩ := h
  rw [hspan]

theorem stop (h : lexeme.Stands source) : isBoundary source lexeme.span.stop = true :=
  h.stop_eq ▸ h.next.isIn.isBoundary

theorem start_le_stop (h : lexeme.Stands source) : lexeme.span.start ≤ lexeme.span.stop := by
  obtain ⟨place, -, hspan, hlexes, -⟩ := h
  rw [hspan]
  exact hlexes.reaches.offset_le

/-- A word is an identifier. -/
theorem isIdentifier {name : String} {escaped : Bool} (h : lexeme.Stands source)
    (htoken : lexeme.token = .word name escaped) : Syntax.isIdentifier name.toList = true := by
  obtain ⟨place, -, -, ⟨body, -, hspells⟩, -⟩ := h
  rw [htoken] at hspells
  exact hspells.1

theorem namedAt {name : String} {escaped : Bool} (h : lexeme.Stands source)
    (htoken : lexeme.token = .word name escaped) :
    NamedAt source lexeme.span.start name.toList := by
  obtain ⟨place, hplace, hspan, ⟨body, -, hspells⟩, -⟩ := h
  rw [htoken] at hspells
  rw [hspan]
  exact ⟨place, hplace, rfl, hspells.2.1⟩

/-- A word without escapes is a word of the text, if a token other than an invalid one follows. -/
theorem keywordAt {name : String} {markers newline : Bool} (h : lexeme.Stands source)
    (htoken : lexeme.token = .word name false)
    (hvalid : (readLexeme markers newline lexeme.next).token ≠ .invalid) :
    KeywordAt source lexeme.span.start name.toList := by
  obtain ⟨place, hplace, hspan, ⟨body, hbody, hspells⟩, -⟩ := h
  rw [htoken] at hspells
  obtain ⟨-, hwhole, hplain⟩ := hspells
  obtain ⟨tail, rfl, htail⟩ := hplain rfl
  have hrest := hbody.rest
  rw [List.append_assoc] at hrest
  rw [hspan]
  refine ⟨place, hplace, rfl, tail ++ lexeme.next.rest, hrest, ?_⟩
  rcases tail with _ | ⟨c, tail⟩
  · exact endsWord_of_readLexeme (hwhole _ hrest) hvalid
  · obtain rfl : c = '-' := htail c rfl
    have hhyphen : isWordCharacter '-' = false := by decide
    simp [endsWord, hhyphen]

/-- Where a punctuator stands, its characters do. -/
theorem punctuator {mark : String} (h : lexeme.Stands source)
    (htoken : lexeme.token = .punctuator mark) :
    Place.Apart source ⟨mark.toList ++ lexeme.next.rest, lexeme.span.start⟩ := by
  obtain ⟨place, hplace, hspan, ⟨body, hbody, hspells⟩, -⟩ := h
  rw [htoken] at hspells
  obtain rfl : body = mark.toList := hspells
  rwa [hspan, ← hbody.rest]

/-- A token that goes on behind one that stands in the text. -/
theorem extended {token : Token} {next : Place} (h : lexeme.Stands source)
    (hcloses : next = lexeme.next ∨ lexeme.next.Closes next)
    (hspells : ∀ body more, lexeme.next.Leads more next →
      lexeme.token.Spells (body ++ lexeme.next.rest) body →
      token.Spells (body ++ lexeme.next.rest) (body ++ more)) :
    (lexeme.retold token next).Stands source := by
  obtain ⟨place, hplace, hspan, ⟨body, hbody, htoken⟩, hnext⟩ := h
  have hbehind := hnext.next hcloses
  obtain ⟨more, hmore⟩ : lexeme.next.Reaches next := by
    rcases hcloses with rfl | hcloses
    · exact .refl _
    · exact hcloses.reaches
  have hrest := hbody.rest
  rw [hrest] at htoken
  refine ⟨place, hplace, ?_, ⟨body ++ more, hbody.append hmore, ?_⟩, hbehind⟩
  · rw [Lexeme.retold, hspan]
  · rw [hrest]
    exact hspells body more hmore htoken

/-- A token that is read again where a punctuator stands. -/
theorem reread {mark : String} {found : Token × Place} (h : lexeme.Stands source)
    (htoken : lexeme.token = .punctuator mark)
    (hfound : Lexes ⟨mark.toList ++ lexeme.next.rest, lexeme.span.start⟩ found)
    (hcloses : found.2 = ⟨mark.toList ++ lexeme.next.rest, lexeme.span.start⟩ ∨
      Place.Closes ⟨mark.toList ++ lexeme.next.rest, lexeme.span.start⟩ found.2) :
    (lexeme.retold found.1 found.2).Stands source :=
  ⟨_, h.punctuator htoken, rfl, hfound, (h.punctuator htoken).next hcloses⟩

end Lexeme.Stands

/-- The token behind a place of a text, after any gap, stands in the text. -/
theorem stands_readLexeme {source : List Char} (markers newline : Bool) {place : Place}
    (hplace : place.Apart source) : (readLexeme markers newline place).Stands source := by
  unfold readLexeme
  split
  · next gap hgap =>
    have hbehind := hplace.skipGap hgap
    exact ⟨gap.next, hbehind, rfl, lexes_readToken gap.next, hbehind.readToken⟩
  · exact ⟨place, hplace, rfl, (lexesFree_here rfl place).lexes, hplace⟩

theorem le_start_readLexeme (markers newline : Bool) (place : Place) :
    place.offset ≤ (readLexeme markers newline place).span.start := by
  unfold readLexeme
  split
  · next gap hgap => exact (reaches_skipGap hgap).offset_le
  · exact Nat.le_refl _

/-- Whether a word is the first token behind an offset of a text. `markers` says whether comments may be
marked as in scripts. -/
def Lexeme.IsNext (source : List Char) (markers : Bool) (offset : Nat) (lexeme : Lexeme) : Prop :=
  ∀ name escaped, lexeme.token = .word name escaped →
    ∃ (place : Place) (marked newline : Bool), place.Apart source ∧ place.offset = offset ∧
      (marked = true → markers = true) ∧ lexeme = readLexeme marked newline place

/-- Another token than a word. -/
theorem Lexeme.isNext_of_ne_word {source : List Char} {markers : Bool} {offset : Nat} {lexeme : Lexeme}
    (hother : ∀ name escaped, lexeme.token ≠ .word name escaped) :
    lexeme.IsNext source markers offset :=
  fun name escaped htoken => absurd htoken (hother name escaped)

theorem Lexeme.isNext_readLexeme {source : List Char} {markers marked : Bool} {place : Place}
    (hplace : place.Apart source) (hmarked : marked = true → markers = true) (newline : Bool) :
    (readLexeme marked newline place).IsNext source markers place.offset :=
  fun _ _ _ => ⟨place, marked, newline, hplace, rfl, hmarked, rfl⟩

end ModuleLinkage.Syntax
