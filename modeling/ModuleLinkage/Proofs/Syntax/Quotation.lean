import ModuleLinkage.Syntax.Lexer.Quotation

/-!
# Quoted text and what stands behind it

A string, a piece of a template and a regular expression end with a mark of their own, so what stands
behind them makes no difference to how they are read (`scanString_append`, `scanTemplate_append`,
`readRegex_append`), except that a name may not follow a regular expression at once. The escapes
inside are read with some characters in advance, but never beyond the mark that closes the text
(`readEscape_append`).
-/

set_option autoImplicit false

namespace ModuleLinkage.Syntax

open Unicode

/-! ### Escapes -/

/-- Whether a character ends every escape: those that close quoted text. -/
def isCloser (c : Char) : Bool :=
  c == '"' || c == '\'' || c == '`' || c == '$'

theorem isCloser_iff {c : Char} :
    isCloser c = true ↔ c = '"' ∨ c = '\'' ∨ c = '`' ∨ c = '$' := by
  simp [isCloser, or_assoc]

theorem hexValue?_of_isCloser {c : Char} (hc : isCloser c = true) : hexValue? c = none := by
  rcases isCloser_iff.mp hc with rfl | rfl | rfl | rfl <;> decide

theorem hexNumber?_eq_none {digits : List Char} {c : Char} (hmem : c ∈ digits)
    (hc : hexValue? c = none) : hexNumber? digits = none := by
  have hnone (more : List Char) : more.foldl
      (fun value digit => do return (← value) * 16 + (← hexValue? digit)) none = none := by
    induction more with
    | nil => rfl
    | cons digit more ih => exact ih
  obtain ⟨before, after, rfl⟩ := List.append_of_mem hmem
  unfold hexNumber?
  rw [List.foldl_append, List.foldl_cons, hc]
  cases before.foldl (fun value digit => do return (← value) * 16 + (← hexValue? digit)) (some 0) <;>
    exact hnone after

theorem bracedCode?_append {c : Char} (hc : isCloser c = true) (text rest rest' : List Char)
    (value used : Nat) :
    bracedCode? value used (text ++ c :: rest) = bracedCode? value used (text ++ c :: rest') := by
  induction text generalizing value used with
  | nil =>
    have hhex := hexValue?_of_isCloser hc
    rcases isCloser_iff.mp hc with rfl | rfl | rfl | rfl <;> simp [bracedCode?, hhex]
  | cons d text ih =>
    by_cases hd : d = '\x7d'
    · subst hd
      simp [bracedCode?]
    · simp [bracedCode?, ih]

/-- The number that the first four characters of a text denote in base 16. -/
def fourDigits? (text : List Char) : Option Nat :=
  if 4 ≤ text.length then hexNumber? (text.take 4) else none

/-- Four characters that are not all ahead of a closing one include it. -/
theorem fourDigits?_eq_none {c : Char} (hc : isCloser c = true) {text : List Char}
    (hlength : text.length < 4) (rest : List Char) : fourDigits? (text ++ c :: rest) = none := by
  unfold fourDigits?
  split
  · refine hexNumber?_eq_none (List.mem_take_iff_getElem.mpr ⟨text.length, ?_, ?_⟩)
      (hexValue?_of_isCloser hc)
    · rw [List.length_append, List.length_cons]
      omega
    · simp
  · rfl

theorem fourDigits?_append {c : Char} (hc : isCloser c = true) (text rest rest' : List Char) :
    fourDigits? (text ++ c :: rest) = fourDigits? (text ++ c :: rest') := by
  by_cases hlength : 4 ≤ text.length
  · have htake (more : List Char) : fourDigits? (text ++ more) = hexNumber? (text.take 4) := by
      rw [fourDigits?, if_pos (by rw [List.length_append]; omega),
        List.take_append_of_le_length hlength]
    rw [htake, htake]
  · rw [fourDigits?_eq_none hc (by omega), fourDigits?_eq_none hc (by omega)]

theorem unicodeCode?_eq {text : List Char} (hhead : text.head? ≠ some '\x7b') :
    unicodeCode? text = (fourDigits? text).map fun code => (code, 4) := by
  rcases text with _ | ⟨a, _ | ⟨b, _ | ⟨c, _ | ⟨d, text⟩⟩⟩⟩ <;>
    simp_all [unicodeCode?, fourDigits?]

/-- A text that goes up to a closing character begins with a brace or does not, whatever follows. -/
theorem head_append {c : Char} (hc : isCloser c = true) (text : List Char) :
    (∃ inside, text = '\x7b' :: inside) ∨
      ∀ rest, (text ++ c :: rest).head? ≠ some '\x7b' := by
  rcases text with _ | ⟨d, inside⟩
  · right
    rintro rest hhead
    cases hhead
    cases hc
  · by_cases hd : d = '\x7b'
    · exact .inl ⟨inside, by rw [hd]⟩
    · exact .inr fun rest hhead => hd (Option.some.inj hhead)

/-- What a high surrogate denotes with what stands behind it. -/
theorem fourDigitEscape_cons (code : Nat) (text : List Char)
    (hcode : 0xd800 ≤ code ∧ code < 0xdc00) :
    fourDigitEscape code ('\\' :: 'u' :: text) = (fourDigits? text).map fun low =>
      if 0xdc00 ≤ low && low < 0xe000 then (.char (joinSurrogates code low), 10)
      else (.surrogate code, 4) := by
  have htest : (0xd800 ≤ code && code < 0xdc00) = true := by simpa using hcode
  unfold fourDigitEscape
  rw [if_pos htest]
  rcases text with _ | ⟨a, _ | ⟨b, _ | ⟨c, _ | ⟨d, text⟩⟩⟩⟩ <;> simp [fourDigits?]

theorem fourDigitEscape_append {c : Char} (hc : isCloser c = true) (code : Nat)
    (text rest rest' : List Char) :
    fourDigitEscape code (text ++ c :: rest) = fourDigitEscape code (text ++ c :: rest') := by
  by_cases hcode : 0xd800 ≤ code ∧ code < 0xdc00
  · by_cases hmark : ∃ behind, text = '\\' :: 'u' :: behind
    · obtain ⟨behind, rfl⟩ := hmark
      simp only [List.cons_append]
      rw [fourDigitEscape_cons _ _ hcode, fourDigitEscape_cons _ _ hcode,
        fourDigits?_append hc behind rest rest']
    · have halone (more : List Char) :
          fourDigitEscape code (text ++ c :: more) = some (.surrogate code, 4) := by
        have htest : (0xd800 ≤ code && code < 0xdc00) = true := by simpa using hcode
        unfold fourDigitEscape
        rw [if_pos htest]
        have hnot {behind : List Char} (h : text ++ c :: more = '\\' :: 'u' :: behind) : False := by
          rcases text with _ | ⟨d, _ | ⟨e, inside⟩⟩
          · cases h
            cases hc
          · cases h
            cases hc
          · cases h
            exact hmark ⟨inside, rfl⟩
        split
        · next heq => exact (hnot heq).elim
        · next heq => exact (hnot heq).elim
        · rfl
      rw [halone, halone]
  · have htest : (0xd800 ≤ code && code < 0xdc00) = false := by simpa using hcode
    unfold fourDigitEscape
    rw [htest]
    rfl

theorem unicodeEscape_append {c : Char} (hc : isCloser c = true) (text rest rest' : List Char) :
    unicodeEscape (text ++ c :: rest) = unicodeEscape (text ++ c :: rest') := by
  have hdigits {more : List Char} (hhead : more.head? ≠ some '\x7b') : unicodeEscape more =
      (fourDigits? more).bind fun code => fourDigitEscape code (more.drop 4) := by
    rcases more with _ | ⟨a, _ | ⟨b, _ | ⟨c, _ | ⟨d, text⟩⟩⟩⟩ <;>
      simp_all [unicodeEscape, fourDigits?]
  rcases head_append hc text with ⟨inside, rfl⟩ | hhead
  · rw [List.cons_append, List.cons_append, unicodeEscape, unicodeEscape,
      bracedCode?_append hc inside rest rest']
  · rw [hdigits (hhead _), hdigits (hhead _), fourDigits?_append hc text rest rest']
    by_cases hlength : 4 ≤ text.length
    · rw [List.drop_append_of_le_length hlength, List.drop_append_of_le_length hlength]
      congr 1
      funext code
      exact fourDigitEscape_append hc code _ rest rest'
    · rw [fourDigits?_eq_none hc (by omega)]
      rfl

theorem octalEscape_append {c : Char} (hc : isCloser c = true) (first : Char)
    (text rest rest' : List Char) :
    octalEscape first (text ++ c :: rest) = octalEscape first (text ++ c :: rest') := by
  have hdigit : ('0' ≤ c && c ≤ '7') = false := by
    rcases isCloser_iff.mp hc with rfl | rfl | rfl | rfl <;> decide
  rcases text with _ | ⟨d, _ | ⟨e, text⟩⟩
  · simp only [octalEscape, List.nil_append, hdigit]
    rfl
  · simp only [octalEscape, List.nil_append, List.cons_append, hdigit]
  · rfl

theorem hexEscape_append {c : Char} (hc : isCloser c = true) (text rest rest' : List Char) :
    readEscape ('x' :: (text ++ c :: rest)) = readEscape ('x' :: (text ++ c :: rest')) := by
  have hhex := hexValue?_of_isCloser hc
  rcases text with _ | ⟨d, _ | ⟨e, text⟩⟩
  · have hnone (more : List Char) : readEscape ('x' :: c :: more) = none := by
      cases more with
      | nil => rfl
      | cons d more =>
        rw [readEscape, hexNumber?_eq_none List.mem_cons_self hhex]
        rfl
    exact (hnone rest).trans (hnone rest').symm
  · have hnone (more : List Char) : readEscape ('x' :: d :: c :: more) = none := by
      rw [readEscape, hexNumber?_eq_none (List.mem_cons_of_mem d List.mem_cons_self) hhex]
      rfl
    exact (hnone rest).trans (hnone rest').symm
  · rfl

/-- What an escape denotes does not depend on what stands behind the quoted text. -/
theorem readEscape_append {c : Char} (hc : isCloser c = true) (text rest rest' : List Char) :
    readEscape (text ++ c :: rest) = readEscape (text ++ c :: rest') := by
  rcases text with _ | ⟨d, text⟩
  · rcases isCloser_iff.mp hc with rfl | rfl | rfl | rfl <;> rfl
  · rw [List.cons_append, List.cons_append]
    by_cases hu : d = 'u'
    · subst hu
      rw [readEscape, readEscape, unicodeEscape_append hc text rest rest']
    by_cases hx : d = 'x'
    · rw [hx, hexEscape_append hc text rest rest']
    by_cases hr : d = '\r'
    · subst hr
      rcases text with _ | ⟨e, text⟩
      · rcases isCloser_iff.mp hc with rfl | rfl | rfl | rfl <;> rfl
      · have hbreak (more : List Char) : readEscape ('\r' :: e :: more) =
            if e = '\n' then some (.nothing, 2) else some (.nothing, 1) := by
          by_cases he : e = '\n'
          · rw [if_pos he, he, readEscape]
          · rw [if_neg he]
            unfold readEscape
            split <;> simp_all
            next heq =>
              obtain ⟨rfl, rfl⟩ := heq
              exact fun h => absurd h (by decide)
        exact (hbreak _).trans (hbreak _).symm
    · unfold readEscape
      split <;> simp_all
      next heq =>
        obtain ⟨rfl, rfl⟩ := heq
        rw [octalEscape_append hc d text rest rest']

theorem isLegacyEscape_append {c : Char} (hc : isCloser c = true) (text rest rest' : List Char) :
    isLegacyEscape (text ++ c :: rest) = isLegacyEscape (text ++ c :: rest') := by
  rcases text with _ | ⟨d, text⟩
  · rcases isCloser_iff.mp hc with rfl | rfl | rfl | rfl <;> rfl
  · by_cases hd : d = '0'
    · subst hd
      cases text <;> rfl
    · simp [isLegacyEscape, hd]

/-! ### Strings -/

variable {rest rest' : List Char}

/-- A string takes the characters that belong to an escape and its quote. -/
theorem length_of_scanString {quote : Char} {skip offset : Nat} {units read : List Unit16}
    {text : List Char} {next : Place}
    (hscan : scanString quote skip units offset text = some (read, next)) :
    next.rest.length + skip < text.length := by
  induction text generalizing skip units offset with
  | nil => cases hscan
  | cons c text ih =>
    unfold scanString at hscan
    rw [List.length_cons]
    split at hscan
    · have := ih hscan
      omega
    · split at hscan
      · cases hscan
        exact Nat.lt_succ_self _
      · split at hscan
        · cases hscan
        · split at hscan
          · split at hscan
            case h_4 => cases hscan
            all_goals
              have := ih hscan
              omega
          · have := ih hscan
            omega

/-- A string ends with its quote. -/
theorem exists_eq_append_quote {quote : Char} {skip offset offset' : Nat}
    {units read : List Unit16} {text : List Char}
    (hscan : scanString quote skip units offset (text ++ rest) = some (read, ⟨rest, offset'⟩)) :
    ∃ inside, text = inside ++ [quote] := by
  induction text generalizing skip units offset with
  | nil =>
    have hlength := length_of_scanString hscan
    simp only [List.nil_append] at hlength
    omega
  | cons c text ih =>
    have hcons (h : ∃ inside, text = inside ++ [quote]) :
        ∃ inside, c :: text = inside ++ [quote] := by
      obtain ⟨inside, rfl⟩ := h
      exact ⟨c :: inside, rfl⟩
    rw [List.cons_append] at hscan
    unfold scanString at hscan
    split at hscan
    · exact hcons (ih hscan)
    · split at hscan
      · next hquote =>
        have hrest := congrArg (fun found => found.2.rest) (Option.some.inj hscan)
        have htext : text = [] := by simpa using hrest
        refine ⟨[], ?_⟩
        rw [htext, List.nil_append, beq_iff_eq.mp hquote]
      · split at hscan
        · cases hscan
        · split at hscan
          · split at hscan <;> first | cases hscan | exact hcons (ih hscan)
          · exact hcons (ih hscan)

/-- What stands behind a string makes no difference to it. -/
theorem scanString_append {quote : Char} (hquote : isCloser quote = true)
    {skip offset offset' : Nat} {units read : List Unit16} {inside : List Char}
    (hscan : scanString quote skip units offset (inside ++ quote :: rest) =
      some (read, ⟨rest, offset'⟩)) :
    scanString quote skip units offset (inside ++ quote :: rest') =
      some (read, ⟨rest', offset'⟩) := by
  induction inside generalizing skip units offset with
  | nil =>
    cases skip with
    | zero =>
      simp only [List.nil_append, scanString, beq_self_eq_true, if_true] at hscan ⊢
      cases hscan
      rfl
    | succ skip =>
      have := length_of_scanString hscan
      simp at this
  | cons c inside ih =>
    rw [List.cons_append] at hscan ⊢
    unfold scanString at hscan ⊢
    rw [readEscape_append hquote inside rest rest'] at hscan
    split at hscan
    · exact ih hscan
    · split at hscan
      · have := congrArg List.length (congrArg (fun found => found.2.rest) (Option.some.inj hscan))
        simp at this
        omega
      · next hneq =>
        rw [if_neg hneq]
        split at hscan
        · cases hscan
        · next hbreak =>
          rw [if_neg hbreak]
          split at hscan
          · next hslash =>
            rw [if_pos hslash]
            split at hscan <;> first | cases hscan | exact ih hscan
          · next hslash =>
            rw [if_neg hslash]
            exact ih hscan

/-! ### Templates -/

theorem scanTemplate_dollar {text : List Char} (hhead : text.head? ≠ some '\x7b') (cooked : Bool)
    (offset : Nat) :
    scanTemplate 0 cooked offset ('$' :: text) = scanTemplate 0 cooked (offset + 1) text := by
  rcases text with _ | ⟨c, text⟩
  · rfl
  · have hc : c ≠ '\x7b' := fun h => hhead (congrArg some h)
    simp [scanTemplate, hc]
    rfl

theorem scanTemplate_other {c : Char} (hc : c ≠ '`' ∧ c ≠ '$' ∧ c ≠ '\\') (text : List Char)
    (cooked : Bool) (offset : Nat) : scanTemplate 0 cooked offset (c :: text) =
      scanTemplate 0 cooked (offset + c.utf8Size) text := by
  simp [scanTemplate, hc]

theorem scanTemplate_backslash {text : List Char} (htext : text ≠ []) (cooked : Bool)
    (offset : Nat) : scanTemplate 0 cooked offset ('\\' :: text) =
      match readEscape text with
      | some (_, used) => scanTemplate used (cooked && !isLegacyEscape text) (offset + 1) text
      | none => scanTemplate 1 false (offset + 1) text := by
  have hone : min 1 text.length = 1 := by
    have := List.length_pos_iff.mpr htext
    omega
  rw [scanTemplate]
  rcases readEscape text with _ | ⟨escaped, used⟩
  · exact congrArg (fun skip => scanTemplate skip false (offset + 1) text) hone
  · rfl

/-- A piece of a template takes the characters that belong to an escape and at least one more. -/
theorem length_of_scanTemplate {skip offset : Nat} {cooked : Bool} {text : List Char}
    {token : Token} {next : Place} (hscan : scanTemplate skip cooked offset text = (token, next))
    (hvalid : token ≠ .invalid) : next.rest.length + skip < text.length := by
  induction text generalizing skip cooked offset with
  | nil =>
    cases hscan
    exact absurd rfl hvalid
  | cons c text ih =>
    unfold scanTemplate at hscan
    rw [List.length_cons]
    split at hscan
    · have := ih hscan
      omega
    · split at hscan
      · cases hscan
        exact Nat.lt_succ_self _
      · cases hscan
        simp only [List.length_cons]
        omega
      · split at hscan <;> have := ih hscan <;> omega
      · have := ih hscan
        omega

/-- The marks that end a piece of a template. -/
def IsTemplateEnd (mark : List Char) : Prop :=
  mark = ['`'] ∨ mark = ['$', '\x7b']

theorem exists_eq_append_templateEnd {skip offset offset' : Nat} {cooked : Bool}
    {text : List Char} {token : Token}
    (hscan : scanTemplate skip cooked offset (text ++ rest) = (token, ⟨rest, offset'⟩))
    (hvalid : token ≠ .invalid) : ∃ inside mark, IsTemplateEnd mark ∧ text = inside ++ mark := by
  induction text generalizing skip cooked offset with
  | nil =>
    have hlength := length_of_scanTemplate hscan hvalid
    simp only [List.nil_append] at hlength
    omega
  | cons c text ih =>
    have hcons (h : ∃ inside mark, IsTemplateEnd mark ∧ text = inside ++ mark) :
        ∃ inside mark, IsTemplateEnd mark ∧ c :: text = inside ++ mark := by
      obtain ⟨inside, mark, hmark, rfl⟩ := h
      exact ⟨c :: inside, mark, hmark, rfl⟩
    rw [List.cons_append] at hscan
    unfold scanTemplate at hscan
    split at hscan
    · exact hcons (ih hscan)
    · split at hscan
      · have hrest := congrArg (fun found => found.2.rest) hscan
        have htext : text = [] := by simpa using hrest
        exact ⟨[], ['`'], .inl rfl, by rw [htext]; rfl⟩
      · next after hafter =>
        have hrest : after = rest := congrArg (fun found => found.2.rest) hscan
        obtain rfl : text = ['\x7b'] := by
          rw [hrest] at hafter
          exact List.append_cancel_right (by simpa using hafter)
        exact ⟨[], ['$', '\x7b'], .inr rfl, rfl⟩
      · split at hscan
        · exact hcons (ih hscan)
        · exact hcons (ih hscan)
      · exact hcons (ih hscan)

/-- What stands behind a piece of a template makes no difference to it. -/
theorem scanTemplate_append {skip offset offset' : Nat} {cooked : Bool} {inside mark : List Char}
    {token : Token} (hmark : IsTemplateEnd mark) (hvalid : token ≠ .invalid)
    (hscan : scanTemplate skip cooked offset (inside ++ (mark ++ rest)) = (token, ⟨rest, offset'⟩)) :
    scanTemplate skip cooked offset (inside ++ (mark ++ rest')) = (token, ⟨rest', offset'⟩) := by
  obtain ⟨z, more, hz, rfl, hmore⟩ : ∃ z more, isCloser z = true ∧ mark = z :: more ∧
      z ≠ '\x7b' := by
    rcases hmark with rfl | rfl
    · exact ⟨'`', [], rfl, rfl, by decide⟩
    · exact ⟨'$', ['\x7b'], rfl, rfl, by decide⟩
  induction inside generalizing skip cooked offset with
  | nil =>
    cases skip with
    | zero =>
      rcases hmark with hmark | hmark <;> rw [hmark] at hscan ⊢ <;> cases hscan <;> rfl
    | succ skip =>
      exfalso
      rcases hmark with hmark | hmark <;> rw [hmark] at hscan
      · have hlength := length_of_scanTemplate hscan hvalid
        simp only [List.nil_append, List.cons_append, List.length_cons] at hlength
        omega
      -- A mark of two characters is not begun by the last character of an escape.
      · have hlength := length_of_scanTemplate hscan hvalid
        simp only [List.nil_append, List.cons_append, List.length_cons] at hlength
        obtain rfl : skip = 0 := by omega
        change scanTemplate 0 cooked (offset + '$'.utf8Size) ('\x7b' :: rest) = _ at hscan
        rw [scanTemplate_other (by decide)] at hscan
        have hbehind := length_of_scanTemplate hscan hvalid
        simp only [] at hbehind
        omega
  | cons c inside ih =>
    rw [List.cons_append] at hscan ⊢
    cases skip with
    | succ skip => exact ih hscan
    | zero =>
      by_cases haccent : c = '`'
      · subst haccent
        have hrest := congrArg (fun found => found.2.rest.length) hscan
        simp [scanTemplate] at hrest
        omega
      by_cases hdollar : c = '$'
      · subst hdollar
        rcases inside with _ | ⟨d, inside⟩
        · have hhead (more' : List Char) : ([] ++ (z :: more ++ more')).head? ≠ some '\x7b' := by
            simpa using hmore
          rw [scanTemplate_dollar (hhead _)] at hscan ⊢
          exact ih hscan
        · by_cases hd : d = '\x7b'
          · subst hd
            have hrest := congrArg (fun found => found.2.rest.length) hscan
            simp [scanTemplate] at hrest
            omega
          · have hhead (more' : List Char) :
                (d :: inside ++ (z :: more ++ more')).head? ≠ some '\x7b' := by
              simpa using hd
            rw [scanTemplate_dollar (hhead _)] at hscan ⊢
            exact ih hscan
      by_cases hslash : c = '\\'
      · subst hslash
        have hescape : readEscape (inside ++ (z :: more ++ rest)) =
            readEscape (inside ++ (z :: more ++ rest')) := by
          rw [List.cons_append, List.cons_append]
          exact readEscape_append hz inside _ _
        have hlegacy : isLegacyEscape (inside ++ (z :: more ++ rest)) =
            isLegacyEscape (inside ++ (z :: more ++ rest')) := by
          rw [List.cons_append, List.cons_append]
          exact isLegacyEscape_append hz inside _ _
        rw [scanTemplate_backslash (by simp)] at hscan ⊢
        rw [hescape, hlegacy] at hscan
        split at hscan <;> exact ih hscan
      · rw [scanTemplate_other ⟨haccent, hdollar, hslash⟩] at hscan ⊢
        exact ih hscan

/-! ### Regular expressions -/

/-- Whether no name goes on across the start of a text. -/
def EndsName (text : List Char) : Prop :=
  ∀ c ∈ text.head?, isIdentifierPart c = false

theorem length_of_scanPattern {inClass skip : Bool} {offset : Nat} {text : List Char} {next : Place}
    (hscan : scanPattern inClass skip offset text = some next) :
    next.rest.length < text.length := by
  induction text generalizing inClass skip offset with
  | nil => cases hscan
  | cons c text ih =>
    have hcons {inClass skip : Bool} {offset : Nat}
        (h : scanPattern inClass skip offset text = some next) :
        next.rest.length < (c :: text).length :=
      Nat.lt_trans (ih h) (Nat.lt_succ_self _)
    unfold scanPattern at hscan
    dsimp only at hscan
    split at hscan
    · cases hscan
    · split at hscan
      · exact hcons hscan
      · split at hscan
        · exact hcons hscan
        · split at hscan
          · exact hcons hscan
          · split at hscan
            · exact hcons hscan
            · split at hscan
              · cases hscan
                exact Nat.lt_succ_self _
              · exact hcons hscan

/-- The body of a regular expression does not depend on what stands behind it. -/
theorem scanPattern_append {inClass skip : Bool} {offset : Nat} {text : List Char} {next : Place}
    (hscan : scanPattern inClass skip offset (text ++ rest) = some next)
    (hlength : rest.length ≤ next.rest.length) : ∃ behind, next.rest = behind ++ rest ∧
      scanPattern inClass skip offset (text ++ rest') = some ⟨behind ++ rest', next.offset⟩ := by
  induction text generalizing inClass skip offset with
  | nil =>
    have := length_of_scanPattern hscan
    simp only [List.nil_append] at this
    omega
  | cons c text ih =>
    rw [List.cons_append] at hscan ⊢
    unfold scanPattern at hscan ⊢
    dsimp only at hscan ⊢
    split at hscan
    · cases hscan
    · next hbreak =>
      rw [if_neg hbreak]
      split at hscan
      · next hskip =>
        rw [if_pos hskip]
        exact ih hscan
      · next hskip =>
        rw [if_neg hskip]
        split at hscan
        · next hslash =>
          rw [if_pos hslash]
          exact ih hscan
        · next hslash =>
          rw [if_neg hslash]
          split at hscan
          · next hopen =>
            rw [if_pos hopen]
            exact ih hscan
          · next hopen =>
            rw [if_neg hopen]
            split at hscan
            · next hclose =>
              rw [if_pos hclose]
              exact ih hscan
            · next hclose =>
              rw [if_neg hclose]
              split at hscan
              · next hend =>
                rw [if_pos hend]
                cases hscan
                exact ⟨text, rfl, rfl⟩
              · next hend =>
                rw [if_neg hend]
                exact ih hscan

theorem length_of_scanFlags {seen : List Char} {offset : Nat} {text : List Char} {next : Place}
    (hscan : scanFlags seen offset text = some next) : next.rest.length ≤ text.length := by
  induction text generalizing seen offset with
  | nil =>
    cases hscan
    exact Nat.le_refl _
  | cons c text ih =>
    unfold scanFlags at hscan
    split at hscan
    · split at hscan
      · exact Nat.le_trans (ih hscan) (Nat.le_succ _)
      · cases hscan
    · cases hscan
      exact Nat.le_refl _

theorem endsName_of_scanFlags {seen : List Char} {offset : Nat} {text : List Char} {next : Place}
    (hscan : scanFlags seen offset text = some next) : EndsName next.rest := by
  induction text generalizing seen offset with
  | nil =>
    cases hscan
    rintro c ⟨⟩
  | cons c text ih =>
    unfold scanFlags at hscan
    split at hscan
    · split at hscan
      · exact ih hscan
      · cases hscan
    · next hpart =>
      cases hscan
      rintro d ⟨⟩
      simpa using hpart

theorem scanFlags_append {seen : List Char} {offset offset' : Nat} {text : List Char}
    (hscan : scanFlags seen offset (text ++ rest) = some ⟨rest, offset'⟩) (hends : EndsName rest') :
    scanFlags seen offset (text ++ rest') = some ⟨rest', offset'⟩ := by
  induction text generalizing seen offset with
  | nil =>
    have hoffset : offset = offset' := by
      rw [List.nil_append] at hscan
      cases rest with
      | nil =>
        cases hscan
        rfl
      | cons c rest =>
        unfold scanFlags at hscan
        split at hscan
        · split at hscan
          · have := length_of_scanFlags hscan
            simp only [List.length_cons] at this
            omega
          · cases hscan
        · cases hscan
          rfl
    subst hoffset
    cases rest' with
    | nil => rfl
    | cons c rest' =>
      have hpart : isIdentifierPart c = false := hends c rfl
      simp [scanFlags, hpart]
  | cons c text ih =>
    rw [List.cons_append] at hscan ⊢
    unfold scanFlags at hscan ⊢
    split at hscan
    · next hpart =>
      rw [if_pos hpart]
      split at hscan
      · next hflag =>
        rw [if_pos hflag]
        exact ih hscan
      · cases hscan
    · have hrest := congrArg (fun next => next.rest.length) (Option.some.inj hscan)
      simp only [List.length_cons, List.length_append] at hrest
      omega

/-- A regular expression ends where no further letter follows. -/
theorem endsName_of_readRegex {place next : Place} (hread : readRegex place = (.regex, next)) :
    EndsName next.rest := by
  unfold readRegex at hread
  split at hread
  · split at hread
    · next hscan =>
      cases hread
      exact endsName_of_scanFlags hscan
    · cases hread
  · cases hread

/-- What stands behind a regular expression makes no difference to it, if it does not go on as a
name. -/
theorem readRegex_append {text : List Char} {offset offset' : Nat}
    (hread : readRegex ⟨text ++ rest, offset⟩ = (.regex, ⟨rest, offset'⟩)) (hends : EndsName rest') :
    readRegex ⟨text ++ rest', offset⟩ = (.regex, ⟨rest', offset'⟩) := by
  unfold readRegex at hread ⊢
  dsimp only at hread ⊢
  split at hread
  · next next hpattern =>
    split at hread
    · next last hflags =>
      cases hread
      obtain ⟨behind, hrest, hpattern'⟩ :=
        @scanPattern_append _ rest' _ _ _ _ _ hpattern (length_of_scanFlags hflags)
      rw [hrest] at hflags
      rw [hpattern']
      dsimp only
      rw [scanFlags_append hflags hends]
    · cases hread
  · cases hread

end ModuleLinkage.Syntax
