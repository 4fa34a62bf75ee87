import ModuleLinkage.Proofs.Syntax.Quotation
import ModuleLinkage.Syntax.Lexer.Name

/-!
# Names and what stands behind them

A name goes as far as characters of names do. So it stays the same name if what stands behind it is
replaced by something that begins with the same character or with a closing parenthesis
(`scanName_append`). The escapes that it may hold are read up to their last digit only.
-/

set_option autoImplicit false

namespace ModuleLinkage.Syntax

open Unicode

variable {rest rest' : List Char}

/-- Whether a second text looks the same as a first to a reader that ends where they begin: the same
character begins it, or a closing parenthesis. -/
def StopsAlike (rest rest' : List Char) : Prop :=
  rest'.head? = rest.head? ∨ rest'.head? = some ')'

/-- Whether characters make up an identifier without escapes. -/
def isIdentifier : List Char → Bool
  | [] => false
  | c :: rest => isIdentifierStart c && rest.all isIdentifierPart

/-! ### Names -/

theorem le_of_bracedCode? {value used code last : Nat} {text : List Char}
    (hcode : bracedCode? value used text = some (code, last)) :
    used < last ∧ last ≤ used + text.length := by
  induction text generalizing value used with
  | nil => cases hcode
  | cons c text ih =>
    unfold bracedCode? at hcode
    rw [List.length_cons]
    split at hcode
    · contradiction
    · split at hcode
      · cases hcode
      · cases hcode
        omega
    · next c' text' _ heq =>
      cases heq
      split at hcode
      · dsimp only at hcode
        split at hcode
        · cases hcode
        · have := ih hcode
          omega
      · cases hcode

/-- Braced digits are read up to their closing brace. -/
theorem bracedCode?_within {value used code last : Nat} {text : List Char}
    (hcode : bracedCode? value used (text ++ rest) = some (code, last))
    (hlast : last ≤ used + text.length) :
    bracedCode? value used (text ++ rest') = some (code, last) := by
  induction text generalizing value used with
  | nil =>
    have := le_of_bracedCode? hcode
    simp only [List.length_nil] at hlast
    omega
  | cons c text ih =>
    rw [List.length_cons] at hlast
    rw [List.cons_append] at hcode ⊢
    by_cases hc : c = '\x7d'
    · subst hc
      exact hcode
    · have hcons (more : List Char) : bracedCode? value used (c :: more) =
          (hexValue? c).bind fun digit =>
            if value * 16 + digit > 0x10ffff then none
            else bracedCode? (value * 16 + digit) (used + 1) more := by
        rw [bracedCode?.eq_3 value used c more hc]
        cases hexValue? c <;> rfl
      rw [hcons] at hcode ⊢
      cases hdigit : hexValue? c with
      | some digit =>
        rw [hdigit, Option.bind_some] at hcode
        rw [Option.bind_some]
        split at hcode
        · cases hcode
        · next hsmall =>
          rw [if_neg hsmall]
          exact ih hcode (by omega)
      | none =>
        rw [hdigit] at hcode
        cases hcode

theorem pos_of_unicodeCode? {code used : Nat} {text : List Char}
    (hcode : unicodeCode? text = some (code, used)) : 0 < used ∧ used ≤ text.length := by
  by_cases hhead : text.head? = some '\x7b'
  · obtain ⟨text, rfl⟩ : ∃ inside, text = '\x7b' :: inside := by
      cases text with
      | nil => cases hhead
      | cons c text => exact ⟨text, by rw [Option.some.inj hhead]⟩
    obtain ⟨⟨code', used'⟩, hbraced, hpair⟩ := Option.map_eq_some_iff.mp hcode
    cases hpair
    have := le_of_bracedCode? hbraced
    rw [List.length_cons]
    omega
  · rw [unicodeCode?_eq hhead] at hcode
    obtain ⟨code', hdigits, hpair⟩ := Option.map_eq_some_iff.mp hcode
    cases hpair
    unfold fourDigits? at hdigits
    split at hdigits
    · omega
    · cases hdigits

/-- The digits of an escape are read up to the last of them. -/
theorem unicodeCode?_within {code used : Nat} {text : List Char}
    (hcode : unicodeCode? (text ++ rest) = some (code, used)) (hused : used ≤ text.length) :
    unicodeCode? (text ++ rest') = some (code, used) := by
  rcases text with _ | ⟨c, text⟩
  · have := pos_of_unicodeCode? hcode
    rw [List.length_nil] at hused
    omega
  · by_cases hc : c = '\x7b'
    · subst hc
      obtain ⟨⟨code', used'⟩, hbraced, hpair⟩ := Option.map_eq_some_iff.mp hcode
      cases hpair
      rw [List.length_cons] at hused
      rw [List.cons_append, unicodeCode?, bracedCode?_within hbraced (by omega)]
      rfl
    · have hhead (more : List Char) : (c :: text ++ more).head? ≠ some '\x7b' := by
        simpa using hc
      rw [unicodeCode?_eq (hhead _)] at hcode ⊢
      obtain ⟨code', hdigits, hpair⟩ := Option.map_eq_some_iff.mp hcode
      cases hpair
      have htake (more : List Char) :
          fourDigits? (c :: text ++ more) = hexNumber? ((c :: text).take 4) := by
        rw [fourDigits?, if_pos (by rw [List.length_append]; omega),
          List.take_append_of_le_length hused]
      rw [htake] at hdigits ⊢
      rw [hdigits]
      rfl

/-- Whether a character may stand in a name, at its beginning or later. -/
def fitsName (first : Bool) (c : Char) : Bool :=
  if first then isIdentifierStart c else isIdentifierPart c

/-- The character that an escape in a name denotes, if it may stand there, and the number of
characters that the escape takes behind the backslash. -/
def nameEscape? (first : Bool) : List Char → Option (Char × Nat)
  | 'u' :: text => do
    let (code, used) ← unicodeCode? text
    let c ← charOfCode? code
    if fitsName first c then some (c, used + 1) else none
  | _ => none

theorem scanName_cons (first escaped : Bool) (read : List Char) (offset : Nat) (c : Char)
    (text : List Char) : scanName first escaped 0 read offset (c :: text) =
      if fitsName first c then scanName false escaped 0 (c :: read) (offset + c.utf8Size) text
      else if c = '\\' then
        match nameEscape? first text with
        | some (denoted, used) => scanName false true used (denoted :: read) (offset + 1) text
        | none => none
      else if first then none else some ⟨read.reverse, escaped, ⟨c :: text, offset⟩⟩ := by
  by_cases hc : c = '\\'
  · subst hc
    have hfits : fitsName first '\\' = false := by cases first <;> decide
    have hslash : (if first = true then isIdentifierStart '\\' else isIdentifierPart '\\') = false :=
      hfits
    rw [hfits, if_neg (by decide), if_pos rfl]
    conv =>
      lhs
      unfold scanName
    dsimp only
    rw [if_neg (Bool.eq_false_iff.mp hslash)]
    by_cases hmark : ∃ after, text = 'u' :: after
    · obtain ⟨after, rfl⟩ := hmark
      rcases hcode : unicodeCode? after with _ | ⟨code, used⟩
      · simp [nameEscape?, hcode]
      · rcases hchar : charOfCode? code with _ | denoted
        · simp [nameEscape?, hcode, hchar]
        · by_cases hdenoted : fitsName first denoted = true <;> cases first <;>
            simp_all [nameEscape?, fitsName]
    · have hnone : nameEscape? first text = none := by
        unfold nameEscape?
        split
        · next after => exact absurd ⟨after, rfl⟩ hmark
        · rfl
      rw [hnone]
      split
      · next after _ => exact absurd ⟨after, rfl⟩ hmark
      · rfl
      · contradiction
  · simp [scanName, fitsName, hc]

theorem nameEscape?_eq_some {first : Bool} {text : List Char} {denoted : Char} {used : Nat} :
    nameEscape? first text = some (denoted, used) ↔ ∃ after code count, text = 'u' :: after ∧
      unicodeCode? after = some (code, count) ∧ charOfCode? code = some denoted ∧
      fitsName first denoted = true ∧ used = count + 1 := by
  constructor
  · intro hescape
    unfold nameEscape? at hescape
    split at hescape
    · next after =>
      obtain ⟨⟨code, count⟩, hcode, hescape⟩ := Option.bind_eq_some_iff.mp hescape
      obtain ⟨c, hc, hescape⟩ := Option.bind_eq_some_iff.mp hescape
      split at hescape
      · next hfits =>
        cases hescape
        exact ⟨after, code, count, rfl, hcode, hc, hfits, rfl⟩
      · cases hescape
    · cases hescape
  · rintro ⟨after, code, count, rfl, hcode, hc, hfits, rfl⟩
    simp [nameEscape?, hcode, hc, hfits]

theorem le_of_nameEscape? {first : Bool} {text : List Char} {denoted : Char} {used : Nat}
    (hescape : nameEscape? first text = some (denoted, used)) : 0 < used ∧ used ≤ text.length := by
  obtain ⟨after, code, count, rfl, hcode, -, -, rfl⟩ := nameEscape?_eq_some.mp hescape
  have := pos_of_unicodeCode? hcode
  rw [List.length_cons]
  omega

/-- An escape in a name is read up to its last digit. -/
theorem nameEscape?_within {first : Bool} {text : List Char} {denoted : Char} {used : Nat}
    (hescape : nameEscape? first (text ++ rest) = some (denoted, used))
    (hused : used ≤ text.length) : nameEscape? first (text ++ rest') = some (denoted, used) := by
  obtain ⟨after, code, count, htext, hcode, hchar, hfits, rfl⟩ := nameEscape?_eq_some.mp hescape
  rcases text with _ | ⟨c, text⟩
  · cases hused
  · cases htext
    rw [List.length_cons] at hused
    exact nameEscape?_eq_some.mpr ⟨text ++ rest', code, count, rfl,
      unicodeCode?_within hcode (by omega), hchar, hfits, rfl⟩

/-- A name takes the characters that belong to an escape. -/
theorem length_of_scanName {first escaped : Bool} {skip offset : Nat} {read text : List Char}
    {name : Name} (hscan : scanName first escaped skip read offset text = some name)
    (hskip : skip ≤ text.length) : name.next.rest.length + skip ≤ text.length := by
  induction text generalizing first escaped skip read offset with
  | nil =>
    unfold scanName at hscan
    split at hscan <;> cases hscan
    simpa using hskip
  | cons c text ih =>
    rw [List.length_cons] at hskip ⊢
    cases skip with
    | succ skip =>
      have := ih hscan (by omega)
      omega
    | zero =>
      rw [scanName_cons] at hscan
      split at hscan
      · have := ih hscan (by omega)
        omega
      · split at hscan
        · split at hscan
          · next hescape =>
            have hused := le_of_nameEscape? hescape
            have := ih hscan hused.2
            omega
          · cases hscan
        · split at hscan <;> cases hscan
          exact Nat.le_refl _

/-- What stands behind a name makes no difference to it, if it looks the same to it. -/
theorem scanName_append {first escaped : Bool} {skip offset : Nat} {read text : List Char}
    {name : Name} (hrest : StopsAlike rest rest')
    (hscan : scanName first escaped skip read offset (text ++ rest) = some name)
    (hskip : skip ≤ text.length) (hlength : rest.length ≤ name.next.rest.length) :
    ∃ behind, name.next.rest = behind ++ rest ∧
      scanName first escaped skip read offset (text ++ rest') =
        some { name with next := ⟨behind ++ rest', name.next.offset⟩ } := by
  induction text generalizing first escaped skip read offset with
  | nil =>
    obtain rfl : skip = 0 := by simpa using hskip
    rw [List.nil_append] at hscan ⊢
    -- A name that leaves all of the text ends here, and the other text ends it as well.
    have hend : first = false ∧ name = ⟨read.reverse, escaped, ⟨rest, offset⟩⟩ ∧
        ∀ c ∈ rest.head?, fitsName false c = false ∧ c ≠ '\\' := by
      rcases rest with _ | ⟨c, rest⟩
      · unfold scanName at hscan
        split at hscan <;> cases hscan
        next hfirst => exact ⟨by simpa using hfirst, rfl, nofun⟩
      · rw [List.length_cons] at hlength
        rw [scanName_cons] at hscan
        split at hscan
        · have := length_of_scanName hscan (Nat.zero_le _)
          omega
        · next hfits =>
          split at hscan
          · split at hscan
            · next hescape =>
              have := length_of_scanName hscan (le_of_nameEscape? hescape).2
              omega
            · cases hscan
          · next hslash =>
            split at hscan
            · cases hscan
            · next hfirst =>
              cases hscan
              obtain rfl : first = false := by simpa using hfirst
              refine ⟨rfl, rfl, ?_⟩
              rintro d ⟨⟩
              exact ⟨by simpa using hfits, hslash⟩
    obtain ⟨rfl, rfl, hhead⟩ := hend
    refine ⟨[], rfl, ?_⟩
    rcases rest' with _ | ⟨c, rest'⟩
    · rfl
    · have hc : fitsName false c = false ∧ c ≠ '\\' := by
        rcases hrest with hsame | hclose
        · exact hhead c (hsame ▸ rfl)
        · cases hclose
          decide
      rw [scanName_cons, if_neg (by simp [hc.1]), if_neg hc.2]
      rfl
  | cons c text ih =>
    rw [List.cons_append] at hscan ⊢
    cases skip with
    | succ skip => exact ih hscan (by simpa using hskip)
    | zero =>
      rw [scanName_cons] at hscan ⊢
      split at hscan
      · next hfits =>
        rw [if_pos hfits]
        exact ih hscan (Nat.zero_le _)
      · next hfits =>
        rw [if_neg hfits]
        split at hscan
        · next hslash =>
          rw [if_pos hslash]
          split at hscan
          · next denoted used hescape =>
            have hused : used ≤ text.length := by
              have := length_of_scanName hscan (le_of_nameEscape? hescape).2
              rw [List.length_append] at this
              omega
            rw [nameEscape?_within hescape hused]
            exact ih hscan hused
          · cases hscan
        · next hslash =>
          rw [if_neg hslash]
          split at hscan
          · cases hscan
          · next hfirst =>
            rw [if_neg hfirst]
            cases hscan
            exact ⟨c :: text, rfl, rfl⟩

end ModuleLinkage.Syntax
