import ModuleLinkage.Proofs.Syntax.Numeral
import ModuleLinkage.Syntax.Lexer

/-!
# Tokens and what stands behind them

A token is read the same if what stands behind it is replaced by something that does not continue it
(`Reader.read_append`), and so is the gap before a token (`skipGap_append`). Punctuators are read with
up to two characters in advance; what may stand behind them is said by `Follows`.
-/

set_option autoImplicit false

namespace ModuleLinkage.Syntax

open Unicode

variable {rest rest' : List Char}

/-! ### Gaps -/

theorem length_of_skipGap {mode : GapMode} {skip offset : Nat} {newline : Bool} {text : List Char}
    {gap : Gap} (hskip : skipGap false mode skip newline offset text = some gap) :
    gap.next.rest.length ≤ text.length - skip := by
  induction text generalizing mode skip newline offset with
  | nil =>
    unfold skipGap at hskip
    split at hskip <;> cases hskip
    exact Nat.zero_le _
  | cons c text ih =>
    rw [List.length_cons]
    unfold skipGap at hskip
    dsimp only at hskip
    split at hskip
    · have := ih hskip
      omega
    · split at hskip <;> have := ih hskip <;> omega
    · split at hskip <;> have := ih hskip <;> omega
    · split at hskip
      · have := ih hskip
        omega
      · split at hskip
        · have := ih hskip
          omega
        · split at hskip
          · have := ih hskip
            omega
          · cases hskip
            exact Nat.le_refl _

/-- No gap ends inside a comment. -/
theorem length_of_skipGap_blockComment {skip offset : Nat} {newline : Bool} {text : List Char}
    {gap : Gap} (hskip : skipGap false .blockComment skip newline offset text = some gap) :
    gap.next.rest.length < text.length := by
  cases text with
  | nil => cases hskip
  | cons c text =>
    unfold skipGap at hskip
    dsimp only at hskip
    rw [List.length_cons]
    split at hskip
    · have := length_of_skipGap hskip
      omega
    · contradiction
    · split at hskip <;> have := length_of_skipGap hskip <;> omega
    · contradiction

/-- Whether a text begins with a token, or ends. -/
def StartsToken (text : List Char) : Prop :=
  ∀ c tail, text = c :: tail → commentOpening? false false c tail = none ∧ isLineBreak c = false ∧
    isSourceSpace c = false

theorem commentOpening?_eq (newline : Bool) (c : Char) (tail : List Char) :
    commentOpening? false newline c tail =
      if c == '/' && startsWith "/" tail then some (.lineComment, 1)
      else if c == '/' && startsWith "*" tail then some (.blockComment, 1) else none := by
  simp [commentOpening?]

theorem commentOpening?_newline (newline : Bool) (c : Char) (tail : List Char) :
    commentOpening? false newline c tail = commentOpening? false false c tail := rfl

/-- Nothing is skipped where a token begins. -/
theorem skipGap_of_startsToken (hstarts : StartsToken rest) (newline : Bool) (offset : Nat) :
    skipGap false .open 0 newline offset rest = some ⟨newline, ⟨rest, offset⟩⟩ := by
  cases rest with
  | nil => rfl
  | cons c tail =>
    obtain ⟨hcomment, hbreak, hspace⟩ := hstarts c tail rfl
    unfold skipGap
    dsimp only
    rw [commentOpening?_newline, hcomment]
    dsimp only
    rw [if_neg (by simp [hbreak]), if_neg (by simp [hspace])]

section GapsBehind

variable {mode : GapMode} {skip offset offset' : Nat} {newline newline' : Bool} {gap : List Char}

/-- No gap leaves more than stands behind what it skips. -/
theorem skipGap_ne_of_lt {tail : List Char} (hlt : tail.length - skip < rest.length) :
    skipGap false mode skip newline offset tail ≠ some ⟨newline', ⟨rest, offset'⟩⟩ :=
  fun hfound => Nat.not_le.mpr hlt (length_of_skipGap hfound)

/-- Only between tokens is nothing of a text taken. -/
theorem eq_of_skipGap_self {c : Char} {tail : List Char}
    (hskip : skipGap false mode skip newline offset (c :: tail) =
      some ⟨newline', ⟨c :: tail, offset'⟩⟩) :
    mode = .open ∧ skip = 0 ∧ newline' = newline ∧ offset' = offset := by
  have hlt (count : Nat) : tail.length - count < (c :: tail).length :=
    Nat.lt_succ_of_le (Nat.sub_le _ _)
  unfold skipGap at hskip
  dsimp only at hskip
  split at hskip
  · exact absurd hskip (skipGap_ne_of_lt (hlt _))
  · split at hskip <;> exact absurd hskip (skipGap_ne_of_lt (hlt _))
  · split at hskip <;> exact absurd hskip (skipGap_ne_of_lt (hlt _))
  · split at hskip
    · exact absurd hskip (skipGap_ne_of_lt (hlt _))
    · split at hskip
      · exact absurd hskip (skipGap_ne_of_lt (hlt _))
      · split at hskip
        · exact absurd hskip (skipGap_ne_of_lt (hlt _))
        · cases hskip
          exact ⟨rfl, rfl, rfl, rfl⟩

/-- A mark of two characters does not reach into the text behind a gap. -/
theorem startsWith_of_skipGap (hnil : rest = [] → rest' = []) {mark : String}
    (hlength : mark.toList.length = 1) (hstart : startsWith mark (gap ++ rest) = true)
    (hfound : skipGap false mode 1 newline offset (gap ++ rest) =
      some ⟨newline', ⟨rest, offset'⟩⟩) : startsWith mark (gap ++ rest') = true := by
  rcases gap with _ | ⟨d, gap⟩
  · rcases rest with _ | ⟨d, rest⟩
    · rw [List.nil_append, hnil rfl]
      exact hstart
    · exact absurd hfound (skipGap_ne_of_lt (by simp))
  · obtain ⟨m, hm⟩ := List.length_eq_one_iff.mp hlength
    unfold startsWith at hstart ⊢
    rw [hm] at hstart ⊢
    simpa [List.isPrefixOf] using hstart

/-- So a comment that a gap begins with is opened whatever stands behind the gap. -/
theorem commentOpening?_of_skipGap (hnil : rest = [] → rest' = []) {c : Char}
    (hskip : skipGap false .open 0 newline offset (c :: (gap ++ rest)) =
      some ⟨newline', ⟨rest, offset'⟩⟩) :
    commentOpening? false newline c (gap ++ rest') =
      commentOpening? false newline c (gap ++ rest) := by
  unfold skipGap at hskip
  dsimp only at hskip
  rw [commentOpening?_eq] at hskip
  rw [commentOpening?_eq, commentOpening?_eq]
  by_cases hslash : c = '/'
  · subst hslash
    cases hline : startsWith "/" (gap ++ rest) with
    | true =>
      simp only [hline, beq_self_eq_true, Bool.and_self, if_true] at hskip
      simp [startsWith_of_skipGap hnil rfl hline hskip]
    | false =>
      cases hblock : startsWith "*" (gap ++ rest) with
      | true =>
        simp only [hline, hblock, beq_self_eq_true, Bool.and_self, Bool.and_false, if_true,
          Bool.false_eq_true, if_false] at hskip
        have hblock' := startsWith_of_skipGap hnil rfl hblock hskip
        have hline' : startsWith "/" (gap ++ rest') = false := by
          generalize gap ++ rest' = tail at hblock'
          rcases tail with _ | ⟨d, tail⟩
          · rfl
          · obtain rfl : '*' = d := by simpa [startsWith, List.isPrefixOf] using hblock'
            rfl
        simp [hblock', hline']
      | false =>
        simp only [hline, hblock, Bool.and_false, Bool.false_eq_true, if_false] at hskip
        have hrest := congrArg (fun found => found.next.rest.length) (Option.some.inj hskip)
        simp at hrest
        omega
  · simp [hslash]

end GapsBehind

/-- A gap is passed whatever comes behind it. -/
theorem skipGap_append_eq (hnil : rest = [] → rest' = [])
    {mode : GapMode} {skip offset offset' : Nat} {newline newline' : Bool} {gap : List Char}
    (hskip : skipGap false mode skip newline offset (gap ++ rest) = some ⟨newline', ⟨rest, offset'⟩⟩) :
    skipGap false mode skip newline offset (gap ++ rest') =
      skipGap false .open 0 newline' offset' rest' := by
  generalize hbehind : skipGap false .open 0 newline' offset' rest' = found
  induction gap generalizing mode skip newline offset with
  | nil =>
    rw [List.nil_append] at hskip ⊢
    rw [← hbehind]
    rcases rest with _ | ⟨c, rest⟩
    · rw [hnil rfl, hskip]
      rfl
    · obtain ⟨rfl, rfl, rfl, rfl⟩ := eq_of_skipGap_self hskip
      rfl
  | cons c gap ih =>
    rw [List.cons_append] at hskip ⊢
    cases skip with
    | succ skip => exact ih hskip
    | zero =>
      cases mode with
      | lineComment =>
        simp only [skipGap] at hskip ⊢
        split at hskip
        · next hbreak =>
          rw [if_pos hbreak]
          exact ih hskip
        · next hbreak =>
          rw [if_neg hbreak]
          exact ih hskip
      | blockComment =>
        simp only [skipGap] at hskip ⊢
        split at hskip
        · next hend =>
          obtain ⟨hstar, hslash⟩ := Bool.and_eq_true_iff.mp hend
          rw [if_pos (by rw [hstar, startsWith_of_skipGap hnil rfl hslash hskip]; rfl)]
          exact ih hskip
        · next hend =>
          have hend' : ¬ (c == '*' && startsWith "/" (gap ++ rest')) = true := by
            rcases gap with _ | ⟨d, gap⟩
            · exact absurd (length_of_skipGap_blockComment hskip) (Nat.lt_irrefl _)
            · simpa [startsWith, List.isPrefixOf] using hend
          rw [if_neg hend']
          exact ih hskip
      | «open» =>
        have hopening := commentOpening?_of_skipGap hnil hskip
        unfold skipGap at hskip ⊢
        dsimp only at hskip ⊢
        rw [hopening]
        split at hskip
        · exact ih hskip
        · split at hskip
          · next hbreak =>
            rw [if_pos hbreak]
            exact ih hskip
          · next hbreak =>
            rw [if_neg hbreak]
            split at hskip
            · next hspace =>
              rw [if_pos hspace]
              exact ih hskip
            · have hrest := congrArg (fun found => found.next.rest.length) (Option.some.inj hskip)
              simp at hrest
              omega

/-- A gap stays the same if other tokens come behind it. -/
theorem skipGap_append (hstarts : StartsToken rest') (hnil : rest = [] → rest' = [])
    {mode : GapMode} {skip offset offset' : Nat} {newline newline' : Bool} {gap : List Char}
    (hskip : skipGap false mode skip newline offset (gap ++ rest) = some ⟨newline', ⟨rest, offset'⟩⟩) :
    skipGap false mode skip newline offset (gap ++ rest') =
      some ⟨newline', ⟨rest', offset'⟩⟩ :=
  (skipGap_append_eq hnil hskip).trans (skipGap_of_startsToken hstarts _ _)

/-! ### Punctuators -/

theorem dropStart?_eq_some {start text rest : List Char} :
    dropStart? start text = some rest ↔ text = start ++ rest := by
  induction start generalizing text with
  | nil =>
    rw [dropStart?, Option.some.injEq, List.nil_append]
  | cons s start ih =>
    cases text with
    | nil => simp [dropStart?]
    | cons c text =>
      unfold dropStart?
      split
      · next hsame =>
        rw [ih, List.cons_append, List.cons.injEq, beq_iff_eq.mp hsame]
        simp
      · next hdiffers =>
        simp only [List.cons_append, List.cons.injEq, reduceCtorEq, false_iff, not_and]
        intro hsame
        exact absurd (beq_iff_eq.mpr hsame.symm) hdiffers

/-- Whether `?.` is not read as one mark before a text. -/
def beginsWithDigit (text : List Char) : Bool :=
  (text.head?.map isAsciiDigit).getD false

theorem standsAt_eq_some {mark : String} {text rest : List Char} :
    standsAt mark text = some rest ↔
      text = mark.toList ++ rest ∧ ¬ (mark = "?." ∧ beginsWithDigit rest = true) := by
  unfold standsAt
  split
  · next behind hdrop =>
    rw [dropStart?_eq_some] at hdrop
    subst hdrop
    split
    · next hrefused =>
      simp only [reduceCtorEq, false_iff, not_and]
      intro hsame
      obtain rfl := List.append_cancel_left hsame
      simpa [beginsWithDigit] using hrefused
    · next hfits =>
      rw [Option.some.injEq]
      constructor
      · rintro rfl
        exact ⟨rfl, by simpa [beginsWithDigit] using hfits⟩
      · rintro ⟨hsame, -⟩
        exact List.append_cancel_left hsame
  · next hnone =>
    simp only [reduceCtorEq, false_iff, not_and]
    rintro rfl
    rw [dropStart?_eq_some.mpr rfl] at hnone
    cases hnone

/-- Whether a character begins inserted text: a closing parenthesis, or the beginning of a name in
ASCII. -/
def beginsInserted (c : Char) : Bool :=
  c == ')' || isPlainStart c

/-- Whether the characters of marks behind the first begin no inserted text. -/
def areSeparate (marks : List String) : Bool :=
  marks.all fun mark => (mark.toList.drop 1).all fun c => !beginsInserted c

/-- What may stand behind a token in place of something else, where texts have been inserted between
tokens. -/
structure Follows (rest rest' : List Char) : Prop where
  /-- Characters that begin no inserted text were there before. -/
  marks : ∀ mark : List Char, (∀ c ∈ mark, beginsInserted c = false) → mark <+: rest' → mark <+: rest
  /-- A fraction is not taken apart. -/
  fraction : ∀ c, isAsciiDigit c = true → ['.', c] <+: rest → rest'.head? = some '.' →
    ['.', c] <+: rest'
  /-- No digit is put behind. -/
  digit : beginsWithDigit rest' = true → beginsWithDigit rest = true

/-- A mark stays the longest one that stands there. -/
theorem readPunctuator_append {marks : List String} (hseparate : areSeparate marks = true)
    (hfollows : Follows rest rest') {body : List Char} (hbody : body ≠ []) {offset offset' : Nat}
    {token : Token} (hvalid : token ≠ .invalid)
    (hread : readPunctuator marks ⟨body ++ rest, offset⟩ = (token, ⟨rest, offset'⟩)) :
    readPunctuator marks ⟨body ++ rest', offset⟩ = (token, ⟨rest', offset'⟩) := by
  unfold readPunctuator at hread ⊢
  split at hread
  · next mark found hfind =>
    obtain ⟨htoken, hplace⟩ := Prod.mk.inj hread
    obtain ⟨hfound, hoffset⟩ := Place.mk.inj hplace
    obtain ⟨longer, own, shorter, rfl, hown, hlonger⟩ := List.findSome?_eq_some_iff.mp hfind
    obtain ⟨found', hstands, hpair⟩ := Option.map_eq_some_iff.mp hown
    obtain ⟨hmark, hfound'⟩ := Prod.mk.inj hpair
    subst hmark
    subst found
    subst found'
    obtain ⟨hsame, hrule⟩ := standsAt_eq_some.mp hstands
    have hmark : body = own.toList := List.append_cancel_right hsame
    have hstands' : standsAt own (body ++ rest') = some rest' := by
      refine standsAt_eq_some.mpr ⟨by rw [hmark], fun hquestion => hrule ?_⟩
      exact ⟨hquestion.1, hfollows.digit hquestion.2⟩
    have hnone (other : String) (hother : other ∈ longer) : standsAt other (body ++ rest') = none := by
      have hrefused (behind : List Char) (hwhole : body ++ rest = other.toList ++ behind) :
          other = "?." ∧ beginsWithDigit behind = true := by
        refine Classical.byContradiction fun hfits => ?_
        have hfound := standsAt_eq_some.mpr ⟨hwhole, hfits⟩
        have := hlonger other hother
        simp [hfound] at this
      refine Option.eq_none_iff_forall_ne_some.mpr fun behind hfound => ?_
      obtain ⟨hwhole, hrule'⟩ := standsAt_eq_some.mp hfound
      rcases List.append_eq_append_iff.mp hwhole with ⟨more, hother', hrest'⟩ | ⟨more, hbody', hbehind⟩
      · -- A longer mark would have stood there before.
        have hmore (c : Char) (hc : c ∈ more) : beginsInserted c = false := by
          have hall := List.all_eq_true.mp hseparate other (by simp [hother])
          have htail : c ∈ other.toList.drop 1 := by
            rw [hother']
            cases body with
            | nil => exact absurd rfl hbody
            | cons d body => simp [hc]
          simpa using List.all_eq_true.mp hall c htail
        obtain ⟨tail, rfl⟩ := hfollows.marks more hmore ⟨behind, hrest'.symm⟩
        obtain ⟨hquestion, hdigit⟩ := hrefused tail (by rw [hother', List.append_assoc])
        rw [hquestion] at hother'
        rcases body with _ | ⟨first, _ | ⟨second, body⟩⟩
        · exact hbody rfl
        · obtain ⟨rfl, rfl⟩ : '?' = first ∧ ['.'] = more := by simpa using hother'
          rcases tail with _ | ⟨c, tail⟩
          · cases hdigit
          · obtain ⟨last, hlast⟩ := hfollows.fraction c hdigit ⟨tail, rfl⟩ (by rw [hrest']; rfl)
            rw [hrest'] at hlast
            obtain rfl : c :: last = behind := by simpa using hlast
            exact hrule' ⟨hquestion, hdigit⟩
        · obtain ⟨rfl, rfl, rfl, rfl⟩ : '?' = first ∧ '.' = second ∧ body = [] ∧ more = [] := by
            simpa using hother'
          have hown' : own = "?." := String.toList_inj.mp hmark.symm
          exact hrule ⟨hown', hdigit⟩
      · obtain ⟨hquestion, hdigit⟩ := hrefused (more ++ rest) (by rw [hbody', List.append_assoc])
        cases more with
        | nil =>
          have hown' : own = other := String.toList_inj.mp (by rw [← hmark, hbody', List.append_nil])
          exact hrule ⟨hown'.trans hquestion, hdigit⟩
        | cons c more =>
          rw [hbehind] at hrule'
          exact hrule' ⟨hquestion, hdigit⟩
    have hfind' : (longer ++ own :: shorter).findSome? (fun mark =>
        (standsAt mark (body ++ rest')).map fun rest => (mark, rest)) = some (own, rest') := by
      refine List.findSome?_eq_some_iff.mpr ⟨longer, own, shorter, rfl, by rw [hstands']; rfl, ?_⟩
      intro other hother
      rw [hnone other hother]
      rfl
    rw [hfind', ← htoken, ← hoffset]
  · exact absurd (congrArg Prod.fst hread).symm hvalid

/-! ### Tokens -/

theorem readNameAs_append {make : String → Bool → Token} {text : List Char} {offset offset' : Nat}
    {token : Token} (hrest : StopsAlike rest rest') (hvalid : token ≠ .invalid)
    (hread : readNameAs make ⟨text ++ rest, offset⟩ = (token, ⟨rest, offset'⟩)) :
    readNameAs make ⟨text ++ rest', offset⟩ = (token, ⟨rest', offset'⟩) := by
  unfold readNameAs readName? at hread ⊢
  dsimp only at hread ⊢
  split at hread
  · next name hscan =>
    obtain ⟨htoken, hnext⟩ := Prod.mk.inj hread
    obtain ⟨behind, hbehind, hscan'⟩ := scanName_append hrest hscan (Nat.zero_le _)
      (Nat.le_of_eq (by rw [hnext]))
    rw [hnext] at hbehind hscan'
    obtain rfl : behind = [] := by simpa using hbehind
    rw [hscan']
    exact Prod.ext htoken rfl
  · exact absurd (congrArg Prod.fst hread).symm hvalid

theorem readString_append {quote : Char} (hquote : isCloser quote = true) {text : List Char}
    {offset offset' : Nat} {token : Token} (hvalid : token ≠ .invalid)
    (hread : readString quote ⟨text ++ rest, offset⟩ = (token, ⟨rest, offset'⟩)) :
    readString quote ⟨text ++ rest', offset⟩ = (token, ⟨rest', offset'⟩) := by
  unfold readString at hread ⊢
  dsimp only at hread ⊢
  split at hread
  · next units next hscan =>
    obtain ⟨htoken, rfl⟩ := Prod.mk.inj hread
    obtain ⟨inside, rfl⟩ := exists_eq_append_quote hscan
    rw [List.append_assoc] at hscan ⊢
    have hscan' := @scanString_append rest rest' _ hquote _ _ _ _ _ _ hscan
    rw [List.singleton_append, hscan', ← htoken]
  · exact absurd (congrArg Prod.fst hread).symm hvalid

theorem readTemplate_append {text : List Char} {offset offset' : Nat} {token : Token}
    (hvalid : token ≠ .invalid)
    (hread : scanTemplate 0 true offset (text ++ rest) = (token, ⟨rest, offset'⟩)) :
    scanTemplate 0 true offset (text ++ rest') = (token, ⟨rest', offset'⟩) := by
  obtain ⟨inside, mark, hmark, rfl⟩ := exists_eq_append_templateEnd hread hvalid
  rw [List.append_assoc] at hread ⊢
  exact scanTemplate_append hmark hvalid hread

/-- A fraction takes a digit. -/
theorem length_of_endFraction (wellFormed : Bool) {text : List Char} (offset : Nat)
    (hdigit : beginsWithDigit text = true) :
    (endFraction wellFormed ⟨text, offset⟩).2.rest.length < text.length := by
  cases text with
  | nil => cases hdigit
  | cons c text =>
    have hc : isAsciiDigit c = true := hdigit
    unfold endFraction
    dsimp only
    refine Nat.lt_succ_of_le (Nat.le_trans ((isLocal_endDecimal _).shorter _) ?_)
    unfold readDigits
    dsimp only
    unfold scanDigits
    rw [if_pos hc]
    exact length_of_scanDigits _ _ _ _ _

/-- Whether a text begins a token that a name behind it does not continue: a string, a piece of a
template or a punctuator. -/
def standsAlone : List Char → Bool
  | [] => false
  | c :: text =>
    !(isIdentifierStart c || c == '\\' || isAsciiDigit c || c == '#' ||
      (c == '.' && beginsWithDigit text))

theorem areSeparate_punctuators : areSeparate punctuators = true := by
  decide

/-- A token stays the same if what stands behind it is replaced by something that does not continue
it. -/
theorem readToken_append {body : List Char} (hbody : body ≠ []) {offset offset' : Nat} {token : Token}
    (hvalid : token ≠ .invalid) (hfollows : Follows rest rest')
    (hhead : StopsAlike rest rest' ∨ standsAlone body = true)
    (hread : readToken ⟨body ++ rest, offset⟩ = (token, ⟨rest, offset'⟩)) :
    readToken ⟨body ++ rest', offset⟩ = (token, ⟨rest', offset'⟩) := by
  rcases body with _ | ⟨c, text⟩
  · exact absurd rfl hbody
  have hstops {b : Bool} (hb : b = true) (hnot : standsAlone (c :: text) = true → b = false) :
      StopsAlike rest rest' := by
    refine hhead.resolve_right fun halone => ?_
    rw [hnot halone] at hb
    cases hb
  have halone (h : standsAlone (c :: text) = true) : (isIdentifierStart c || c == '\\') = false ∧
      isAsciiDigit c = false ∧ (c == '#') = false ∧ (c == '.' && beginsWithDigit text) = false := by
    simpa only [standsAlone, Bool.not_eq_true', Bool.or_eq_false_iff, and_assoc] using h
  rw [List.cons_append] at hread ⊢
  unfold readToken at hread ⊢
  dsimp only at hread ⊢
  split at hread
  · next hname =>
    rw [if_pos hname]
    exact @readNameAs_append _ _ _ (c :: text) _ _ _ (hstops hname fun h => (halone h).1)
      hvalid hread
  · next hname =>
    rw [if_neg hname]
    split at hread
    · next hdigit =>
      rw [if_pos hdigit]
      exact readNumeral_append (hstops hdigit fun h => (halone h).2.1) hvalid hread
    · next hdigit =>
      rw [if_neg hdigit]
      split at hread
      · next hquote =>
        rw [if_pos hquote]
        have hcloser : isCloser c = true := by
          simp only [Bool.or_eq_true, beq_iff_eq] at hquote
          rcases hquote with rfl | rfl <;> rfl
        exact readString_append hcloser hvalid hread
      · next hquote =>
        rw [if_neg hquote]
        split at hread
        · next haccent =>
          rw [if_pos haccent]
          exact readTemplate_append hvalid hread
        · next haccent =>
          rw [if_neg haccent]
          split at hread
          · next hprivate =>
            rw [if_pos hprivate]
            exact readNameAs_append (hstops hprivate fun h => (halone h).2.2.1) hvalid hread
          · next hprivate =>
            rw [if_neg hprivate]
            split at hread
            · next hfraction =>
              obtain ⟨hdot, hdigit⟩ := Bool.and_eq_true_iff.mp hfraction
              rcases text with _ | ⟨d, text⟩
              · have hlength := length_of_endFraction true (offset + c.utf8Size) hdigit
                rw [hread] at hlength
                exact absurd hlength (Nat.lt_irrefl _)
              · have hfraction' : (c == '.' && beginsWithDigit (d :: text)) = true := by
                  rw [hdot]
                  exact hdigit
                refine (if_pos hfraction').trans ?_
                exact @IsLocal.append _ (isLocal_endFraction true) (d :: text) _ _ _ _ _
                  (hstops hfraction' fun h => (halone h).2.2.2) hvalid hread
            · next hfraction =>
              have hfraction' : ¬ (c == '.' && beginsWithDigit (text ++ rest')) = true := by
                intro hboth
                obtain ⟨hdot, hdigit⟩ := Bool.and_eq_true_iff.mp hboth
                refine hfraction ?_
                rw [hdot]
                rcases text with _ | ⟨d, text⟩
                · exact hfollows.digit hdigit
                · exact hdigit
              refine (if_neg hfraction').trans ?_
              exact @readPunctuator_append _ _ _ areSeparate_punctuators hfollows (c :: text)
                (List.cons_ne_nil _ _) _ _ _ hvalid hread

/-! ### Markup -/

theorem length_of_scanMarkupName (offset : Nat) (text : List Char) :
    (scanMarkupName offset text).rest.length ≤ text.length := by
  induction text generalizing offset with
  | nil => exact Nat.le_refl _
  | cons c text ih =>
    unfold scanMarkupName
    split
    · exact Nat.le_succ_of_le (ih _)
    · exact Nat.le_refl _

theorem scanMarkupName_append {text : List Char} {offset offset' : Nat} (hrest : StopsAlike rest rest')
    (hscan : scanMarkupName offset (text ++ rest) = ⟨rest, offset'⟩) :
    scanMarkupName offset (text ++ rest') = ⟨rest', offset'⟩ := by
  induction text generalizing offset with
  | nil =>
    have hstays : ∀ c ∈ rest.head?, (isIdentifierPart c || c == '-') = false := by
      cases rest with
      | nil => nofun
      | cons c rest =>
        rintro d ⟨⟩
        refine Bool.eq_false_iff.mpr fun hpart => ?_
        rw [List.nil_append, scanMarkupName, if_pos hpart] at hscan
        have hlength := length_of_scanMarkupName (offset + c.utf8Size) rest
        rw [hscan] at hlength
        exact Nat.not_succ_le_self _ hlength
    have hoffset {text : List Char} (hhead : ∀ c ∈ text.head?, (isIdentifierPart c || c == '-') = false) :
        scanMarkupName offset text = ⟨text, offset⟩ := by
      cases text with
      | nil => rfl
      | cons c text => rw [scanMarkupName, if_neg (by simp [hhead c rfl])]
    rw [List.nil_append, hoffset hstays] at hscan
    rw [List.nil_append, hoffset (hrest.head (by decide) hstays)]
    exact congrArg _ (Place.mk.inj hscan).2
  | cons c text ih =>
    rw [List.cons_append, scanMarkupName] at hscan ⊢
    split at hscan
    · next hpart => exact (if_pos hpart).trans (ih hscan)
    · have hlength := congrArg (fun place => place.rest.length) hscan
      simp only [List.length_cons, List.length_append] at hlength
      omega

theorem length_of_scanMarkupString {quote : Char} {offset : Nat} {text : List Char} {next : Place}
    (hscan : scanMarkupString quote offset text = some next) : next.rest.length < text.length := by
  induction text generalizing offset with
  | nil => cases hscan
  | cons c text ih =>
    unfold scanMarkupString at hscan
    split at hscan
    · cases hscan
      exact Nat.lt_succ_self _
    · exact Nat.lt_succ_of_lt (ih hscan)

theorem scanMarkupString_append {quote : Char} {text : List Char} {offset offset' : Nat}
    (hscan : scanMarkupString quote offset (text ++ rest) = some ⟨rest, offset'⟩) :
    scanMarkupString quote offset (text ++ rest') = some ⟨rest', offset'⟩ := by
  induction text generalizing offset with
  | nil => exact absurd (length_of_scanMarkupString hscan) (Nat.lt_irrefl _)
  | cons c text ih =>
    rw [List.cons_append, scanMarkupString] at hscan ⊢
    split at hscan
    · next hquote =>
      obtain ⟨hnil, rfl⟩ := Place.mk.inj (Option.some.inj hscan)
      obtain rfl := List.append_left_eq_self.mp hnil
      exact if_pos hquote
    · next hquote => exact (if_neg hquote).trans (ih hscan)

theorem length_of_scanMarkupText {offset : Nat} {text : List Char} {next : Place}
    (hscan : scanMarkupText offset text = some next) : next.rest.length ≤ text.length := by
  induction text generalizing offset with
  | nil =>
    cases hscan
    exact Nat.le_refl _
  | cons c text ih =>
    unfold scanMarkupText at hscan
    split at hscan
    · cases hscan
      exact Nat.le_refl _
    · split at hscan
      · cases hscan
      · exact Nat.le_succ_of_le (ih hscan)

/-- Text between tags goes on up to a tag or a brace. -/
theorem scanMarkupText_append {text : List Char} {offset offset' : Nat}
    (hhead : rest'.head? = rest.head?)
    (hscan : scanMarkupText offset (text ++ rest) = some ⟨rest, offset'⟩) :
    scanMarkupText offset (text ++ rest') = some ⟨rest', offset'⟩ := by
  induction text generalizing offset with
  | nil =>
    rw [List.nil_append] at hscan ⊢
    rcases rest with _ | ⟨c, rest⟩
    · obtain rfl := List.head?_eq_none_iff.mp hhead
      exact hscan
    · obtain ⟨tail, rfl⟩ := List.head?_eq_some_iff.mp hhead
      unfold scanMarkupText at hscan ⊢
      split at hscan
      · next hends =>
        rw [if_pos hends, (Place.mk.inj (Option.some.inj hscan)).2]
      · split at hscan
        · cases hscan
        · exact absurd (length_of_scanMarkupText hscan) (Nat.not_succ_le_self _)
  | cons c text ih =>
    rw [List.cons_append, scanMarkupText] at hscan ⊢
    split at hscan
    · have hlength := congrArg (fun place => place.rest.length) (Option.some.inj hscan)
      simp only [List.length_cons, List.length_append] at hlength
      omega
    · next hends =>
      refine (if_neg hends).trans ?_
      split at hscan
      · cases hscan
      · next hcloses => exact (if_neg hcloses).trans (ih hscan)

end ModuleLinkage.Syntax
