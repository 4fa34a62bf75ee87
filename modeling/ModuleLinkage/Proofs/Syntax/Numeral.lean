import ModuleLinkage.Proofs.Syntax.Name
import ModuleLinkage.Syntax.Lexer.Numeral

/-!
# Numerals and what stands behind them

A numeral ends where neither a digit nor a name follows. So it stays the same numeral if what stands
behind it is replaced by something that begins with the same character or with a closing parenthesis
(`readNumeral_append`). The readers of the parts of a numeral have this property one by one
(`IsLocal`).
-/

set_option autoImplicit false

namespace ModuleLinkage.Syntax

open Unicode

variable {rest rest' : List Char}

/-! ### Runs of digits -/

theorem length_of_scanDigits (isDigit : Char → Bool) (afterDigit : Bool) (run : DigitRun)
    (offset : Nat) (text : List Char) :
    (scanDigits isDigit afterDigit run offset text).next.rest.length ≤ text.length := by
  induction text generalizing afterDigit run offset with
  | nil => exact Nat.le_refl _
  | cons c text ih =>
    unfold scanDigits
    split
    · exact Nat.le_trans (ih _ _ _) (Nat.le_succ _)
    · split
      · exact Nat.le_trans (ih _ _ _) (Nat.le_succ _)
      · exact Nat.le_refl _

/-- What stands behind a run of digits makes no difference to it, if it looks the same to it. -/
theorem scanDigits_append {isDigit : Char → Bool} (hclose : isDigit ')' = false)
    (hrest : StopsAlike rest rest') {afterDigit : Bool} {run found : DigitRun} {offset : Nat}
    {text : List Char} (hscan : scanDigits isDigit afterDigit run offset (text ++ rest) = found)
    (hlength : rest.length ≤ found.next.rest.length) :
    ∃ behind, found.next.rest = behind ++ rest ∧
      scanDigits isDigit afterDigit run offset (text ++ rest') =
        { found with next := ⟨behind ++ rest', found.next.offset⟩ } := by
  induction text generalizing afterDigit run offset with
  | nil =>
    rw [List.nil_append] at hscan ⊢
    refine ⟨[], ?_⟩
    -- The run that leaves all of the text ends here, and the other text ends it as well.
    have hend : found = run.close afterDigit ⟨rest, offset⟩ ∧
        ∀ c ∈ rest.head?, isDigit c = false ∧ (c == '_') = false := by
      rcases rest with _ | ⟨c, rest⟩
      · exact ⟨hscan.symm, nofun⟩
      · unfold scanDigits at hscan
        split at hscan
        · have := length_of_scanDigits isDigit true { run with count := run.count + 1 }
            (offset + c.utf8Size) rest
          rw [hscan] at this
          rw [List.length_cons] at hlength
          omega
        · next hdigit =>
          split at hscan
          · have := length_of_scanDigits isDigit false
              { run with separated := true, wellFormed := run.wellFormed && afterDigit }
              (offset + c.utf8Size) rest
            rw [hscan] at this
            rw [List.length_cons] at hlength
            omega
          · next hmark =>
            refine ⟨hscan.symm, ?_⟩
            rintro d ⟨⟩
            exact ⟨by simpa using hdigit, by simpa using hmark⟩
    obtain ⟨rfl, hhead⟩ := hend
    refine ⟨rfl, ?_⟩
    rcases rest' with _ | ⟨c, rest'⟩
    · rfl
    · have hc : isDigit c = false ∧ (c == '_') = false := by
        rcases hrest with hsame | hparenthesis
        · exact hhead c (hsame ▸ rfl)
        · cases hparenthesis
          exact ⟨hclose, rfl⟩
      unfold scanDigits
      rw [if_neg (by simp [hc.1]), if_neg (by simp [hc.2])]
      rfl
  | cons c text ih =>
    rw [List.cons_append] at hscan ⊢
    unfold scanDigits at hscan ⊢
    split at hscan
    · next hdigit =>
      rw [if_pos hdigit]
      exact ih hscan
    · next hdigit =>
      rw [if_neg hdigit]
      split at hscan
      · next hmark =>
        rw [if_pos hmark]
        exact ih hscan
      · next hmark =>
        rw [if_neg hmark]
        subst hscan
        exact ⟨c :: text, rfl, rfl⟩

/-! ### Readers that do not look far -/

/-- A reader that takes a token from the front of a text, and takes the same token if what stands
behind it is replaced by something that looks the same. -/
structure IsLocal (read : Place → Token × Place) : Prop where
  shorter : ∀ place, (read place).2.rest.length ≤ place.rest.length
  append : ∀ {text rest rest' : List Char} {offset offset' : Nat} {token : Token},
    StopsAlike rest rest' → token ≠ .invalid →
      read ⟨text ++ rest, offset⟩ = (token, ⟨rest, offset'⟩) →
        read ⟨text ++ rest', offset⟩ = (token, ⟨rest', offset'⟩)

theorem numeralAt_eq {token token' : Token} {place next : Place} (hvalid : token' ≠ .invalid)
    (hread : numeralAt token place = (token', next)) : token = token' ∧ place = next ∧
      ∀ c ∈ place.rest.head?, isIdentifierStart c = false ∧ isAsciiDigit c = false := by
  unfold numeralAt at hread
  split at hread
  · next c _ hplace =>
    split at hread
    · cases hread
      exact absurd rfl hvalid
    · next hfits =>
      cases hread
      refine ⟨rfl, rfl, ?_⟩
      rw [hplace]
      rintro d ⟨⟩
      simpa using hfits
  · next hplace =>
    cases hread
    refine ⟨rfl, rfl, ?_⟩
    rw [hplace]
    nofun

theorem numeralAt_of_head {token : Token} {place : Place}
    (hhead : ∀ c ∈ place.rest.head?, isIdentifierStart c = false ∧ isAsciiDigit c = false) :
    numeralAt token place = (token, place) := by
  unfold numeralAt
  split
  · next c _ hplace =>
    have hc := hhead c (by rw [hplace]; rfl)
    rw [if_neg (by simp [hc])]
  · rfl

/-- Whatever ends a numeral is not mistaken for its continuation. -/
theorem StopsAlike.head (hrest : StopsAlike rest rest') {fits : Char → Prop} (hclose : fits ')')
    (hhead : ∀ c ∈ rest.head?, fits c) : ∀ c ∈ rest'.head?, fits c := by
  intro c hc
  rcases hrest with hsame | hparenthesis
  · exact hhead c (hsame ▸ hc)
  · rw [hparenthesis] at hc
    cases hc
    exact hclose

theorem isLocal_numeralAt (token : Token) : IsLocal (numeralAt token) := by
  refine ⟨fun place => ?_, fun hrest hvalid hread => ?_⟩
  · unfold numeralAt
    split
    · split <;> exact Nat.le_refl _
    · exact Nat.le_refl _
  · obtain ⟨rfl, hplace, hhead⟩ := numeralAt_eq hvalid hread
    obtain ⟨htext, rfl⟩ := Place.mk.inj hplace
    obtain rfl := List.append_left_eq_self.mp htext
    exact numeralAt_of_head (hrest.head ⟨by decide, by decide⟩ hhead)

/-- A reader may be followed by a look at what stands behind. -/
theorem IsLocal.numeralAt {read : Place → Token × Place} (h : IsLocal read) :
    IsLocal fun place => numeralAt (read place).1 (read place).2 := by
  refine ⟨fun place => ?_, fun {text rest rest' offset offset' token} hrest hvalid hread => ?_⟩
  · exact Nat.le_trans ((isLocal_numeralAt _).shorter _) (h.shorter place)
  · obtain ⟨htoken, hnext, hhead⟩ := numeralAt_eq hvalid hread
    have hsame := h.append hrest hvalid (Prod.ext htoken hnext)
    rw [hsame]
    rw [hnext] at hhead
    exact numeralAt_of_head (hrest.head ⟨by decide, by decide⟩ hhead)

/-- A reader may go by the first character: where `begins` accepts it, another reader goes on behind
it. -/
theorem IsLocal.headed {begins : Char → Bool} {behind : Char → Place → Token × Place}
    {read other : Place → Token × Place} (hclose : begins ')' = false)
    (hbehind : ∀ c, IsLocal (behind c)) (hother : IsLocal other)
    (hcons : ∀ c text offset, read ⟨c :: text, offset⟩ =
      if begins c then behind c ⟨text, offset + 1⟩ else other ⟨c :: text, offset⟩)
    (hnil : ∀ offset, read ⟨[], offset⟩ = other ⟨[], offset⟩) : IsLocal read := by
  have hskip {text : List Char} (hhead : ∀ c ∈ text.head?, begins c = false) (offset : Nat) :
      read ⟨text, offset⟩ = other ⟨text, offset⟩ := by
    cases text with
    | nil => exact hnil offset
    | cons c text => rw [hcons, hhead c rfl, if_neg (by decide)]
  refine ⟨fun ⟨text, offset⟩ => ?_, fun {text rest rest' offset offset' token} hrest hvalid hread => ?_⟩
  · cases text with
    | nil => exact hnil offset ▸ hother.shorter _
    | cons c text =>
      rw [hcons]
      split
      · exact Nat.le_trans ((hbehind c).shorter _) (Nat.le_succ _)
      · exact hother.shorter _
  · rcases text with _ | ⟨c, text⟩
    · have hhead : ∀ c ∈ rest.head?, begins c = false := by
        rcases rest with _ | ⟨c, rest⟩
        · nofun
        · rintro d ⟨⟩
          refine Bool.eq_false_iff.mpr fun hbegins => ?_
          rw [List.nil_append, hcons, if_pos hbegins] at hread
          have := (hbehind c).shorter ⟨rest, offset + 1⟩
          rw [hread] at this
          exact Nat.not_succ_le_self _ this
      rw [List.nil_append, hskip hhead] at hread
      have hsame := @IsLocal.append _ hother [] _ _ _ _ _ hrest hvalid hread
      rw [List.nil_append] at hsame ⊢
      rw [hskip (hrest.head hclose hhead), hsame]
    · rw [List.cons_append, hcons] at hread ⊢
      split at hread
      · next hbegins =>
        rw [if_pos hbegins]
        exact (hbehind c).append hrest hvalid hread
      · next hbegins =>
        rw [if_neg hbegins]
        exact @IsLocal.append _ hother (c :: text) _ _ _ _ _ hrest hvalid hread

theorem isLocal_done (token : Token) : IsLocal fun place => (token, place) := by
  refine ⟨fun place => Nat.le_refl _, fun {text rest rest' offset offset' token'} _ _ hread => ?_⟩
  obtain ⟨rfl, hplace⟩ := Prod.mk.inj hread
  obtain ⟨htext, rfl⟩ := Place.mk.inj hplace
  obtain rfl := List.append_left_eq_self.mp htext
  rfl

theorem length_of_readDigits (isDigit : Char → Bool) (place : Place) :
    (readDigits isDigit place).next.rest.length ≤ place.rest.length :=
  length_of_scanDigits _ _ _ _ _

/-- A run of digits does not depend on where it was begun. -/
theorem scanDigits_next (isDigit : Char → Bool) (afterDigit : Bool) (run : DigitRun) (next : Place)
    (offset : Nat) (text : List Char) : scanDigits isDigit afterDigit { run with next } offset text =
      scanDigits isDigit afterDigit run offset text := by
  induction text generalizing afterDigit run offset with
  | nil => rfl
  | cons c text ih =>
    unfold scanDigits
    split
    · exact ih true { run with count := run.count + 1 } _
    · split
      · exact ih false { run with separated := true, wellFormed := run.wellFormed && afterDigit } _
      · rfl

/-- Digits may be read first. -/
theorem IsLocal.digits {isDigit : Char → Bool} (hclose : isDigit ')' = false)
    {read : DigitRun → Token × Place}
    (hread : ∀ run : DigitRun, IsLocal fun place => read { run with next := place }) :
    IsLocal fun place => read (readDigits isDigit place) := by
  refine ⟨fun place => ?_, fun {text rest rest' offset offset' token} hrest hvalid hfound => ?_⟩
  · exact Nat.le_trans ((hread (readDigits isDigit place)).shorter (readDigits isDigit place).next)
      (length_of_readDigits isDigit place)
  · have hlength : rest.length ≤ (readDigits isDigit ⟨text ++ rest, offset⟩).next.rest.length := by
      have := (hread (readDigits isDigit ⟨text ++ rest, offset⟩)).shorter
        (readDigits isDigit ⟨text ++ rest, offset⟩).next
      simp only [hfound] at this
      exact this
    generalize hrun : readDigits isDigit ⟨text ++ rest, offset⟩ = run at hfound hlength
    obtain ⟨behind, hnext, hsame⟩ := scanDigits_append hclose hrest hrun hlength
    have hplace : run = { run with next := ⟨behind ++ rest, run.next.offset⟩ } := by
      rw [← hnext]
    rw [hplace] at hfound
    have hother : readDigits isDigit ⟨text ++ rest', offset⟩ =
        { run with next := ⟨behind ++ rest', run.next.offset⟩ } := by
      rw [← hsame]
      exact scanDigits_next _ _ ⟨0, false, true, ⟨text ++ rest, offset⟩⟩ _ _ _
    rw [hother]
    exact (hread run).append hrest hvalid hfound

/-! ### The parts of numerals -/

theorem isLocal_readExponent (wellFormed : Bool) : IsLocal (readExponent wellFormed) := by
  have hdigits : IsLocal fun place =>
      let run := readDigits isAsciiDigit place
      if wellFormed && run.wellFormed && run.count > 0 then (Token.number, run.next)
      else (.invalid, run.next) := by
    refine @IsLocal.digits isAsciiDigit (by decide) (fun run =>
      if wellFormed && run.wellFormed && run.count > 0 then (Token.number, run.next)
      else (.invalid, run.next)) fun run => ?_
    let token := if wellFormed && run.wellFormed && run.count > 0 then Token.number else .invalid
    refine (congrArg IsLocal (funext fun place => ?_)).mp (isLocal_done token)
    dsimp only [token]
    split <;> rfl
  refine @IsLocal.headed (fun c => c == '+' || c == '-') (fun _ => _) _ _ (by decide)
    (fun _ => hdigits) hdigits (fun c text offset => ?_) fun offset => rfl
  by_cases hsign : c = '+' ∨ c = '-'
  · rcases hsign with rfl | rfl <;> rfl
  · obtain ⟨hplus, hminus⟩ := not_or.mp hsign
    simp [readExponent, hplus, hminus]

/-- What may stand behind the digits of a decimal numeral. -/
def decimalExponent (wellFormed : Bool) (place : Place) : Token × Place :=
  match place.rest with
  | 'e' :: rest | 'E' :: rest => readExponent wellFormed ⟨rest, place.offset + 1⟩
  | _ => (if wellFormed then .number else .invalid, place)

theorem isLocal_endDecimal (wellFormed : Bool) : IsLocal (endDecimal wellFormed) := by
  have hexponent : IsLocal (decimalExponent wellFormed) := by
    refine @IsLocal.headed (fun c => c == 'e' || c == 'E') (fun _ => _) _ _ (by decide)
      (fun _ => isLocal_readExponent wellFormed)
      (isLocal_done (if wellFormed then .number else .invalid)) (fun c text offset => ?_) fun offset => rfl
    by_cases hsign : c = 'e' ∨ c = 'E'
    · rcases hsign with rfl | rfl <;> rfl
    · obtain ⟨hsmall, hlarge⟩ := not_or.mp hsign
      simp [decimalExponent, hsmall, hlarge]
  exact hexponent.numeralAt

theorem isLocal_endFraction (wellFormed : Bool) : IsLocal (endFraction wellFormed) :=
  @IsLocal.digits isAsciiDigit (by decide)
    (fun run => endDecimal (wellFormed && run.wellFormed) run.next)
    fun run => isLocal_endDecimal (wellFormed && run.wellFormed)

theorem isLocal_endInteger (wellFormed : Bool) : IsLocal (endInteger wellFormed) := by
  cases wellFormed with
  | false => exact isLocal_done .invalid
  | true =>
    refine @IsLocal.headed (fun c => c == 'n') (fun _ => _) _ _ (by decide)
      (fun _ => isLocal_numeralAt .bigint) (isLocal_numeralAt .number) (fun c text offset => ?_)
      fun offset => rfl
    by_cases hbig : c = 'n'
    · subst hbig
      rfl
    · simp [endInteger, hbig]

theorem isLocal_readBased {isDigit : Char → Bool} (hclose : isDigit ')' = false) :
    IsLocal (readBased isDigit) :=
  @IsLocal.digits isDigit hclose
    (fun run => endInteger (run.wellFormed && run.count > 0) run.next)
    fun run => isLocal_endInteger (run.wellFormed && run.count > 0)

/-- A reader may refuse some first characters. -/
theorem IsLocal.refusing {refused : Char → Bool} {read other : Place → Token × Place}
    (hclose : refused ')' = false) (hother : IsLocal other)
    (hcons : ∀ c text offset, read ⟨c :: text, offset⟩ =
      if refused c then (.invalid, ⟨c :: text, offset⟩) else other ⟨c :: text, offset⟩)
    (hnil : ∀ offset, read ⟨[], offset⟩ = other ⟨[], offset⟩) : IsLocal read := by
  have hskip {text : List Char} (hhead : ∀ c ∈ text.head?, refused c = false) (offset : Nat) :
      read ⟨text, offset⟩ = other ⟨text, offset⟩ := by
    cases text with
    | nil => exact hnil offset
    | cons c text => rw [hcons, hhead c rfl, if_neg (by decide)]
  refine ⟨fun ⟨text, offset⟩ => ?_, fun {text rest rest' offset offset' token} hrest hvalid hread => ?_⟩
  · cases text with
    | nil => exact hnil offset ▸ hother.shorter _
    | cons c text =>
      rw [hcons]
      split
      · exact Nat.le_refl _
      · exact hother.shorter _
  · have hhead : ∀ c ∈ (text ++ rest).head?, refused c = false := by
      generalize text ++ rest = whole at hread
      rcases whole with _ | ⟨c, whole⟩
      · nofun
      · rintro d ⟨⟩
        refine Bool.eq_false_iff.mpr fun hrefused => ?_
        rw [hcons, if_pos hrefused] at hread
        exact hvalid (congrArg Prod.fst hread).symm
    rw [hskip hhead] at hread
    have hhead' : ∀ c ∈ (text ++ rest').head?, refused c = false := by
      cases text with
      | nil => exact hrest.head hclose hhead
      | cons c text => exact hhead
    rw [hskip hhead']
    exact hother.append hrest hvalid hread

/-- What follows the digits of a decimal numeral. -/
def behindDigits (wellFormed : Bool) (place : Place) : Token × Place :=
  match place.rest with
  | '.' :: rest => endFraction wellFormed ⟨rest, place.offset + 1⟩
  | 'n' :: _ => endInteger wellFormed place
  | _ => endDecimal wellFormed place

/-- A big integer is read behind its mark, or refused at it. -/
def bigInteger (wellFormed : Bool) (place : Place) : Token × Place :=
  match place.rest with
  | 'n' :: _ => endInteger wellFormed place
  | _ => endDecimal wellFormed place

theorem isLocal_readDecimal : IsLocal readDecimal := by
  refine @IsLocal.digits isAsciiDigit (by decide)
    (fun run => behindDigits run.wellFormed run.next) fun run => ?_
  dsimp only
  generalize run.wellFormed = wellFormed
  have hbig : IsLocal (bigInteger wellFormed) := by
    cases wellFormed with
    | true =>
      refine @IsLocal.headed (fun c => c == 'n') (fun _ => _) _ _ (by decide)
        (fun _ => isLocal_numeralAt .bigint) (isLocal_endDecimal true) (fun c text offset => ?_)
        fun offset => rfl
      by_cases hmark : c = 'n'
      · subst hmark
        rfl
      · simp [bigInteger, hmark]
    | false =>
      refine @IsLocal.refusing (fun c => c == 'n') _ _ (by decide) (isLocal_endDecimal false)
        (fun c text offset => ?_) fun offset => rfl
      by_cases hmark : c = 'n'
      · subst hmark
        rfl
      · simp [bigInteger, hmark]
  refine @IsLocal.headed (fun c => c == '.') (fun _ => _) _ _ (by decide)
    (fun _ => isLocal_endFraction wellFormed) hbig (fun c text offset => ?_) fun offset => rfl
  by_cases hpoint : c = '.'
  · subst hpoint
    rfl
  · by_cases hmark : c = 'n'
    · subst hmark
      rfl
    · simp [behindDigits, bigInteger, hpoint, hmark]

/-- Characters taken from the front of a text, where the text behind is left whole. -/
theorem exists_takeWhile_append {test : Char → Bool} (hclose : test ')' = false)
    (hrest : StopsAlike rest rest') {text : List Char}
    (hlength : (List.takeWhile test (text ++ rest)).length ≤ text.length) :
    ∃ front behind, text = front ++ behind ∧ List.takeWhile test (text ++ rest) = front ∧
      List.takeWhile test (text ++ rest') = front := by
  induction text with
  | nil =>
    have hnone : List.takeWhile test rest = [] := by simpa using hlength
    refine ⟨[], [], rfl, hnone, ?_⟩
    have hhead : ∀ c ∈ rest.head?, test c = false := by
      rcases rest with _ | ⟨c, rest⟩
      · nofun
      · rintro d ⟨⟩
        refine Bool.eq_false_iff.mpr fun htest => ?_
        rw [List.takeWhile_cons, if_pos htest] at hnone
        cases hnone
    rcases rest' with _ | ⟨c, rest'⟩
    · rfl
    · have := hrest.head hclose hhead c rfl
      simp [this]
  | cons c text ih =>
    rw [List.cons_append, List.cons_append, List.takeWhile_cons, List.takeWhile_cons]
    rw [List.cons_append, List.takeWhile_cons] at hlength
    split
    · next htest =>
      rw [if_pos htest] at hlength
      obtain ⟨front, behind, rfl, hfirst, hsecond⟩ := ih (by simpa using hlength)
      exact ⟨c :: front, behind, rfl, by rw [hfirst], by rw [hsecond]⟩
    · exact ⟨[], c :: text, rfl, rfl, rfl⟩

/-- What follows the digits of a numeral that begins with a zero, if not all of these are octal. -/
def behindZeroLed (place : Place) : Token × Place :=
  match place.rest with
  | '.' :: rest => endFraction true ⟨rest, place.offset + 1⟩
  | 'e' :: rest => readExponent true ⟨rest, place.offset + 1⟩
  | _ => numeralAt .number place

/-- The exponent of such a numeral, if it has one. -/
def zeroLedExponent (place : Place) : Token × Place :=
  match place.rest with
  | 'e' :: rest => readExponent true ⟨rest, place.offset + 1⟩
  | _ => numeralAt .number place

theorem isLocal_behindZeroLed : IsLocal behindZeroLed := by
  have hexponent : IsLocal zeroLedExponent := by
    refine @IsLocal.headed (fun c => c == 'e') (fun _ => _) _ _ (by decide)
      (fun _ => isLocal_readExponent true) (isLocal_numeralAt .number) (fun c text offset => ?_)
      fun offset => rfl
    by_cases hmark : c = 'e'
    · subst hmark
      rfl
    · simp [zeroLedExponent, hmark]
  refine @IsLocal.headed (fun c => c == '.') (fun _ => _) _ _ (by decide)
    (fun _ => isLocal_endFraction true) hexponent (fun c text offset => ?_) fun offset => rfl
  by_cases hpoint : c = '.'
  · subst hpoint
    rfl
  · by_cases hmark : c = 'e'
    · subst hmark
      rfl
    · simp [behindZeroLed, zeroLedExponent, hpoint, hmark]

/-- How a numeral that begins with a zero goes on behind its digits. -/
def endZeroLed (digits : List Char) : Place → Token × Place :=
  if digits.all isOctalDigit then numeralAt .number else behindZeroLed

theorem isLocal_endZeroLed (digits : List Char) : IsLocal (endZeroLed digits) := by
  unfold endZeroLed
  split
  · exact isLocal_numeralAt .number
  · exact isLocal_behindZeroLed

theorem readZeroLed_eq (text : List Char) (offset : Nat) : readZeroLed ⟨text, offset⟩ =
    endZeroLed (text.takeWhile isAsciiDigit) ⟨text.drop (text.takeWhile isAsciiDigit).length,
      offset + (text.takeWhile isAsciiDigit).length⟩ := by
  unfold readZeroLed endZeroLed
  dsimp only
  split <;> rfl

/-- Digits behind a zero are read before what follows them. -/
theorem isLocal_readZeroLed : IsLocal readZeroLed := by
  refine ⟨fun ⟨text, offset⟩ => ?_, fun {text rest rest' offset offset' token} hrest hvalid hfound => ?_⟩
  · rw [readZeroLed_eq]
    refine Nat.le_trans ((isLocal_endZeroLed _).shorter _) ?_
    simp
  · rw [readZeroLed_eq] at hfound ⊢
    have hlength : (List.takeWhile isAsciiDigit (text ++ rest)).length ≤ text.length := by
      have hshorter := (isLocal_endZeroLed ((text ++ rest).takeWhile isAsciiDigit)).shorter
        ⟨(text ++ rest).drop ((text ++ rest).takeWhile isAsciiDigit).length,
          offset + ((text ++ rest).takeWhile isAsciiDigit).length⟩
      rw [hfound] at hshorter
      have htake := (List.takeWhile_prefix isAsciiDigit (l := text ++ rest)).length_le
      simp only [List.length_drop, List.length_append] at hshorter htake
      omega
    obtain ⟨front, tail, rfl, hfirst, hsecond⟩ :=
      exists_takeWhile_append (by decide) hrest hlength
    rw [hfirst] at hfound
    rw [hsecond]
    rw [List.append_assoc, List.drop_left] at hfound ⊢
    exact (isLocal_endZeroLed front).append hrest hvalid hfound

theorem length_of_readZeroLed {c : Char} (hdigit : isAsciiDigit c = true) (text : List Char)
    (offset : Nat) : (readZeroLed ⟨'0' :: c :: text, offset⟩).2.rest.length ≤ text.length := by
  rw [readZeroLed_eq]
  refine Nat.le_trans ((isLocal_endZeroLed _).shorter _) ?_
  rw [List.takeWhile_cons, if_pos (by decide), List.takeWhile_cons, if_pos hdigit]
  simp only [List.length_drop, List.length_cons]
  omega

/-- What a zero and a further character begin. -/
def markedNumeral? : Char → Option (Place → Token × Place)
  | 'x' | 'X' => some (readBased isHexDigit)
  | 'o' | 'O' => some (readBased isOctalDigit)
  | 'b' | 'B' => some (readBased isBinaryDigit)
  | 'e' | 'E' => some (readExponent true)
  | _ => none

theorem isLocal_of_markedNumeral? {c : Char} {read : Place → Token × Place}
    (h : markedNumeral? c = some read) : IsLocal read := by
  unfold markedNumeral? at h
  split at h <;> cases h
  all_goals first
    | exact isLocal_readBased (by decide)
    | exact isLocal_readExponent true

theorem readNumeral_zero (c : Char) (text : List Char) (offset : Nat) :
    readNumeral ⟨'0' :: c :: text, offset⟩ =
      match markedNumeral? c with
      | some read => read ⟨text, offset + 2⟩
      | none =>
        if isAsciiDigit c then readZeroLed ⟨'0' :: c :: text, offset⟩
        else if c == '_' then (.invalid, ⟨c :: text, offset + 1⟩)
        else readDecimal ⟨'0' :: c :: text, offset⟩ := by
  unfold readNumeral markedNumeral?
  split <;> simp_all

/-- Whether a zero that `c` follows is read as a decimal numeral. -/
def IsPlainBehindZero (c : Char) : Prop :=
  markedNumeral? c = none ∧ isAsciiDigit c = false ∧ (c == '_') = false

theorem readNumeral_zero_of_head {text : List Char} (offset : Nat)
    (hhead : ∀ c ∈ text.head?, IsPlainBehindZero c) :
    readNumeral ⟨'0' :: text, offset⟩ = readDecimal ⟨'0' :: text, offset⟩ := by
  cases text with
  | nil => rfl
  | cons c text =>
    obtain ⟨hmark, hdigit, hunderscore⟩ := hhead c rfl
    rw [readNumeral_zero, hmark]
    dsimp only
    rw [if_neg (by simp [hdigit]), if_neg (by simp [hunderscore])]

theorem readNumeral_of_ne_zero {c : Char} (hzero : c ≠ '0') (text : List Char) (offset : Nat) :
    readNumeral ⟨c :: text, offset⟩ = readDecimal ⟨c :: text, offset⟩ := by
  unfold readNumeral
  split <;> simp_all

/-- A numeral stays the same if what stands behind it is replaced by something that looks the same. -/
theorem readNumeral_append {c : Char} {text : List Char} {offset offset' : Nat} {token : Token}
    (hrest : StopsAlike rest rest') (hvalid : token ≠ .invalid)
    (hread : readNumeral ⟨c :: (text ++ rest), offset⟩ = (token, ⟨rest, offset'⟩)) :
    readNumeral ⟨c :: (text ++ rest'), offset⟩ = (token, ⟨rest', offset'⟩) := by
  by_cases hzero : c ≠ '0'
  · rw [readNumeral_of_ne_zero hzero] at hread ⊢
    exact @IsLocal.append _ isLocal_readDecimal (c :: text) _ _ _ _ _ hrest hvalid hread
  obtain rfl : c = '0' := Decidable.not_not.mp hzero
  rcases text with _ | ⟨c, text⟩
  · -- A lone zero: what follows it begins no numeral of another kind.
    rw [List.nil_append] at hread ⊢
    have hhead : ∀ c ∈ rest.head?, IsPlainBehindZero c := by
      rcases rest with _ | ⟨c, rest⟩
      · nofun
      rintro d ⟨⟩
      rw [readNumeral_zero] at hread
      have hlonger {found : Token × Place} (hle : found.2.rest.length ≤ rest.length) :
          found ≠ (token, ⟨c :: rest, offset'⟩) := by
        rintro rfl
        exact Nat.not_succ_le_self _ hle
      cases hmark : markedNumeral? c with
      | some read =>
        rw [hmark] at hread
        exact absurd hread (hlonger ((isLocal_of_markedNumeral? hmark).shorter _))
      | none =>
        rw [hmark] at hread
        dsimp only at hread
        split at hread
        · next hdigit => exact absurd hread (hlonger (length_of_readZeroLed hdigit rest offset))
        · next hdigit =>
          split at hread
          · exact absurd (congrArg Prod.fst hread).symm hvalid
          · next hunderscore => exact ⟨hmark, by simpa using hdigit, by simpa using hunderscore⟩
    have hclose : IsPlainBehindZero ')' := ⟨rfl, by decide, rfl⟩
    rw [readNumeral_zero_of_head _ hhead] at hread
    rw [readNumeral_zero_of_head _ (hrest.head hclose hhead)]
    exact @IsLocal.append _ isLocal_readDecimal ['0'] _ _ _ _ _ hrest hvalid hread
  · rw [List.cons_append, readNumeral_zero] at hread ⊢
    cases hmark : markedNumeral? c with
    | some read =>
      rw [hmark] at hread
      exact (isLocal_of_markedNumeral? hmark).append hrest hvalid hread
    | none =>
      rw [hmark] at hread
      dsimp only at hread ⊢
      split at hread
      · next hdigit =>
        rw [if_pos hdigit]
        exact @IsLocal.append _ isLocal_readZeroLed ('0' :: c :: text) _ _ _ _ _ hrest hvalid hread
      · next hdigit =>
        rw [if_neg hdigit]
        split at hread
        · exact absurd (congrArg Prod.fst hread).symm hvalid
        · next hunderscore =>
          rw [if_neg hunderscore]
          exact @IsLocal.append _ isLocal_readDecimal ('0' :: c :: text) _ _ _ _ _ hrest hvalid hread

end ModuleLinkage.Syntax
