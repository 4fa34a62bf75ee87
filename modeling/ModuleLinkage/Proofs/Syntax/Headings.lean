import ModuleLinkage.Proofs.Lowering.PieceTokens
import ModuleLinkage.Proofs.Syntax.Ordering.Heads

/-!
# Words at the head of a declaration

A function or class begins with words, and perhaps a star, that are read one after another with gaps
between them. Where something is put behind them is read the same way if it does not go on with the last
of them (`Heads.run`): so is a name that a gap parts from it (`Heads.exists_named`). The words of a
function lead to its bracket (`FunctionHead.exists_heads`), those of a class to the end of its keyword
(`ClassHead.exists_heads`).
-/

set_option autoImplicit false

namespace ModuleLinkage.Syntax

open Text Unicode Lowering

/-! ### Places -/

theorem width_pos {text : List Char} (h : text ≠ []) : 0 < width text := by
  obtain ⟨c, rest, rfl⟩ := List.exists_cons_of_ne_nil h
  rw [width_cons]
  exact Nat.lt_add_right _ c.utf8Size_pos

/-- What a place leads to is the slice of the text up to there. -/
theorem Place.Leads.slice {source body : List Char} {place next : Place} (h : place.Leads body next)
    (hplace : place.In source) : Text.slice source ⟨place.offset, next.offset⟩ = body := by
  rw [Text.slice, hplace.dropBytes, h.rest, h.offset, Nat.add_sub_cancel_left, takeBytes_width]

/-- A gap is skipped alike wherever it stands. -/
theorem skipGap_moved {markers newline : Bool} {mode : GapMode} {skip offset : Nat}
    {text : List Char} {gap : Gap} (hskip : skipGap markers mode skip newline offset text = some gap) :
    ∃ body, Place.Leads ⟨text, offset⟩ body gap.next ∧ ∀ offset',
      skipGap markers mode skip newline offset' text =
        some ⟨gap.newline, ⟨gap.next.rest, offset' + width body⟩⟩ := by
  induction text generalizing mode skip newline offset with
  | nil =>
    unfold skipGap at hskip ⊢
    split at hskip
    · cases hskip
    · next hopen =>
      cases hskip
      exact ⟨[], ⟨rfl, rfl⟩, fun offset' => if_neg hopen⟩
  | cons c text ih =>
    have hbehind {mode : GapMode} {skip : Nat} {newline : Bool}
        (hrest : skipGap markers mode skip newline (offset + c.utf8Size) text = some gap) :
        ∃ body, Place.Leads ⟨c :: text, offset⟩ body gap.next ∧ ∀ offset',
          skipGap markers mode skip newline (offset' + c.utf8Size) text =
            some ⟨gap.newline, ⟨gap.next.rest, offset' + width body⟩⟩ := by
      obtain ⟨body, hleads, hmoved⟩ := ih hrest
      refine ⟨c :: body, (Place.leads_append [c] text offset).append hleads, fun offset' => ?_⟩
      rw [hmoved, width_cons, Nat.add_assoc]
    unfold skipGap at hskip ⊢
    dsimp only at hskip ⊢
    split at hskip
    · exact hbehind hskip
    · split at hskip
      · next hbreak =>
        simp only [if_pos hbreak]
        exact hbehind hskip
      · next hbreak =>
        simp only [if_neg hbreak]
        exact hbehind hskip
    · split at hskip
      · next hend =>
        simp only [if_pos hend]
        exact hbehind hskip
      · next hend =>
        simp only [if_neg hend]
        exact hbehind hskip
    · split at hskip
      · exact hbehind hskip
      · split at hskip
        · next hbreak =>
          simp only [if_pos hbreak]
          exact hbehind hskip
        · next hbreak =>
          simp only [if_neg hbreak]
          split at hskip
          · next hspace =>
            simp only [if_pos hspace]
            exact hbehind hskip
          · next hspace =>
            simp only [if_neg hspace]
            cases hskip
            exact ⟨[], ⟨rfl, rfl⟩, fun _ => rfl⟩

/-! ### Words and stars -/

/-- Whether a token is a word that is written without escapes, or a star. -/
def Token.IsHead (token : Token) : Prop :=
  (∃ word : String, isPlainIdentifier word.toList = true ∧ token = .plain word) ∨
    token = .punctuator "*"

theorem Token.IsHead.ne_invalid {token : Token} (h : token.IsHead) : token ≠ .invalid := by
  rcases h with ⟨word, -, rfl⟩ | rfl <;> nofun

/-- Whether a text begins with a character that neither a word nor a star goes on with. -/
def Interrupts (text : List Char) : Prop :=
  ∃ c ∈ text.head?, isIdentifierPart c = false ∧ c ∉ ['\\', '*', '=']

/-- A star is read as one where no longer mark stands. -/
theorem readToken_star_iff (rest : List Char) (offset : Nat) : readToken ⟨'*' :: rest, offset⟩ =
    (.punctuator "*", ⟨rest, offset + 1⟩) ↔ ∀ c ∈ rest.head?, c ≠ '*' ∧ c ≠ '=' := by
  have hmarks : isIdentifierStart '*' = false ∧ isAsciiDigit '*' = false := by decide
  have hread : readToken ⟨'*' :: rest, offset⟩ = readPunctuator punctuators ⟨'*' :: rest, offset⟩ := by
    simp [readToken, hmarks]
  rw [hread]
  rcases rest with _ | ⟨c, rest⟩
  · exact iff_of_true rfl (fun _ hc => absurd hc (Option.not_mem_none _))
  by_cases hequal : c = '='
  · subst hequal
    exact iff_of_false (by simp [readPunctuator, punctuators, standsAt, dropStart?]) (by simp)
  by_cases hstar : c = '*'
  · subst hstar
    refine iff_of_false ?_ (by simp)
    rcases rest with _ | ⟨d, rest⟩
    · simp [readPunctuator, punctuators, standsAt, dropStart?]
    · by_cases hd : '=' = d
      · subst hd
        simp [readPunctuator, punctuators, standsAt, dropStart?]
      · simp [readPunctuator, punctuators, standsAt, dropStart?, hd]
  · refine iff_of_true ?_ (by simp [hequal, hstar])
    simp [readPunctuator, punctuators, standsAt, dropStart?, Ne.symm hequal, Ne.symm hstar]
    rfl

theorem Interrupts.not_continuesName {text : List Char} (h : Interrupts text) : ¬ ContinuesName text := by
  obtain ⟨c, hc, hpart, hother⟩ := h
  rintro ⟨d, hd, hcontinues⟩
  obtain rfl := Option.mem_unique hc hd
  rcases hcontinues with hcontinues | rfl
  · rw [hpart] at hcontinues
    cases hcontinues
  · exact hother (by decide)

/-- A word without escapes is read where its characters stand and no name goes on behind them. -/
theorem leads_of_readToken_plain {place next : Place} {word : String}
    (hword : isPlainIdentifier word.toList = true) (hread : readToken place = (.plain word, next)) :
    place.Leads word.toList next ∧ ¬ ContinuesName next.rest := by
  have hname := isIdentifier_of_isPlainIdentifier hword
  obtain ⟨text, offset⟩ := place
  obtain ⟨body, hbody, hspells⟩ := lexes_readToken ⟨text, offset⟩
  rw [hread] at hbody hspells
  obtain ⟨-, -, hplain⟩ := hspells
  obtain ⟨tail, rfl, htail⟩ := hplain rfl
  have htext : text = word.toList ++ (tail ++ next.rest) := by
    rw [← List.append_assoc]
    exact hbody.rest
  -- A hyphen would end the word.
  obtain rfl : tail = [] := by
    rcases tail with _ | ⟨c, tail⟩
    · rfl
    obtain rfl := htail c rfl
    have hends : ¬ ContinuesName ('-' :: tail ++ next.rest) := by
      rw [List.cons_append, continuesName_cons]
      decide
    rw [htext, readToken_identifier hname hends] at hread
    have hrest := congrArg (fun found => found.2.rest.length) hread
    simp only [List.length_append, List.length_cons] at hrest
    omega
  rw [List.append_nil] at hbody
  refine ⟨hbody, (readToken_identifier_iff hname next.rest offset).mp ?_⟩
  rw [← hbody.rest, String.ofList_toList, hread]
  exact Prod.ext rfl (by rw [← hbody.offset])

theorem isBlank_of_isPlainPart {c : Char} (hc : isPlainPart c = true) : isBlank c = false := by
  by_contra hblank
  rw [isPlainPart_of_separates (separates_of_isBlank (by simpa using hblank))] at hc
  cases hc

/-- Words and stars are read alike in front of other texts that do not go on with them. -/
theorem Token.IsHead.exists_body {token : Token} (h : token.IsHead) {place next : Place}
    (hread : readToken place = (token, next)) : ∃ body, place.Leads body next ∧ body ≠ [] ∧
      (∀ c ∈ body, isBlank c = false) ∧ (∀ text, StartsToken (body ++ text)) ∧ ∀ text,
        (text.head? = next.rest.head? ∨ Interrupts text) → ∀ offset,
          readToken ⟨body ++ text, offset⟩ = (token, ⟨text, offset + width body⟩) := by
  rcases h with ⟨word, hword, rfl⟩ | rfl
  · obtain ⟨hleads, hends⟩ := leads_of_readToken_plain hword hread
    have hname := isIdentifier_of_isPlainIdentifier hword
    obtain ⟨hnonempty, hletters⟩ := letters_of_isPlainIdentifier hword
    refine ⟨word.toList, hleads, hnonempty,
      fun d hd => isBlank_of_isPlainPart (List.all_eq_true.mp hletters d hd),
      fun text => startsToken_identifier hname, fun text hhead offset => ?_⟩
    rw [readToken_identifier hname, String.ofList_toList]
    · rfl
    · rcases hhead with hhead | hinterrupts
      · rwa [ContinuesName, hhead]
      · exact hinterrupts.not_continuesName
  · obtain ⟨text, offset⟩ := place
    obtain ⟨body, hbody, hspells⟩ := lexes_readToken ⟨text, offset⟩
    rw [hread] at hbody hspells
    obtain rfl : body = ['*'] := hspells
    have hstar := (readToken_star_iff next.rest offset).mp (by
      rw [show '*' :: next.rest = text from hbody.rest.symm, hread]
      exact Prod.ext rfl (by rw [← show next.offset = offset + 1 from hbody.offset]))
    refine ⟨['*'], hbody, List.cons_ne_nil _ _, List.forall_mem_singleton.mpr (by decide +kernel),
      fun text => startsToken_cons (by decide) _,
      fun text hhead offset => (readToken_star_iff text offset).mpr ?_⟩
    rcases hhead with hhead | ⟨c, hc, -, hother⟩
    · rwa [hhead]
    · intro d hd
      obtain rfl := Option.mem_unique hc hd
      simp only [List.mem_cons, List.not_mem_nil, or_false, not_or] at hother
      exact hother.2

theorem isHead_plain {word : String} (hword : isPlainIdentifier word.toList = true) :
    (Token.plain word).IsHead :=
  .inl ⟨word, hword, rfl⟩

theorem isHead_of_mem_functionHeads {tokens : List Token} (htokens : tokens ∈ functionHeads)
    {token : Token} (htoken : token ∈ tokens) : token.IsHead := by
  have hheads : ∀ tokens ∈ functionHeads, ∀ token ∈ tokens,
      token ∈ [.plain "async", .plain "function", .punctuator "*"] := by
    decide
  have hmem := hheads tokens htokens token htoken
  simp only [List.mem_cons, List.not_mem_nil, or_false] at hmem
  rcases hmem with rfl | rfl | rfl
  · exact isHead_plain (by decide)
  · exact isHead_plain (by decide)
  · exact .inr rfl

theorem Lexeme.Precedes.isHead_first {markers : Bool} {first last : Lexeme} {tokens : List Token}
    (h : first.Precedes markers tokens last) (htokens : ∀ token ∈ tokens, token.IsHead)
    (hlast : last.token.IsHead) : first.token.IsHead := by
  cases h with
  | self => exact hlast
  | next => exact htokens _ List.mem_cons_self

/-- A punctuator is read where its characters stand. -/
theorem leads_of_readToken_punctuator {place next : Place} {mark : String}
    (hread : readToken place = (.punctuator mark, next)) : place.Leads mark.toList next := by
  obtain ⟨body, hbody, hspells⟩ := lexes_readToken place
  rw [hread] at hbody hspells
  obtain rfl : body = mark.toList := hspells
  exact hbody

/-- What may follow the keyword of a class takes some text. -/
theorem lt_of_mem_classTails {place next : Place} {token : Token} (htoken : token ∈ classTails)
    (hread : readToken place = (token, next)) : place.offset < next.offset := by
  have hmark {mark : String} (hmark : mark.toList ≠ []) (htoken : token = .punctuator mark) :
      place.offset < next.offset := by
    subst htoken
    rw [(leads_of_readToken_punctuator hread).offset]
    exact Nat.lt_add_of_pos_right (width_pos hmark)
  have hword {word : String} (hword : isPlainIdentifier word.toList = true)
      (htoken : token = .plain word) : place.offset < next.offset := by
    subst htoken
    rw [(leads_of_readToken_plain hword hread).1.offset]
    exact Nat.lt_add_of_pos_right (width_pos (letters_of_isPlainIdentifier hword).1)
  simp only [classTails, List.mem_cons, List.not_mem_nil, or_false] at htoken
  rcases htoken with htoken | htoken | htoken | htoken
  · exact hmark (by decide) htoken
  · exact hword (by decide) htoken
  · exact hword (by decide) htoken
  · exact hmark (by decide) htoken

/-- Whether a name ends before a text does not depend on what its first character stands before. -/
theorem not_continuesName_append {first second second' : List Char} (hfirst : first ≠ [])
    (h : ¬ ContinuesName (first ++ second)) : ¬ ContinuesName (first ++ second') := by
  obtain ⟨c, rest, rfl⟩ := List.exists_cons_of_ne_nil hfirst
  rw [List.cons_append, continuesName_cons] at h ⊢
  exact h

theorem interrupts_blank (rest : List Char) : Interrupts (' ' :: rest) :=
  ⟨' ', rfl, by decide, by decide⟩

/-! ### Heads -/

/-- How the words and stars that something begins with are read: as `pieces`, behind which a gap stands,
and then what is not read any more. They are read alike in front of other texts that do not go on with
them. -/
structure Heads (tokens : List Token) (place : Place) (pieces : List Piece) (gap : List Char)
    (behind : Place) : Prop where
  leads : place.Leads (textOf pieces gap) behind
  tokens : pieces.map Piece.token = tokens
  ends : ∀ c ∈ (textOf pieces []).getLast?, isBlank c = false
  skipped : ∃ newline, ∀ offset, skipGap false .open 0 false offset (gap ++ behind.rest) =
    some ⟨newline, ⟨behind.rest, offset + width gap⟩⟩
  stands : ∀ text, (text.head? = (gap ++ behind.rest).head? ∨ Interrupts text) → AllStand pieces text

/-- A token that is read next stands behind a gap. -/
theorem exists_of_readLexeme {place : Place} (hvalid : (readLexeme false false place).token ≠ .invalid) :
    ∃ gap newline behind, place.Leads gap behind ∧
      (readLexeme false false place).span.start = behind.offset ∧
      (∀ offset, skipGap false .open 0 false offset (gap ++ behind.rest) =
        some ⟨newline, ⟨behind.rest, offset + width gap⟩⟩) ∧
      readToken behind = ((readLexeme false false place).token, (readLexeme false false place).next) := by
  unfold readLexeme at hvalid ⊢
  split at hvalid
  · next found hfound =>
    obtain ⟨gap, hleads, hmoved⟩ := skipGap_moved hfound
    refine ⟨gap, found.newline, found.next, hleads, rfl, fun offset => ?_, rfl⟩
    rw [← hleads.rest]
    exact hmoved offset
  · exact absurd rfl hvalid

/-- Where a word or a star is read, nothing is read before it. -/
theorem heads_nil {place next : Place} {token : Token} (htoken : token.IsHead)
    (hread : readToken place = (token, next)) : Heads [] place [] [] place where
  leads := ⟨rfl, rfl⟩
  tokens := rfl
  ends := nofun
  skipped := by
    obtain ⟨body, hbody, -, -, hstarts, -⟩ := htoken.exists_body hread
    refine ⟨false, fun offset => ?_⟩
    rw [List.nil_append, hbody.rest]
    exact skipGap_of_startsToken (hstarts _) false offset
  stands _ _ := trivial

section Reading

variable {tokens : List Token} {place behind : Place} {pieces : List Piece} {gap : List Char}
  {first last : Lexeme}

/-- One more word or star is read. -/
theorem Heads.step (h : Heads tokens place pieces gap behind)
    (hread : readToken behind = (first.token, first.next)) (hfirst : first.token.IsHead)
    (hvalid : (readLexeme false false first.next).token ≠ .invalid) :
    ∃ piece gap' behind', piece.gap = gap ∧ behind.Leads piece.body first.next ∧
      Heads (tokens ++ [first.token]) place (pieces ++ [piece]) gap' behind' ∧
        (readLexeme false false first.next).span.start = behind'.offset ∧
          readToken behind' =
            ((readLexeme false false first.next).token, (readLexeme false false first.next).next) := by
  obtain ⟨newline, hskipped⟩ := h.skipped
  obtain ⟨body, hbody, hnonempty, hblanks, hstarts, hreads⟩ := hfirst.exists_body hread
  obtain ⟨gap', newline', behind', hleads', hstart', hskipped', hread'⟩ := exists_of_readLexeme hvalid
  have hgap (text : List Char) (offset : Nat) :
      skipGap false .open 0 false offset (gap ++ (body ++ text)) =
        some ⟨newline, ⟨body ++ text, offset + width gap⟩⟩ := by
    refine skipGap_append (hstarts text) (fun hnil => ?_) (hskipped offset)
    rw [hbody.rest] at hnil
    exact absurd (List.append_eq_nil_iff.mp hnil).1 hnonempty
  have hhead (text : List Char) : (gap ++ (body ++ text)).head? = (gap ++ behind.rest).head? := by
    obtain ⟨c, chars, rfl⟩ := List.exists_cons_of_ne_nil hnonempty
    rw [hbody.rest]
    cases gap <;> rfl
  refine ⟨⟨gap, newline, .plain, body, first.token⟩, gap', behind', rfl, hbody, ⟨?_, ?_, ?_,
    ⟨newline', hskipped'⟩, fun text htext => allStand_append.mpr ⟨h.stands _ (.inl ?_), ⟨
      hfirst.ne_invalid, hnonempty, .inr (hgap text), hreads text ?_⟩, trivial⟩⟩, hstart', hread'⟩
  · have hleads := (h.leads.append hbody).append hleads'
    rwa [show textOf pieces gap ++ body ++ gap' = textOf (pieces ++ [⟨gap, newline, .plain, body,
      first.token⟩]) gap' by simp [textOf, Piece.chars]] at hleads
  · rw [List.map_append, h.tokens, List.map_singleton]
  · rw [textOf_append, textOf_cons]
    intro c hc
    refine hblanks c (List.mem_of_getLast? ?_)
    simpa [textOf, hnonempty] using hc
  · rw [textOf_cons]
    exact hhead text
  · rwa [hleads'.rest]

/-- **Heads.** Words and stars that follow each other are read up to what stands behind them. -/
theorem Heads.run {more : List Token} (h : Heads tokens place pieces gap behind)
    (hread : readToken behind = (first.token, first.next)) (hstart : first.span.start = behind.offset)
    (hprecedes : first.Precedes false more last) (hmore : ∀ token ∈ more, token.IsHead)
    (hlast : last.token ≠ .invalid) : ∃ pieces gap behind, Heads (tokens ++ more) place pieces gap behind ∧
      last.span.start = behind.offset ∧ readToken behind = (last.token, last.next) := by
  induction hprecedes generalizing tokens pieces gap behind with
  | self lexeme => exact ⟨pieces, gap, behind, by rwa [List.append_nil], hstart, hread⟩
  | @next first last more hprecedes ih =>
    rw [List.forall_mem_cons] at hmore
    have hvalid : (readLexeme false false first.next).token ≠ .invalid := by
      cases hprecedes with
      | self => exact hlast
      | next => exact (hmore.2 _ List.mem_cons_self).ne_invalid
    obtain ⟨piece, gap', behind', -, -, hheads, hstart', hread'⟩ := h.step hread hmore.1 hvalid
    rw [List.append_cons]
    exact ih hheads hread' hstart' hmore.2 hlast

/-- Words and stars, of which there is at least one, take some text. -/
theorem Heads.text_ne_nil (h : Heads tokens place pieces gap behind) (htokens : tokens ≠ []) :
    textOf pieces [] ≠ [] := by
  have hpieces : pieces ≠ [] := fun hnil => htokens (by rw [← h.tokens, hnil, List.map_nil])
  obtain ⟨piece, more, rfl⟩ := List.exists_cons_of_ne_nil hpieces
  have hstands := (h.stands [' '] (.inr (interrupts_blank []))).1
  rw [textOf_cons]
  simp [hstands.nonempty]

/-! ### Names behind heads -/

/-- Whether a gap is skipped as such before any token. -/
def IsGap (gap : List Char) : Prop :=
  ∃ newline, ∀ text, StartsToken text → ∀ offset, skipGap false .open 0 false offset (gap ++ text) =
    some ⟨newline, ⟨text, offset + width gap⟩⟩

theorem isGap_blank : IsGap [' '] :=
  ⟨false, fun _ hstarts offset => skipGap_of_startsToken hstarts false (offset + 1)⟩

theorem Heads.isGap (h : Heads tokens place pieces gap behind) (hbehind : behind.rest ≠ []) :
    IsGap gap := by
  obtain ⟨newline, hskipped⟩ := h.skipped
  exact ⟨newline, fun text hstarts offset =>
    skipGap_append hstarts (fun hnil => absurd hnil hbehind) (hskipped offset)⟩

/-- A blank may be put behind a gap. -/
theorem Heads.isGap_append (h : Heads tokens place pieces gap behind) (hbehind : behind.rest ≠ []) :
    IsGap (gap ++ [' ']) := by
  obtain ⟨newline, hskipped⟩ := h.skipped
  refine ⟨newline, fun text hstarts offset => ?_⟩
  rw [List.append_assoc, skipGap_append_eq (fun hnil => absurd hnil hbehind) (hskipped offset),
    width_append, ← Nat.add_assoc]
  exact skipGap_of_startsToken hstarts newline (offset + width gap + 1)

/-- **Names.** A name that a gap parts from words and stars is read behind them. -/
theorem Heads.exists_named (h : Heads tokens place pieces gap behind) {name : String}
    (hname : isIdentifier name.toList = true) {gap' : List Char} (hgap : IsGap gap')
    (hhead : ∀ text, (gap' ++ text).head? = (gap ++ behind.rest).head? ∨ Interrupts (gap' ++ text)) :
    ∃ named, named.map Piece.token = tokens ++ [.plain name] ∧
      ∀ rest, ¬ ContinuesName rest → ReadAs named (textOf pieces gap' ++ name.toList) rest := by
  obtain ⟨newline, hskip⟩ := hgap
  refine ⟨pieces ++ [namePiece gap' newline name], ?_, fun rest hrest => ⟨?_, ?_⟩⟩
  · rw [List.map_append, h.tokens]
    rfl
  · simp [textOf, Piece.chars, namePiece]
  · have hstands := name_stands hname hrest
    refine allStand_append.mpr ⟨h.stands _ ?_, ⟨hstands.valid, hstands.nonempty, .inr ?_,
      hstands.token⟩, trivial⟩
    · rw [textOf_cons]
      exact hhead _
    · exact hskip _ (startsToken_identifier hname)

/-! ### Functions and classes -/

/-- The words of a function are read from where it begins up to its first bracket. -/
theorem FunctionHead.exists_heads {source : List Char} {function part : Node} {rest : List Node}
    (h : FunctionHead source false function first last tokens part rest) :
    ∃ place pieces gap behind, place.In source ∧ place.offset = function.span.start ∧
      Heads tokens place pieces gap behind ∧ tokens ≠ [] ∧
      behind.offset = part.span.start ∧ behind.offset < last.next.offset ∧
      behind.rest ≠ [] ∧ ¬ ContinuesName behind.rest := by
  obtain ⟨mark, hmark, hlast⟩ : ∃ mark ∈ ["<", "("], last.token = .punctuator mark := by
    simpa using h.opening
  have hheads : ∀ token ∈ tokens, token.IsHead := fun token => isHead_of_mem_functionHeads h.words
  have hnonempty : tokens ≠ [] := by
    rintro rfl
    exact absurd h.words (by decide)
  obtain ⟨place, hin, hstart, hread⟩ := h.fresh
  obtain ⟨word, more, rfl⟩ := List.exists_cons_of_ne_nil hnonempty
  have hfirst : first.token.IsHead := h.precedes.token_eq ▸ hheads word List.mem_cons_self
  obtain ⟨pieces, gap, behind, hrun, hbehind, hopening⟩ := (heads_nil hfirst hread).run hread
    hstart.symm h.precedes hheads (by rw [hlast]; nofun)
  rw [hlast] at hopening
  have hleads := leads_of_readToken_punctuator hopening
  have htext : mark.toList ≠ [] ∧ ∀ text, ¬ ContinuesName (mark.toList ++ text) := by
    simp only [List.mem_cons, List.not_mem_nil, or_false] at hmark
    rcases hmark with rfl | rfl <;>
      exact ⟨by decide, fun text => continuesName_cons.not.mpr (by decide)⟩
  refine ⟨place, pieces, gap, behind, hin.isIn, hstart.trans h.start, hrun, hnonempty,
    hbehind.symm.trans h.brackets.start.symm, ?_, ?_, ?_⟩
  · rw [hleads.offset]
    exact Nat.lt_add_of_pos_right (width_pos htext.1)
  · rw [hleads.rest]
    exact List.append_ne_nil_of_left_ne_nil htext.1 _
  · rw [hleads.rest]
    exact htext.2 _

section Classes

variable {source : List Char} {definition : Node} {keyword : Lexeme} {modifiers : List String}
  {decorators rest : List Node}

theorem ClassHead.fresh {markers : Bool}
    (h : ClassHead source markers definition first keyword modifiers decorators rest) :
    first.IsFresh source := by
  obtain ⟨word, hword⟩ := h.precedes.exists_word h.word
  rcases h.begins with ⟨-, hfresh⟩ | ⟨last, -, -, hnext⟩
  · exact hfresh
  · exact hnext.isFresh hword

theorem ClassHead.isHead {markers : Bool}
    (h : ClassHead source markers definition first keyword modifiers decorators rest) {token : Token}
    (htoken : token ∈ modifiers.map Token.plain) : token.IsHead := by
  obtain ⟨modifier, hmodifier, rfl⟩ := List.mem_map.mp htoken
  have hallowed := h.allowed modifier hmodifier
  simp only [List.mem_cons, List.not_mem_nil, or_false] at hallowed
  rcases hallowed with rfl | rfl <;> exact isHead_plain (by decide)

/-- The words of a class without a name are read from behind its decorators up to the end of its
keyword. -/
theorem ClassHead.exists_heads
    (h : ClassHead source false definition first keyword modifiers decorators rest)
    (hname : definition.ownName? = none) :
    ∃ place pieces gap behind, place.In source ∧ place.offset = first.span.start ∧
      Heads (modifiers.map .plain ++ [.plain "class"]) place pieces gap behind ∧
      place.Leads (textOf pieces []) keyword.next ∧
      keyword.next.offset = keyword.span.start + width "class".toList ∧
      keyword.next.offset < (readLexeme false false keyword.next).next.offset ∧
      ¬ ContinuesName keyword.next.rest := by
  obtain ⟨htail, -, -⟩ := h.tail hname
  have hkeywordHead : keyword.token.IsHead := h.word ▸ isHead_plain (by decide)
  obtain ⟨place, hin, hstart, hread⟩ := h.fresh
  have hfirst : first.token.IsHead := h.precedes.isHead_first (fun token => h.isHead) hkeywordHead
  obtain ⟨pieces, gap, behind, hrun, hbehind, hreadKeyword⟩ := (heads_nil hfirst hread).run hread
    hstart.symm h.precedes (fun token => h.isHead) hkeywordHead.ne_invalid
  have hvalid : (readLexeme false false keyword.next).token ≠ .invalid := by
    intro hinvalid
    rw [hinvalid] at htail
    exact absurd htail (by decide)
  obtain ⟨piece, gap', behind', hgap, hbody, hstep, hfollow, hreadFollow⟩ :=
    hrun.step hreadKeyword hkeywordHead hvalid
  rw [h.word] at hreadKeyword hstep
  obtain ⟨hleads, hends⟩ := leads_of_readToken_plain (by decide) hreadKeyword
  refine ⟨place, pieces ++ [piece], gap', behind', hin.isIn, hstart, hstep, ?_, ?_, ?_, hends⟩
  · have hboth := hrun.leads.append hbody
    rwa [show textOf pieces gap ++ piece.body = textOf (pieces ++ [piece]) [] by
      simp [textOf, Piece.chars, hgap]] at hboth
  · rw [hleads.offset, hbehind]
  · have hle := le_start_readLexeme false false keyword.next
    rw [hfollow] at hle
    exact hle.trans_lt (lt_of_mem_classTails htail hreadFollow)

end Classes

end Reading

end ModuleLinkage.Syntax
