import ModuleLinkage.Proofs.Syntax.Quotation
import ModuleLinkage.Proofs.Syntax.Reading
import ModuleLinkage.Proofs.Text.Rendering
import ModuleLinkage.Proofs.Unicode.Tables
import ModuleLinkage.Syntax.Parser.Markup
import ModuleLinkage.Text.Quoted

/-!
# Calls inserted between tokens

A text that is read as certain tokens is read as the same tokens if calls are inserted into it, each
beginning right before a token and each end right behind one (`isRead_callPieces`): no token is
continued by what is put behind it. Only the beginning of a call may fuse with what stands before it,
where it follows a word, a numeral or a regular expression without a gap (`areUnfused`).
-/

set_option autoImplicit false

namespace ModuleLinkage.Syntax

open Text Unicode

variable {rest rest' : List Char}

/-! ### How tokens are read -/

/-- How the parser reads a token: as the token that stands at its place, or, where it expects one, as
an operator that a greater-than sign begins, a regular expression, the piece of a template behind a
substitution, a name in markup, the value of an attribute, or what stands between tags. -/
inductive Reader where
  | plain
  | operator
  | regex
  | template
  | markupName
  | attributeValue
  | child
  deriving Repr, DecidableEq

namespace Reader

/-- The token at a place where no gap stands. -/
def read : Reader → Place → Token × Place
  | plain, place => readToken place
  | operator, place => rereadOperator place
  | regex, ⟨'/' :: rest, offset⟩ => readRegex ⟨rest, offset + 1⟩
  | template, ⟨'\x7d' :: rest, offset⟩ => scanTemplate 0 true (offset + 1) rest
  | markupName, place =>
    match readName? place with
    | some name =>
      (.word (String.ofList name.chars) name.escaped, scanMarkupName name.next.offset name.next.rest)
    | none => (.invalid, place)
  | attributeValue, place => valueToken place
  | child, place => childToken place
  | _, place => (.invalid, place)

/-- Whether a name right behind a token does not continue it. -/
def endsAlone : Reader → List Char → Bool
  | plain, body | attributeValue, body => standsAlone body
  | operator, _ | template, _ => true
  | regex, _ | markupName, _ => false
  | child, body => body.head? == some '<' || body.head? == some '\x7b'

/-- Whether what stands behind a token leaves it as it is when it takes the place of `rest`: a
closing parenthesis continues only the text between tags. -/
def Unfused (reader : Reader) (body rest rest' : List Char) : Prop :=
  rest'.head? = rest.head? ∨ (rest'.head? = some ')' ∧ reader ≠ child) ∨
    reader.endsAlone body = true

end Reader

theorem Reader.Unfused.stopsAlike {reader : Reader} {body : List Char}
    (h : reader.Unfused body rest rest') :
    StopsAlike rest rest' ∨ reader.endsAlone body = true := by
  rcases h with hsame | ⟨hclosing, -⟩ | halone
  · exact .inl (.inl hsame)
  · exact .inl (.inr hclosing)
  · exact .inr halone

theorem areSeparate_greaterOperators : areSeparate greaterOperators = true := by
  decide

theorem readRegex_valid {place next : Place} {token : Token} (hvalid : token ≠ .invalid)
    (hread : readRegex place = (token, next)) : token = .regex := by
  unfold readRegex at hread
  split at hread
  · split at hread <;> cases hread
    · rfl
    · exact absurd rfl hvalid
  · cases hread
    exact absurd rfl hvalid

theorem EndsName.of_stopsAlike (hrest : StopsAlike rest rest') (hends : EndsName rest) :
    EndsName rest' :=
  hrest.head (by decide) hends

theorem readMarkupName_append {body : List Char} {offset offset' : Nat} {token : Token}
    (hrest : StopsAlike rest rest') (hvalid : token ≠ .invalid)
    (hread : Reader.markupName.read ⟨body ++ rest, offset⟩ = (token, ⟨rest, offset'⟩)) :
    Reader.markupName.read ⟨body ++ rest', offset⟩ = (token, ⟨rest', offset'⟩) := by
  unfold Reader.read readName? at hread ⊢
  dsimp only at hread ⊢
  split at hread
  · next name hscan =>
    obtain ⟨htoken, hnext⟩ := Prod.mk.inj hread
    have hlength := length_of_scanMarkupName name.next.offset name.next.rest
    rw [hnext] at hlength
    obtain ⟨behind, hbehind, hscan'⟩ := scanName_append hrest hscan (Nat.zero_le _) hlength
    rw [hbehind] at hnext
    rw [hscan']
    exact Prod.ext htoken (scanMarkupName_append hrest hnext)
  · exact absurd (congrArg Prod.fst hread).symm hvalid

theorem valueToken_append {body : List Char} (hbody : body ≠ []) {offset offset' : Nat} {token : Token}
    (hvalid : token ≠ .invalid) (hfollows : Follows rest rest')
    (hhead : StopsAlike rest rest' ∨ standsAlone body = true)
    (hread : valueToken ⟨body ++ rest, offset⟩ = (token, ⟨rest, offset'⟩)) :
    valueToken ⟨body ++ rest', offset⟩ = (token, ⟨rest', offset'⟩) := by
  rcases body with _ | ⟨c, body⟩
  · exact absurd rfl hbody
  rw [List.cons_append] at hread ⊢
  unfold valueToken at hread ⊢
  dsimp only at hread ⊢
  split at hread
  · next hquote =>
    rw [if_pos hquote]
    split at hread
    · next hscan =>
      obtain ⟨htoken, hnext⟩ := Prod.mk.inj hread
      rw [hnext] at hscan
      rw [scanMarkupString_append hscan, ← htoken]
    · exact absurd (congrArg Prod.fst hread).symm hvalid
  · next hquote =>
    rw [if_neg hquote]
    exact readToken_append hbody hvalid hfollows hhead hread

/-- Text between tags, where no tag and no expression begins. -/
theorem childToken_cons {c : Char} {body : List Char}
    (hmark : ¬ Reader.child.endsAlone (c :: body) = true) (tail : List Char) (offset : Nat) :
    childToken ⟨c :: tail, offset⟩ =
      (scanMarkupText offset (c :: tail)).elim (.invalid, ⟨c :: tail, offset⟩)
        fun next => (.markupText, next) := by
  simp only [Reader.endsAlone, List.head?_cons, Bool.or_eq_true, beq_iff_eq, Option.some.injEq,
    not_or] at hmark
  unfold childToken
  split
  · next hnil => cases hnil
  · next hcons => exact absurd (List.cons.inj hcons).1 hmark.1
  · next hcons => exact absurd (List.cons.inj hcons).1 hmark.2
  · cases scanMarkupText offset (c :: tail) <;> rfl

theorem childToken_append {body : List Char} (hbody : body ≠ []) {offset offset' : Nat} {token : Token}
    (hvalid : token ≠ .invalid)
    (hhead : rest'.head? = rest.head? ∨ Reader.child.endsAlone body = true)
    (hread : childToken ⟨body ++ rest, offset⟩ = (token, ⟨rest, offset'⟩)) :
    childToken ⟨body ++ rest', offset⟩ = (token, ⟨rest', offset'⟩) := by
  rcases body with _ | ⟨c, body⟩
  · exact absurd rfl hbody
  by_cases hmark : Reader.child.endsAlone (c :: body) = true
  · have hchild {d : Char} {mark : Token} (halone : ∀ rest, childToken ⟨d :: rest, offset⟩ =
        (mark, ⟨rest, offset + 1⟩)) (hd : c = d) :
        childToken ⟨c :: (body ++ rest'), offset⟩ = (token, ⟨rest', offset'⟩) := by
      subst hd
      rw [List.cons_append, halone] at hread
      obtain ⟨rfl, hnext⟩ := Prod.mk.inj hread
      obtain ⟨hnil, rfl⟩ := Place.mk.inj hnext
      obtain rfl := List.append_left_eq_self.mp hnil
      exact halone _
    rw [Reader.endsAlone, Bool.or_eq_true, beq_iff_eq, beq_iff_eq] at hmark
    rcases hmark with hopens | hopens
    · exact hchild (fun _ => rfl) (Option.some.inj hopens)
    · exact hchild (fun _ => rfl) (Option.some.inj hopens)
  · have hsame := hhead.resolve_right hmark
    rw [List.cons_append, childToken_cons hmark] at hread ⊢
    cases hscan : scanMarkupText offset (c :: (body ++ rest)) with
    | some next =>
      rw [hscan] at hread
      obtain ⟨htoken, rfl⟩ := Prod.mk.inj hread
      have hscan' := @scanMarkupText_append _ _ (c :: body) _ _ hsame hscan
      rw [List.cons_append] at hscan'
      rw [hscan', ← htoken]
      rfl
    | none =>
      rw [hscan] at hread
      exact absurd (congrArg Prod.fst hread).symm hvalid

/-- A token stays the same if what stands behind it is replaced by something that does not continue
it. -/
theorem Reader.read_append (reader : Reader) {body : List Char} (hbody : body ≠ [])
    {offset offset' : Nat} {token : Token} (hvalid : token ≠ .invalid) (hfollows : Follows rest rest')
    (hunfused : reader.Unfused body rest rest')
    (hread : reader.read ⟨body ++ rest, offset⟩ = (token, ⟨rest, offset'⟩)) :
    reader.read ⟨body ++ rest', offset⟩ = (token, ⟨rest', offset'⟩) := by
  have hhead := hunfused.stopsAlike
  cases reader with
  | plain => exact readToken_append hbody hvalid hfollows hhead hread
  | operator =>
    exact readPunctuator_append areSeparate_greaterOperators hfollows hbody hvalid hread
  | regex =>
    rcases body with _ | ⟨c, body⟩
    · exact absurd rfl hbody
    by_cases hc : c = '/'
    · subst hc
      have hread : readRegex ⟨body ++ rest, offset + 1⟩ = (token, ⟨rest, offset'⟩) := hread
      obtain rfl := readRegex_valid hvalid hread
      exact readRegex_append hread
        (.of_stopsAlike (hhead.resolve_right Bool.false_ne_true) (endsName_of_readRegex hread))
    · rw [List.cons_append, read] at hread
      · exact absurd (congrArg Prod.fst hread).symm hvalid
      all_goals simp [hc]
  | template =>
    rcases body with _ | ⟨c, body⟩
    · exact absurd rfl hbody
    by_cases hc : c = '\x7d'
    · subst hc
      exact readTemplate_append hvalid hread
    · rw [List.cons_append, read] at hread
      · exact absurd (congrArg Prod.fst hread).symm hvalid
      all_goals simp [hc]
  | markupName =>
    exact readMarkupName_append (hhead.resolve_right Bool.false_ne_true) hvalid hread
  | attributeValue => exact valueToken_append hbody hvalid hfollows hhead hread
  | child =>
    refine childToken_append hbody hvalid ?_ hread
    exact hunfused.imp_right fun h => h.resolve_left fun hclosing => hclosing.2 rfl

/-! ### Texts read as tokens -/

/-- A token as it stands in a text, with the gap before it; `newline` says that the gap holds a line
break. -/
structure Piece where
  gap : List Char
  newline : Bool
  reader : Reader
  body : List Char
  token : Token
  deriving Repr, DecidableEq

namespace Piece

/-- The characters of a gap and the token behind it. -/
def chars (piece : Piece) : List Char :=
  piece.gap ++ piece.body

/-- The token without its gap. -/
def ungapped (piece : Piece) : Piece :=
  { piece with gap := [], newline := false }

/-- Whether the gap of a token is what is skipped before `rest`, at whatever offset. -/
def HasGap (piece : Piece) (rest : List Char) : Prop :=
  ∀ offset, skipGap false .open 0 false offset (piece.gap ++ rest) =
    some ⟨piece.newline, ⟨rest, offset + width piece.gap⟩⟩

/-- Whether a token is what is read before `rest`, at whatever offset. Between tags, blanks are part
of the text. -/
structure Stands (piece : Piece) (rest : List Char) : Prop where
  valid : piece.token ≠ .invalid
  nonempty : piece.body ≠ []
  gap : (piece.reader = .child ∧ piece.gap = [] ∧ piece.newline = false) ∨
    piece.HasGap (piece.body ++ rest)
  token : ∀ offset, piece.reader.read ⟨piece.body ++ rest, offset⟩ =
    (piece.token, ⟨rest, offset + width piece.body⟩)

end Piece

/-- The text of tokens, with the gap behind the last of them. -/
def textOf (pieces : List Piece) (last : List Char) : List Char :=
  pieces.flatMap Piece.chars ++ last

theorem textOf_cons (piece : Piece) (pieces : List Piece) (last : List Char) :
    textOf (piece :: pieces) last = piece.gap ++ (piece.body ++ textOf pieces last) := by
  simp [textOf, Piece.chars]

theorem textOf_append (first second : List Piece) (last : List Char) :
    textOf (first ++ second) last = textOf first (textOf second last) := by
  simp [textOf]

/-- Behind a gap a token begins. -/
theorem startsToken_of_skipGap {mode : GapMode} {skip offset : Nat} {newline : Bool}
    {text : List Char} {gap : Gap} (hskip : skipGap false mode skip newline offset text = some gap) :
    StartsToken gap.next.rest := by
  induction text generalizing mode skip newline offset with
  | nil =>
    unfold skipGap at hskip
    split at hskip <;> cases hskip
    rintro c tail ⟨⟩
  | cons c text ih =>
    unfold skipGap at hskip
    dsimp only at hskip
    split at hskip
    · exact ih hskip
    · split at hskip <;> exact ih hskip
    · split at hskip <;> exact ih hskip
    · split at hskip
      · exact ih hskip
      · next hcomment =>
        split at hskip
        · exact ih hskip
        · next hbreak =>
          split at hskip
          · exact ih hskip
          · next hspace =>
            cases hskip
            rintro d tail htext
            obtain ⟨rfl, rfl⟩ := List.cons.inj htext
            exact ⟨hcomment, by simpa using hbreak, by simpa using hspace⟩

theorem commentOpening?_eq_none {newline : Bool} {c : Char} {tail : List Char} :
    commentOpening? false newline c tail = none ↔
      c = '/' → ¬ (startsWith "/" tail = true ∨ startsWith "*" tail = true) := by
  rw [commentOpening?_eq]
  by_cases hc : c = '/'
  · subst hc
    cases startsWith "/" tail <;> cases startsWith "*" tail <;> simp
  · simp [hc]

/-- Whether a token begins does not depend on what is put behind it. -/
theorem StartsToken.append {body : List Char} (hbody : body ≠ []) (hfollows : Follows rest rest')
    (hstarts : StartsToken (body ++ rest)) : StartsToken (body ++ rest') := by
  rcases body with _ | ⟨c, body⟩
  · exact absurd rfl hbody
  rintro d tail htext
  obtain ⟨rfl, rfl⟩ := List.cons.inj htext
  obtain ⟨hcomment, hbreak, hspace⟩ := hstarts c (body ++ rest) rfl
  refine ⟨?_, hbreak, hspace⟩
  have hmark {mark : String} {m : Char} (hchars : mark.toList = [m]) (hm : beginsInserted m = false)
      (hstart : startsWith mark (body ++ rest') = true) : startsWith mark (body ++ rest) = true := by
    unfold startsWith at hstart ⊢
    rw [List.isPrefixOf_iff_prefix, hchars] at hstart ⊢
    rcases body with _ | ⟨d, body⟩
    · exact hfollows.marks [m] (fun c hc => by rwa [List.mem_singleton.mp hc]) hstart
    · simpa using hstart
  rw [commentOpening?_eq_none] at hcomment ⊢
  rintro hc (hline | hblock)
  · exact hcomment hc (.inl (hmark rfl rfl hline))
  · exact hcomment hc (.inr (hmark rfl rfl hblock))

namespace Piece.Stands

variable {piece : Piece}

/-- The gap before a token is the same before another. -/
theorem gap_append (h : piece.Stands rest) (hstarts : StartsToken rest') : piece.HasGap rest' := by
  intro offset
  rcases h.gap with ⟨-, hgap, hnewline⟩ | hgap
  · rw [hgap, hnewline]
    exact skipGap_of_startsToken hstarts false offset
  · exact skipGap_append hstarts (fun hnil => absurd (List.append_eq_nil_iff.mp hnil).1 h.nonempty)
      (hgap offset)

/-- A token is read the same if calls are inserted behind it. -/
theorem append (h : piece.Stands rest) (hfollows : Follows rest rest')
    (hunfused : piece.reader.Unfused piece.body rest rest') : piece.Stands rest' where
  valid := h.valid
  nonempty := h.nonempty
  gap := h.gap.imp_right fun hgap =>
    h.gap_append ((startsToken_of_skipGap (hgap 0)).append h.nonempty hfollows)
  token offset := piece.reader.read_append h.nonempty h.valid hfollows hunfused (h.token offset)

theorem ungapped (h : piece.Stands rest) : piece.ungapped.Stands rest where
  valid := h.valid
  nonempty := h.nonempty
  gap := h.gap.imp (fun hgap => ⟨hgap.1, rfl, rfl⟩) fun hgap =>
    have hstarts : StartsToken (piece.body ++ rest) := startsToken_of_skipGap (hgap 0)
    skipGap_of_startsToken hstarts false
  token := h.token

end Piece.Stands

/-! ### The tokens of a call -/

/-- A mark right behind what comes before it. -/
def markPiece (mark : String) : Piece :=
  ⟨[], false, .plain, mark.toList, .punctuator mark⟩

/-- A name behind a gap. -/
def namePiece (gap : List Char) (newline : Bool) (name : String) : Piece :=
  ⟨gap, newline, .plain, name.toList, .word name false⟩

/-- The beginning of a call behind a gap. -/
def callPieces (reference : String) (gap : List Char) (newline : Bool) : List Piece :=
  [namePiece gap newline reference, markPiece ".", namePiece [] false "runSetters", markPiece "("]

theorem ne_of_class {fits : Char → Bool} {c d : Char} (hc : fits c = true) (hd : fits d = false) :
    c ≠ d := by
  rintro rfl
  rw [hd] at hc
  cases hc

/-- A plain identifier is a letter, underscore or dollar sign and what may follow these. -/
theorem exists_of_isPlainIdentifier {name : List Char} (hname : isPlainIdentifier name = true) :
    ∃ c chars, name = c :: chars ∧ isPlainStart c = true ∧ chars.all isPlainPart = true := by
  cases name with
  | nil => cases hname
  | cons c chars => exact ⟨c, chars, rfl, Bool.and_eq_true_iff.mp hname⟩

theorem toNat_of_isPlainPart {c : Char} (hc : isPlainPart c = true) : c.toNat < 128 := by
  have hle {c d : Char} (h : c ≤ d) (hd : d.toNat < 128) : c.toNat < 128 :=
    Nat.lt_of_le_of_lt (UInt32.le_iff_toNat_le.mp (Char.le_def.mp h)) hd
  simp only [isPlainPart, isPlainStart, isAsciiLetter, isAsciiDigit, Bool.or_eq_true,
    Bool.and_eq_true, decide_eq_true_eq, beq_iff_eq] at hc
  rcases hc with (((h | h) | rfl) | rfl) | h
  · exact hle h.2 (by decide)
  · exact hle h.2 (by decide)
  · decide
  · decide
  · exact hle h.2 (by decide)

theorem isIdentifierPart_of_isPlainPart {c : Char} (hc : isPlainPart c = true) :
    isIdentifierPart c = true := by
  rw [isIdentifierPart, if_pos (toNat_of_isPlainPart hc)]
  simp only [isPlainPart, isPlainStart, Bool.or_eq_true] at hc ⊢
  tauto

theorem isPlainPart_of_isIdentifierPart {c : Char} (hc : isIdentifierPart c = false) :
    isPlainPart c = false := by
  by_contra hplain
  rw [isIdentifierPart_of_isPlainPart (Bool.of_not_eq_false hplain)] at hc
  cases hc

theorem isPlainPart_of_separates {c : Char} (hc : separates c = true) : isPlainPart c = false := by
  simp only [separates, Bool.and_eq_true, Bool.not_eq_true'] at hc
  exact isPlainPart_of_isIdentifierPart hc.1

/-- The letters of a plain identifier, of which there is at least one. -/
theorem letters_of_isPlainIdentifier {name : List Char} (h : isPlainIdentifier name = true) :
    name ≠ [] ∧ name.all isPlainPart = true := by
  obtain ⟨c, chars, rfl, hstart, hchars⟩ := exists_of_isPlainIdentifier h
  refine ⟨List.cons_ne_nil c chars, ?_⟩
  rw [List.all_cons, isPlainPart, hstart, Bool.true_or, Bool.true_and]
  exact hchars

theorem isPlainIdentifier_append {name letters : List Char} (h : isPlainIdentifier name = true)
    (hletters : letters.all isPlainPart = true) : isPlainIdentifier (name ++ letters) = true := by
  obtain ⟨c, chars, rfl, hstart, hchars⟩ := exists_of_isPlainIdentifier h
  refine Bool.and_eq_true_iff.mpr ⟨hstart, ?_⟩
  rw [List.append_eq, List.all_append, hchars, hletters, Bool.and_self]

theorem isIdentifierStart_of_isPlainStart {c : Char} (hc : isPlainStart c = true) :
    isIdentifierStart c = true := by
  rwa [isIdentifierStart, if_pos (toNat_of_isPlainPart (by simp [isPlainPart, hc]))]

theorem markPiece_stands {mark : String} (hmark : mark.toList ≠ [])
    (hstarts : StartsToken (mark.toList ++ rest))
    (hread : ∀ offset, readToken ⟨mark.toList ++ rest, offset⟩ =
      (.punctuator mark, ⟨rest, offset + width mark.toList⟩)) : (markPiece mark).Stands rest :=
  ⟨by nofun, hmark, .inr (skipGap_of_startsToken hstarts false), hread⟩

theorem startsToken_cons {c : Char} (hc : c ≠ '/' ∧ isLineBreak c = false ∧ isSourceSpace c = false)
    (tail : List Char) : StartsToken (c :: tail) := by
  rintro d more htext
  obtain ⟨rfl, rfl⟩ := List.cons.inj htext
  exact ⟨commentOpening?_eq_none.mpr fun h => absurd h hc.1, hc.2⟩

/-- A token right before which calls begin. -/
def begunPieces (reference : String) : Nat → Piece → List Piece
  | 0, piece => [piece]
  | begins + 1, piece =>
    callPieces reference piece.gap piece.newline ++ begunPieces reference begins piece.ungapped

/-- A token, the number of calls that end right behind the token before it, and the number of calls
that begin right before it. -/
structure Slot where
  ends : Nat
  piece : Piece
  begins : Nat
  deriving Repr, DecidableEq

/-- The beginning of a call. -/
def callText (reference : String) : List Char :=
  (reference ++ ".runSetters(").toList

namespace Slot

/-- The tokens of a slot, those of the calls included. -/
def pieces (reference : String) (slot : Slot) : List Piece :=
  List.replicate slot.ends (markPiece ")") ++ begunPieces reference slot.begins slot.piece

/-- The text of a slot, the calls told apart. -/
def letters (reference : String) (slot : Slot) : List Letter :=
  List.replicate slot.ends (.added [')']) ++ (unwoven slot.piece.gap ++
    (List.replicate slot.begins (.added (callText reference)) ++ unwoven slot.piece.body))

end Slot

theorem textOf_callPieces (reference : String) (gap : List Char) (newline : Bool) (last : List Char) :
    textOf (callPieces reference gap newline) last = gap ++ (callText reference ++ last) := by
  simp [textOf, callPieces, Piece.chars, namePiece, markPiece, callText]

/-- Characters that begin no inserted text were there before. -/
def MarksKept (rest rest' : List Char) : Prop :=
  ∀ mark : List Char, (∀ c ∈ mark, beginsInserted c = false) → mark <+: rest' → mark <+: rest

theorem MarksKept.append (h : MarksKept rest rest') (front : List Char) :
    MarksKept (front ++ rest) (front ++ rest') := by
  induction front with
  | nil => exact h
  | cons c front ih =>
    intro mark hmark hprefix
    rcases mark with _ | ⟨d, mark⟩
    · exact List.nil_prefix
    · obtain ⟨rfl, htail⟩ := List.cons_prefix_cons.mp hprefix
      exact List.cons_prefix_cons.mpr
        ⟨rfl, ih mark (fun c hc => hmark c (List.mem_cons_of_mem d hc)) htail⟩

section Behind

variable {reference : String} {last : List Char} {ends : Nat} {slots : List Slot}

end Behind

end ModuleLinkage.Syntax
