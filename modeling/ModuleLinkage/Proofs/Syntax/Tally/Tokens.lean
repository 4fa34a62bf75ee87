import ModuleLinkage.Proofs.Syntax.Anchoring.Keywords
import ModuleLinkage.Proofs.Syntax.Tally.Rules

/-!
# Going past tokens

A parser that goes on to the next token goes past the offsets where the present one lies, and past
the one where it begins if it is a word (`LeavesAt.behindWord`). There the tally of a declaration
that begins with that word is gained.
-/

set_option autoImplicit false

namespace ModuleLinkage.Syntax

/-! ### Tokens that extend -/

theorem offset_lt_of_scanName {escaped : Bool} {read text : List Char} {offset : Nat} {name : Name}
    (hscan : scanName true escaped 0 read offset text = some name) : offset < name.next.offset := by
  have hbehind {c : Char} {rest : List Char} {denoted : List Char} {skip : Nat} {escaped : Bool}
      (hrest : scanName false escaped skip denoted (offset + c.utf8Size) rest = some name) :
      offset < name.next.offset := by
    have hle : offset + c.utf8Size ≤ name.next.offset := (reaches_scanName hrest).offset_le
    have := c.utf8Size_pos
    omega
  cases text with
  | nil => cases hscan
  | cons c text =>
    rw [scanName_cons] at hscan
    split at hscan
    · exact hbehind hscan
    · split at hscan
      · next hslash =>
        subst hslash
        split at hscan
        · exact hbehind (c := '\\') hscan
        · cases hscan
      · cases hscan

theorem ne_word_of_readPunctuator (marks : List String) (place : Place) {next : Place} {name : String}
    {escaped : Bool} : readPunctuator marks place ≠ (.word name escaped, next) := by
  intro hread
  unfold readPunctuator at hread
  split at hread <;> cases hread

/-- A word has characters. -/
theorem offset_lt_of_readToken {place next : Place} {name : String} {escaped : Bool}
    (hread : readToken place = (.word name escaped, next)) : place.offset < next.offset := by
  have hfree {found : Token × Place} {place : Place} (hfree : LexesFree place found) :
      found ≠ (.word name escaped, next) := by
    rintro rfl
    cases hfree.2
  unfold readToken at hread
  split at hread
  · cases hread
  dsimp only at hread
  split at hread
  · unfold readNameAs readName? at hread
    split at hread
    · next hscan =>
      cases hread
      exact offset_lt_of_scanName hscan
    · cases hread
  split at hread
  · exact absurd hread (hfree (lexesFree_readNumeral _))
  split at hread
  · exact absurd hread (hfree (lexesFree_readString _ _))
  split at hread
  · exact absurd hread (hfree (lexesFree_scanTemplate 0 true _ _))
  split at hread
  · exact absurd hread (hfree (lexesFree_readNameAs_privateName _))
  split at hread
  · exact absurd hread (hfree (lexesFree_endFraction true _))
  · exact absurd hread (ne_word_of_readPunctuator _ _)

/-- A token that is read at a place, behind a gap or not. -/
theorem extends_readToken (newline : Bool) (place : Place) : Lexeme.Extends
    ⟨(readToken place).1, ⟨place.offset, (readToken place).2.offset⟩, newline, (readToken place).2⟩ :=
  ⟨(lexes_readToken place).reaches.offset_le, fun _ _ hword =>
    offset_lt_of_readToken (Prod.ext hword rfl)⟩

/-- A token that is no word. -/
theorem extends_of_ne_word {lexeme : Lexeme} (hle : lexeme.span.start ≤ lexeme.next.offset)
    (hword : ∀ name escaped, lexeme.token ≠ .word name escaped) : lexeme.Extends :=
  ⟨hle, fun name escaped htoken => absurd htoken (hword name escaped)⟩

theorem extends_of_isFree {lexeme : Lexeme} (hle : lexeme.span.start ≤ lexeme.next.offset)
    (hfree : lexeme.token.isFree = true) : lexeme.Extends := by
  refine extends_of_ne_word hle fun name escaped htoken => ?_
  rw [htoken] at hfree
  cases hfree

theorem extends_readLexeme (markers newline : Bool) (place : Place) :
    (readLexeme markers newline place).Extends := by
  unfold readLexeme
  split
  · next gap _ => exact extends_readToken gap.newline gap.next
  · exact extends_of_ne_word (Nat.le_refl _) fun _ _ => Token.noConfusion

variable {offset budget middle left : Nat}

/-! ### The present token -/

instance leaves_present : Leaves offset budget present budget := leaves_of_stays

instance leaves_offset : Leaves offset budget Syntax.offset budget := leaves_of_stays

instance leaves_onNewLine : Leaves offset budget onNewLine budget := by
  unfold onNewLine
  infer_instance

instance leaves_settings : Leaves offset budget settings budget := by
  unfold settings
  infer_instance

instance leaves_context : Leaves offset budget context budget := leaves_of_stays

instance leaves_typescript : Leaves offset budget typescript budget := leaves_of_stays

instance leaves_isAt (mark : String) : Leaves offset budget (isAt mark) budget := leaves_of_stays

instance leaves_isAtWord (word : String) : Leaves offset budget (isAtWord word) budget :=
  leaves_of_stays

instance leaves_nextSees (test : Parser Bool) : Leaves offset budget (nextSees test) budget :=
  leaves_of_stays

instance leaves_nextOnLineSees (test : Parser Bool) :
    Leaves offset budget (nextOnLineSees test) budget := leaves_of_stays

instance leaves_checkName (word : String) : Leaves offset budget (checkName word) budget :=
  leaves_of_stays

/-! ### Going on -/

/-- A parser that goes on to a token which `read` gives for the place behind the present one. -/
theorem leaves_moving {read : State → Lexeme} (hextends : ∀ s : State, (read s).Extends)
    (hle : ∀ s : State, s.lexeme.next.offset ≤ (read s).span.start) :
    Leaves offset budget (Parser.modify fun s =>
      { s with previousStop := s.lexeme.span.stop, lexeme := read s }) budget := by
  refine ⟨fun s value s' hrun hbefore => ?_⟩
  cases hrun
  have hpassed : s.passed offset ≤
      State.passed offset { s with previousStop := s.lexeme.span.stop, lexeme := read s } :=
    passed_mono offset (hbefore.le.trans (hle s))
  refine ⟨hextends s, hpassed, ?_⟩
  rw [Tallyless.tally_eq, Nat.zero_add]
  exact Nat.add_le_add_left hpassed budget

instance leaves_pass : Leaves offset budget pass budget :=
  leaves_moving (fun _ => extends_readLexeme _ _ _) fun _ => le_start_readLexeme _ _ _

instance leaves_advance : Leaves offset budget advance budget := by
  unfold advance
  refine .of_affords (.step fun token => ?_)
  split <;> infer_instance

theorem offset_le_of_advance {s s' : State} (hrun : advance s = .done () s') :
    s.lexeme.next.offset ≤ s'.lexeme.span.start := by
  have hpass {s₁ : State} (hrun : pass s₁ = .done () s') (hlexeme : s₁.lexeme = s.lexeme) :
      s.lexeme.next.offset ≤ s'.lexeme.span.start := by
    cases hrun
    rw [← hlexeme]
    exact le_start_readLexeme _ _ _
  obtain ⟨token, s₁, hpresent, hrun⟩ := done_of_bind hrun
  cases hpresent
  split at hrun
  · obtain ⟨_, s₂, hcheck, hrun⟩ := done_of_bind hrun
    exact hpass hrun ((stays_check _).lexeme _ _ _ hcheck)
  · exact hpass hrun rfl

/-- What is read behind a word has the tally of a declaration that begins with the word. -/
theorem LeavesAt.behindWord {α : Type} [Tallied α] {s : State} {word : String} {first : Parser Unit}
    {next : Unit → Parser α}
    (hpasses : ∀ s', first s = .done () s' →
      (∃ escaped, s.lexeme.token = .word word escaped) ∧ advance s = .done () s')
    (hnext : Affords offset (budget + tally offset (Beginning.mk s.lexeme.span.start)) (next ())) :
    LeavesAt offset budget 0 s (first >>= next) := by
  intro value s' hrun hextends
  obtain ⟨_, between, hfirst, hrest⟩ := done_of_bind hrun
  obtain ⟨⟨escaped, htoken⟩, hadvance⟩ := hpasses between hfirst
  have hleaves : Leaves offset 0 advance 0 := inferInstance
  obtain ⟨hbetween, hpassed, -⟩ := hleaves.run s () between hadvance hextends
  obtain ⟨hextends', hpassed', hle⟩ := hnext.run between value s' hrest hbetween
  have hgained := tallyStart_add_passed offset
    ((hextends.lt word escaped htoken).trans_le (offset_le_of_advance hadvance))
  have htally : tally offset (Beginning.mk s.lexeme.span.start) =
    tallyStart offset s.lexeme.span.start := rfl
  exact ⟨hextends', hpassed.trans hpassed', by omega⟩

/-- Another token in the place of the present one. -/
theorem LeavesAt.retold {s : State} {token : Token} {next : Place}
    (hretold : s.lexeme.Extends → (s.lexeme.retold token next).Extends) :
    LeavesAt offset budget budget s (replaceToken token next) := by
  intro value s' hrun hextends
  cases hrun
  refine ⟨hretold hextends, Nat.le_refl _, ?_⟩
  rw [Tallyless.tally_eq, Nat.zero_add]
  rfl

instance leaves_continueTemplate : Leaves offset budget continueTemplate budget := by
  refine ⟨fun s => LeavesAt.retold fun hextends => ?_⟩
  obtain ⟨hreaches, hfree⟩ := lexesFree_scanTemplate 0 true s.lexeme.next.offset s.lexeme.next.rest
  exact extends_of_isFree (hextends.le.trans hreaches.offset_le) hfree

/-! ### Tests, marks and words -/

instance leaves_isAtName : Leaves offset budget isAtName budget := by
  unfold isAtName
  refine .of_affords (.step fun token => ?_)
  split <;> infer_instance

instance leaves_isAtAnyWord : Leaves offset budget isAtAnyWord budget := by
  unfold isAtAnyWord
  refine .of_affords (.step fun token => ?_)
  split <;> infer_instance

instance leaves_isAtString : Leaves offset budget isAtString budget := by
  unfold isAtString
  refine .of_affords (.step fun token => ?_)
  split <;> infer_instance

instance leaves_endsStatement : Leaves offset budget endsStatement budget := by
  unfold endsStatement
  refine .of_affords (.step fun token => ?_)
  split <;> infer_instance

instance leaves_eat (mark : String) : Leaves offset budget (eat mark) budget := by
  unfold eat
  infer_instance

instance leaves_eatWord (word : String) : Leaves offset budget (eatWord word) budget := by
  unfold eatWord
  infer_instance

instance leaves_expect (mark : String) : Leaves offset budget (expect mark) budget := by
  unfold expect
  infer_instance

instance leaves_expectWord (word : String) : Leaves offset budget (expectWord word) budget := by
  unfold expectWord
  infer_instance

instance leaves_semicolon : Leaves offset budget semicolon budget := by
  unfold semicolon
  infer_instance

/-! ### Nodes -/

section Nodes

variable {start : Nat} {form : Form} {parts : List Node}

/-- A node that is finished counts what its parts do, if it requests no module. -/
instance leaves_finish [Denies form.mayRequest] [Takes offset budget parts left] :
    Leaves offset budget (finish start form parts) left := by
  unfold finish
  refine ⟨fun s => (leaves_get.run s).bind fun state s' _ => ?_⟩
  exact leaves_pure.run s'

/-- A declaration that may request a module counts where it begins too. -/
instance (priority := low) leaves_finishRequest [hparts : Takes offset budget parts middle]
    [hstart : Takes offset middle (Beginning.mk start) left] :
    Leaves offset budget (finish start form parts) left := by
  refine ⟨fun s node s' hrun hextends => ?_⟩
  cases hrun
  have htally : tally offset (Node.mk ⟨start, s.previousStop⟩ form parts) ≤
      tally offset (Beginning.mk start) + tally offset parts := by
    rw [tally_mk]
    refine Nat.add_le_add_right ?_ _
    split_ifs
    · exact Nat.le_refl _
    · exact Nat.zero_le _
  have := hparts.le
  have := hstart.le
  exact ⟨hextends, Nat.le_refl _, by omega⟩

instance leaves_leaf [Denies form.mayRequest] : Leaves offset budget (leaf form) budget := by
  unfold leaf
  infer_instance

instance leaves_nameLeaf [Denies form.mayRequest] :
    Leaves offset budget (nameLeaf form) budget := by
  unfold nameLeaf
  infer_instance

instance leaves_variableName {form : String → Form} [∀ name, Denies (form name).mayRequest] :
    Leaves offset budget (variableName form) budget := by
  unfold variableName
  refine .of_affords (.step fun token => ?_)
  split <;> infer_instance

instance leaves_bindingName : Leaves offset budget bindingName budget := by
  unfold bindingName
  infer_instance

instance leaves_propertyWord : Leaves offset budget propertyWord budget := by
  unfold propertyWord
  refine .of_affords (.step fun token => ?_)
  split <;> infer_instance

instance leaves_stringAs {form : String → Form} [∀ value, Denies (form value).mayRequest] :
    Leaves offset budget (stringAs form) budget := by
  unfold stringAs
  refine .of_affords (.step fun token => ?_)
  split <;> infer_instance

end Nodes

/-! ### Lists and modifiers -/

instance leaves_commaListUntil {α : Type} [Tallied α] {close : String} {item : Parser α}
    [Affords offset 0 item] : Leaves offset budget (commaListUntil close item) budget := by
  unfold commaListUntil
  infer_instance

instance leaves_commaSequence {item : Parser Node} [Affords offset 0 item] :
    Leaves offset budget (commaSequence item) budget := by
  unfold commaSequence
  infer_instance

instance leaves_modifies (word : String) : Leaves offset budget (modifies word) budget := by
  unfold modifies
  split <;> infer_instance

instance leaves_modifiersWhile {isNext : List String → String → Parser Bool}
    [∀ before word, Affords offset 0 (isNext before word)] :
    Leaves offset budget (modifiersWhile isNext) budget := by
  unfold modifiersWhile
  refine .iterate fun modifiers => .step fun token => ?_
  split <;> infer_instance

instance leaves_declarationModifiers : Leaves offset budget declarationModifiers budget := by
  unfold declarationModifiers
  infer_instance

instance leaves_plainModifiers : Leaves offset budget plainModifiers budget := by
  unfold plainModifiers
  infer_instance

instance leaves_typeParameterModifiers :
    Leaves offset budget typeParameterModifiers budget := by
  unfold typeParameterModifiers
  infer_instance

instance leaves_memberModifiers : Leaves offset budget memberModifiers budget := by
  unfold memberModifiers
  infer_instance

instance leaves_checkModifiers (allowed modifiers : List String) :
    Leaves offset budget (checkModifiers allowed modifiers) budget := by
  unfold checkModifiers
  infer_instance

instance : Tallyless Accessor := .of Accessor

instance leaves_accessor : Leaves offset budget accessor? budget := by
  unfold accessor?
  infer_instance

end ModuleLinkage.Syntax
