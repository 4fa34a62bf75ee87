import ModuleLinkage.Proofs.Syntax.Anchoring.Tokens

/-!
# Keywords are words of the text

No parser gets past an invalid token (`Stuck`). So where a keyword is passed in its role and
something is read behind it, the keyword stands in the text as a word (`keywordAt_of_advance`), and
what is read behind it may rely on that (`ReadsAt.behindKeyword`).
-/

set_option autoImplicit false

namespace ModuleLinkage.Syntax

open Text

/-! ### At an invalid token -/

/-- What is known of the values that a parser gives where an invalid token stands, which stays the
present one. -/
def Stuck {α : Type} (parser : Parser α) (known : α → Prop) : Prop :=
  ∀ s value s', s.lexeme.token = .invalid → parser s = .done value s' →
    s'.lexeme.token = .invalid ∧ known value

/-- Whether a parser gives nothing where an invalid token stands. -/
def Refuses {α : Type} (parser : Parser α) : Prop :=
  Stuck parser fun _ => False

section Rules

variable {α β : Type} {parser : Parser α} {next : α → Parser β} {known : α → Prop}
  {known' : β → Prop}

theorem Stuck.imp {known' : α → Prop} (hparser : Stuck parser known)
    (himp : ∀ value, known value → known' value) : Stuck parser known' := by
  intro s value s' hinvalid hrun
  obtain ⟨hinvalid', hknown⟩ := hparser s value s' hinvalid hrun
  exact ⟨hinvalid', himp value hknown⟩

theorem Stuck.bind (hparser : Stuck parser known) (hnext : ∀ value, known value → Stuck (next value) known') :
    Stuck (parser >>= next) known' := by
  intro s value s' hinvalid hrun
  obtain ⟨first, middle, hfirst, hrest⟩ := done_of_bind hrun
  obtain ⟨hmiddle, hknown⟩ := hparser s first middle hinvalid hfirst
  exact hnext first hknown middle value s' hmiddle hrest

theorem Refuses.bind (hparser : Refuses parser) : Stuck (parser >>= next) known' :=
  Stuck.bind hparser fun _ hfalse => hfalse.elim

theorem stuck_pure {value : α} (hknown : known value) : Stuck (pure value) known := by
  intro s value' s' hinvalid hrun
  cases hrun
  exact ⟨hinvalid, hknown⟩

theorem refuses_fail : Refuses (Parser.fail : Parser α) := by
  intro s value s' hinvalid hrun
  cases hrun

theorem stuck_of_stays [hstays : Stays parser] : Stuck parser fun _ => True := by
  intro s value s' hinvalid hrun
  rw [hstays.lexeme s value s' hrun]
  exact ⟨hinvalid, trivial⟩

theorem Stuck.within {change : Context → Context} (hparser : Stuck parser known) :
    Stuck (Parser.within change parser) known := by
  intro s value s' hinvalid hrun
  unfold Parser.within at hrun
  split at hrun
  · next hfound =>
    cases hrun
    have hstuck := fun hinvalid' => hparser _ _ _ hinvalid' hfound
    exact hstuck hinvalid
  · cases hrun

/-- What is repeated as long as it gives something gives nothing. -/
theorem Stuck.iterate {step : α → Parser (Option α)} {value : α}
    (hstep : Stuck (step value) fun next? => next? = none) :
    Stuck (Parser.iterate step value) fun result => result = value := by
  have hupTo (count : Nat) :
      Stuck (Parser.iterateUpTo count step value) fun result => result = value := by
    cases count with
    | zero => exact fun _ _ _ _ hrun => nomatch hrun
    | succ count =>
      refine hstep.bind fun next? hnone => ?_
      subst hnone
      exact stuck_pure rfl
  unfold Parser.iterate
  exact stuck_of_stays.bind fun state _ => hupTo _

theorem Stuck.many {step : Parser (Option α)} (hstep : Stuck step fun next? => next? = none) :
    Stuck (Parser.many step) fun values => values = [] := by
  unfold Parser.many
  refine Stuck.bind (.iterate (hstep.bind fun value? hnone => ?_)) fun values hnil => ?_
  · subst hnone
    exact stuck_pure rfl
  · subst hnil
    exact stuck_pure rfl

end Rules

theorem stuck_present : Stuck present fun token => token = .invalid := by
  intro s value s' hinvalid hrun
  cases hrun
  exact ⟨hinvalid, hinvalid⟩

/-- No test of the present token holds. -/
theorem stuck_test {test : Token → Parser Bool} (htest : test .invalid = pure false) :
    Stuck (present >>= test) fun found => found = false := by
  refine stuck_present.bind fun token htoken => ?_
  subst htoken
  rw [htest]
  exact stuck_pure rfl

theorem stuck_isAt (mark : String) : Stuck (isAt mark) fun found => found = false :=
  stuck_test rfl

theorem stuck_isAtWord (word : String) : Stuck (isAtWord word) fun found => found = false :=
  stuck_test rfl

theorem stuck_isAtName : Stuck isAtName fun found => found = false :=
  stuck_test rfl

theorem stuck_isAtString : Stuck isAtString fun found => found = false :=
  stuck_test rfl

theorem stuck_eat (mark : String) : Stuck (eat mark) fun found => found = false := by
  refine (stuck_isAt mark).bind fun found hfound => ?_
  subst hfound
  exact stuck_pure rfl

theorem stuck_eatWord (word : String) : Stuck (eatWord word) fun found => found = false := by
  refine (stuck_isAtWord word).bind fun found hfound => ?_
  subst hfound
  exact stuck_pure rfl

theorem refuses_expect (mark : String) : Refuses (expect mark) := by
  refine (stuck_eat mark).bind fun found hfound => ?_
  subst hfound
  exact refuses_fail

theorem refuses_expectWord (word : String) : Refuses (expectWord word) := by
  refine (stuck_eatWord word).bind fun found hfound => ?_
  subst hfound
  exact refuses_fail

/-! ### Behind a keyword -/

variable {source : List Char} {h : Prop} {bound left : Nat}

/-- A keyword that is passed in its role stands in the text as a word, if it has been passed without a
fault and a token other than an invalid one follows. -/
theorem keywordAt_of_advance {word : String} (hkeyword : isKeyword word = true) {s s' : State}
    {escaped : Bool} (hsound : s.Sound source) (htoken : s.lexeme.token = .word word escaped)
    (hrun : advance s = .done () s') (hclean : s'.faulty = false)
    (hvalid : s'.lexeme.token ≠ .invalid) :
    KeywordAt source s.lexeme.span.start word.toList := by
  obtain ⟨token, s₁, hpresent, hrun⟩ := done_of_bind hrun
  cases hpresent
  rw [htoken] at hrun
  cases escaped with
  | false =>
    cases hrun
    exact hsound.lexeme.keywordAt htoken hvalid
  | true =>
    obtain ⟨_, s₂, hcheck, hpass⟩ := done_of_bind hrun
    cases hpass
    rw [hkeyword] at hcheck
    cases hcheck
    cases hclean

/-- What is read behind a keyword may rely on it to be a word of the text, unless a fault is noted. -/
theorem ReadsAt.behindKeyword {α : Type} [Located α] {s : State} {word : String}
    (hkeyword : isKeyword word = true) {first : Parser Unit} {next : Unit → Parser α}
    (hfirst : ∀ h bound left, Reads source h bound left first)
    (hpasses : ∀ s', first s = .done () s' →
      (∃ escaped, s.lexeme.token = .word word escaped) ∧ advance s = .done () s')
    (hrefuses : Refuses (next ()))
    (hnext : Reads source ((h ∧ KeywordAt source s.lexeme.span.start word.toList) ∧
      LiesFrom source s.lexeme.span.start s.lexeme.span.start) s.lexeme.span.start
        s.lexeme.span.start (next ())) :
    ReadsAt source h bound left s (first >>= next) := by
  intro value s' hrun
  have hreads : ReadsAt source (h ∧ KeywordAt source s.lexeme.span.start word.toList) bound left s
      (first >>= next) :=
    .behind hfirst (fun s' hrun => previousStop_of_advance (hpasses s' hrun).2) hnext
  obtain ⟨hfaulty, hgives⟩ := hreads value s' hrun
  obtain ⟨_, middle, hpassed, hrest⟩ := done_of_bind hrun
  obtain ⟨⟨escaped, htoken⟩, hadvance⟩ := hpasses middle hpassed
  refine ⟨hfaulty, fun hclean hbefore hsound => hgives hclean ⟨hbefore, ?_⟩ hsound⟩
  refine keywordAt_of_advance hkeyword hsound htoken hadvance ?_ fun hinvalid =>
    (hrefuses middle value s' hinvalid hrest).2
  by_contra hfault
  rw [(hnext.run middle value s' hrest).1 (by simpa using hfault)] at hclean
  cases hclean

end ModuleLinkage.Syntax
