import ModuleLinkage.Proofs.Syntax.Ordering.Brackets

/-!
# The heads of declarations

A class or function that a parser has read begins with the words and marks of one. These are written
without escapes, unless a fault is noted, and what the parser gives stands behind them.
-/

set_option autoImplicit false
set_option synthInstance.maxSize 1000000000
set_option synthInstance.maxHeartbeats 200000

namespace ModuleLinkage.Syntax

open Text

variable {source : List Char} {markers : Bool} {g : Grammar} {s s' : State}

/-! ### Tokens that are passed -/

namespace Lexeme.Precedes

variable {first middle last : Lexeme} {tokens tokens' : List Token}

theorem token_eq {token : Token} (h : first.Precedes markers (token :: tokens) last) :
    first.token = token := by
  cases h
  rfl

/-- A word that plain words precede begins with a word. -/
theorem exists_word {modifiers : List String} {word : String}
    (h : first.Precedes markers (modifiers.map .plain) last) (hlast : last.token = .plain word) :
    ∃ word, first.token = .plain word := by
  cases modifiers with
  | nil =>
    cases h
    exact ⟨word, hlast⟩
  | cons modifier modifiers => exact ⟨modifier, h.token_eq⟩

theorem trans (h : first.Precedes markers tokens middle) (h' : middle.Precedes markers tokens' last) :
    first.Precedes markers (tokens ++ tokens') last := by
  induction h with
  | self => exact h'
  | next _ ih => exact .next (ih h')

end Lexeme.Precedes

/-- A word is what is read where it stands. -/
theorem Lexeme.IsNext.isFresh {lexeme : Lexeme} {offset : Nat} {name : String} {escaped : Bool}
    (h : lexeme.IsNext source markers offset) (htoken : lexeme.token = .word name escaped) :
    lexeme.IsFresh source := by
  obtain ⟨place, marked, newline, hplace, -, -, hread⟩ := h name escaped htoken
  rw [hread] at htoken ⊢
  unfold readLexeme at htoken ⊢
  split at htoken
  · next gap hgap => exact ⟨gap.next, hplace.skipGap hgap, rfl, rfl⟩
  · cases htoken

/-- A keyword that is passed precedes what is read next. -/
theorem precedes_of_advance {word : String} {escaped : Bool} (hkeyword : isKeyword word = true)
    (hmarkers : (!s.settings.module) = markers) (htoken : s.lexeme.token = .word word escaped)
    (hrun : advance s = .done () s') (hclean : s'.faulty = false) :
    s.lexeme.token = .plain word ∧ s.lexeme.Precedes markers [.plain word] s'.lexeme := by
  have hplain := unescaped_of_advance hkeyword htoken hrun hclean
  have hself : s'.lexeme.Precedes markers [] s'.lexeme := .self _
  rw [(done_of_advance hrun).2, hmarkers] at hself
  have hnext := Lexeme.Precedes.next hself
  rw [hplain] at hnext
  rw [(done_of_advance hrun).2, hmarkers]
  exact ⟨hplain, hnext⟩

theorem precedes_of_expectWord {word : String} (hkeyword : isKeyword word = true)
    (hmarkers : (!s.settings.module) = markers) (hrun : expectWord word s = .done () s')
    (hclean : s'.faulty = false) :
    s.lexeme.token = .plain word ∧ s.lexeme.Precedes markers [.plain word] s'.lexeme := by
  obtain ⟨⟨escaped, htoken⟩, hadvance⟩ := advance_of_expectWord hrun
  exact precedes_of_advance hkeyword hmarkers htoken hadvance hclean

theorem precedes_of_eatWord {word : String} (hkeyword : isKeyword word = true)
    (hmarkers : (!s.settings.module) = markers) {eaten : Bool} (hrun : eatWord word s = .done eaten s')
    (hclean : s'.faulty = false) :
    s.lexeme.Precedes markers (if eaten then [.plain word] else []) s'.lexeme := by
  obtain ⟨found, s₁, hfound, hrun⟩ := done_of_bind hrun
  obtain ⟨rfl, htoken⟩ := token_of_isAtWord hfound
  cases found with
  | true =>
    obtain ⟨escaped, htoken⟩ := htoken rfl
    obtain ⟨_, s₂, hadvance, hpure⟩ := done_of_bind hrun
    cases hpure
    exact (precedes_of_advance hkeyword hmarkers htoken hadvance hclean).2
  | false =>
    cases hrun
    exact .self _

theorem precedes_of_eat {mark : String} (hmarkers : (!s.settings.module) = markers) {eaten : Bool}
    (hrun : eat mark s = .done eaten s') :
    s.lexeme.Precedes markers (if eaten then [.punctuator mark] else []) s'.lexeme := by
  obtain ⟨found, s₁, hfound, hrun⟩ := done_of_bind hrun
  cases hfound
  split at hrun
  · next htoken =>
    obtain ⟨_, s₂, hadvance, hpure⟩ := done_of_bind hrun
    cases hpure
    have hself : s'.lexeme.Precedes markers [] s'.lexeme := .self _
    rw [(done_of_advance hadvance).2, hmarkers] at hself
    have hnext := Lexeme.Precedes.next hself
    rw [show s.lexeme.token = .punctuator mark by simpa using htoken] at hnext
    rw [(done_of_advance hadvance).2, hmarkers]
    exact hnext
  · cases hrun
    exact .self _

/-! ### The head of a function -/

theorem exists_cons_of_mem_functionHeads {tokens : List Token} (h : tokens ∈ functionHeads) :
    ∃ word rest, tokens = .plain word :: rest := by
  simp only [functionHeads, List.mem_cons, List.not_mem_nil, or_false] at h
  rcases h with rfl | rfl | rfl | rfl <;> exact ⟨_, _, rfl⟩

theorem precedes_of_functionMarks (hmarkers : (!s.settings.module) = markers) {marks : FunctionMarks}
    (hrun : functionMarks s = .done marks s') (hclean : s'.faulty = false) :
    ∃ tokens ∈ functionHeads, s.lexeme.Precedes markers tokens s'.lexeme := by
  obtain ⟨isAsync, s₁, hasync, hrun⟩ := done_of_bind hrun
  obtain ⟨_, s₂, hfunction, hrun⟩ := done_of_bind hrun
  obtain ⟨isGenerator, s₃, hstar, hpure⟩ := done_of_bind hrun
  cases hpure
  have hsettings₁ : s₁.settings = s.settings := Steady.settings _ _ _ hasync
  have hsettings₂ : s₂.settings = s₁.settings := Steady.settings _ _ _ hfunction
  have hclean₂ := clean_of_reads [] hstar hclean
  have hclean₁ := clean_of_reads [] hfunction hclean₂
  have hhead := (precedes_of_eatWord (by decide) hmarkers hasync hclean₁).trans
    ((precedes_of_expectWord (by decide) (hsettings₁ ▸ hmarkers) hfunction hclean₂).2.trans
      (precedes_of_eat (hsettings₂ ▸ hsettings₁ ▸ hmarkers) hstar))
  refine ⟨_, ?_, hhead⟩
  cases isAsync <;> cases isGenerator <;> decide

/-- A function has a name, or nothing is passed in place of one. -/
theorem cases_functionName {optional : Bool} {name : List Node}
    (hrun : functionName optional s = .done name s') :
    name = [] ∧ s'.lexeme = s.lexeme ∨ ∃ (node : Node) (word : String), name = [node] ∧
      node.form = .binding word := by
  obtain ⟨token, s₁, hpresent, hrun⟩ := done_of_bind hrun
  cases hpresent
  generalize s.lexeme.token = token at hrun
  split at hrun
  · split at hrun
    · obtain ⟨_, s₂, hrequire, hpure⟩ := done_of_bind hrun
      cases hpure
      exact .inl ⟨rfl, by rw [(done_of_require hrequire).2]⟩
    · obtain ⟨node, s₂, hname, hpure⟩ := done_of_bind hrun
      cases hpure
      have hform : Gives bindingName fun node => ∃ word, node.form = .binding word :=
        gives_variableName fun _ word => ⟨word, rfl⟩
      obtain ⟨word, hword⟩ := hform _ _ _ hname
      exact .inr ⟨node, word, rfl, hword⟩
  · obtain ⟨_, s₂, hcheck, hpure⟩ := done_of_bind hrun
    cases hpure
    exact .inl ⟨rfl, (stays_check _).lexeme _ _ _ hcheck⟩

/-- **Functions without a name.** A function that is read from where it begins has a name, or it begins
with the words and marks of a function and its parameters follow. -/
theorem headedFunction_of_run (hreading : s.Reading source markers) {ambient nameOptional : Bool}
    {node : Node} (hrun : functionDeclaration g s.lexeme.span.start false ambient nameOptional s =
      .done node s') (hclean : s'.faulty = false) [LaysAll source markers g] (hname : node.ownName? = none) :
    HeadedFunction source markers node := by
  obtain ⟨marks, s₁, hmarks, hrun⟩ := done_of_bind hrun
  obtain ⟨name, s₂, hnamed, hrun⟩ := done_of_bind hrun
  obtain ⟨parts, s₃, hparts, hrun⟩ := done_of_bind hrun
  obtain ⟨function, s₄, hfunction, hrun⟩ := done_of_bind hrun
  obtain ⟨_, s₅, hcheck, hpure⟩ := done_of_bind hrun
  cases hpure
  have hclean₄ := clean_of_reads source hcheck hclean
  cases hfunction
  have hclean₂ := clean_of_lays source markers hparts hclean₄
  have hclean₁ := clean_of_lays source markers hnamed hclean₂
  obtain ⟨tokens, hmem, hhead⟩ := precedes_of_functionMarks hreading.markers hmarks hclean₁
  have hreading₁ := ((moves_of_reads source markers hmarks).2 hclean₁ hreading).1
  have hreading₂ := (placed_of_run hreading₁ hnamed hclean₂).1
  obtain ⟨hopening, part, rest, rfl, hform, hbrackets, hopens⟩ :=
    exists_part_of_functionParts hreading₂ hparts hclean₄
  obtain ⟨rfl, hlexeme⟩ | ⟨binding, word, rfl, hbinding⟩ := cases_functionName hnamed
  · rw [hlexeme] at hopening hbrackets hopens
    obtain ⟨word, more, rfl⟩ := exists_cons_of_mem_functionHeads hmem
    have hword := hhead.token_eq
    exact ⟨s.lexeme, s₁.lexeme, _, part, rest, hreading.sound.lexeme, hreading.sound.next.isFresh hword,
      rfl, hmem, hhead, hopening, rfl, hform, hbrackets, hopens⟩
  · have hbound := boundName?_of_binding hbinding
    rw [Node.ownName?, Node.parts, List.singleton_append, List.findSome?_cons_of_isSome] at hname
    · rw [hbound] at hname
      cases hname
    · rw [hbound]
      rfl

/-! ### Decorators and modifiers -/

theorem gives_decorators : Gives (decorators g) fun nodes => ∀ node ∈ nodes, node.form = .decorator := by
  have hdecorator : Gives (decorator g) fun node => node.form = .decorator :=
    .bind fun _ => .bind fun _ => .bind fun _ => .bind fun _ => gives_finish fun _ => rfl
  refine gives_many (.bind fun isDecorator => ?_)
  split
  · exact .bind_of hdecorator fun _ hform => gives_some hform
  · exact gives_none

/-- Where nothing is read any number of times, it is not read once. -/
theorem done_of_many {α : Type} {step : Parser (Option α)}
    (hrun : Parser.many step s = .done [] s') : step s = .done none s' := by
  obtain ⟨reversed, s₁, hiterate, hpure⟩ := done_of_bind hrun
  obtain ⟨hnil, rfl⟩ := Outcome.done.inj hpure
  obtain rfl : reversed = [] := List.reverse_eq_nil_iff.mp hnil
  obtain ⟨state, s₂, hget, hupTo⟩ := done_of_bind hiterate
  cases hget
  generalize s.total + 3 - s.lexeme.span.start = count at hupTo
  cases count with
  | zero => cases hupTo
  | succ count =>
    obtain ⟨next?, s₃, hnext, hrest⟩ := done_of_bind hupTo
    obtain ⟨value?, s₄, hvalue, hpure⟩ := done_of_bind hnext
    cases value? with
    | none =>
      cases hpure
      cases hrest
      exact hvalue
    | some value =>
      cases hpure
      -- What has been read once stays among what is read.
      have hsome : Gives (Parser.iterateUpTo count (oneMore step) [value]) fun values => values ≠ [] := by
        refine gives_iterateUpTo (fun values _ => .bind fun value? => ?_) count (List.cons_ne_nil _ _)
        split
        · exact gives_some (List.cons_ne_nil _ _)
        · exact gives_none
      exact absurd rfl (hsome _ _ _ hrest)

/-- Where no decorator is read, the parser stays where it is. -/
theorem lexeme_of_decorators (hrun : decorators g s = .done [] s') : s'.lexeme = s.lexeme := by
  obtain ⟨isDecorator, s₁, hdecorator, hrest⟩ := done_of_bind (done_of_many hrun)
  cases hdecorator
  split at hrest
  · obtain ⟨node, s₂, -, hpure⟩ := done_of_bind hrest
    cases hpure
  · cases hrest
    rfl

/-- The last of the nodes that are read one after another ends before the present token. -/
theorem stop_of_many {step : Parser (Option Node)} {nodes : List Node}
    (hsome : ∀ s node s', step s = .done (some node) s' → node.span.stop = s'.previousStop)
    (hnone : ∀ s s', step s = .done none s' → s'.previousStop = s.previousStop)
    (hrun : Parser.many step s = .done nodes s') :
    ∀ last ∈ nodes.getLast?, last.span.stop = s'.previousStop := by
  have hupTo (count : Nat) (values : List Node) {s : State} {result : List Node}
      (hvalues : ∀ last ∈ values.head?, last.span.stop = s.previousStop)
      (hrun : Parser.iterateUpTo count (oneMore step) values s = .done result s') :
      ∀ last ∈ result.head?, last.span.stop = s'.previousStop := by
    induction count generalizing values s with
    | zero => cases hrun
    | succ count ih =>
      obtain ⟨next?, s₁, hnext, hrest⟩ := cases_iterateUpTo hrun
      obtain ⟨value?, s₂, hvalue, hpure⟩ := done_of_bind hnext
      cases value? with
      | none =>
        cases hpure
        obtain ⟨-, rfl, rfl⟩ | ⟨next, hsome, -⟩ := hrest
        · rw [hnone _ _ hvalue]
          exact hvalues
        · cases hsome
      | some value =>
        cases hpure
        obtain ⟨hnone, -⟩ | ⟨next, heq, hrest⟩ := hrest
        · cases hnone
        · cases heq
          refine ih (value :: values) (fun last hlast => ?_) hrest
          obtain rfl := Option.some.inj hlast
          exact hsome _ _ _ hvalue
  obtain ⟨reversed, s₁, hiterate, hpure⟩ := done_of_bind hrun
  cases hpure
  obtain ⟨state, s₂, hget, hcounted⟩ := done_of_bind hiterate
  cases hget
  rw [List.getLast?_reverse]
  refine hupTo _ [] (fun last hlast => ?_) hcounted
  cases hlast

/-- The last decorator ends before the present token. -/
theorem stop_of_decorators {nodes : List Node} (hrun : decorators g s = .done nodes s') :
    ∀ last ∈ nodes.getLast?, last.span.stop = s'.previousStop := by
  refine stop_of_many (fun s node s' hrun => ?_) (fun s s' hrun => ?_) hrun
  all_goals
    obtain ⟨isDecorator, s₁, hdecorator, hrest⟩ := done_of_bind hrun
    cases hdecorator
    split at hrest
  · obtain ⟨node, s₂, hnode, hpure⟩ := done_of_bind hrest
    cases hpure
    obtain ⟨start, s₃, -, hexpecting⟩ := done_of_bind hnode
    obtain ⟨_, s₄, -, hoperand⟩ := done_of_bind hexpecting
    obtain ⟨expression, s₅, -, hchecking⟩ := done_of_bind hoperand
    obtain ⟨_, s₆, -, hfinish⟩ := done_of_bind hchecking
    cases hfinish
    rfl
  · cases hrest
  · obtain ⟨node, s₂, -, hpure⟩ := done_of_bind hrest
    cases hpure
  · cases hrest
    rfl

/-- The words that are modifiers have roles of their own. -/
theorem isKeyword_of_isModifierWord {word : String} (h : isModifierWord word = true) :
    isKeyword word = true := by
  refine List.all_eq_true.mp ?_ word (List.contains_iff_mem.mp h)
  decide

/-- What reads one more modifier behind others, if there is one. -/
def oneModifier (isNext : List String → String → Parser Bool) (before : List String) :
    Parser (Option (List String)) := do
  match ← present with
  | .word word _ =>
    if isModifierWord word && (← isNext before word) then
      Parser.check (mayFollow word before)
      advance
      return some (before ++ [word])
    return none
  | _ => return none

/-- Modifiers precede what is read behind them. -/
theorem precedes_of_modifiersWhile {isNext : List String → String → Parser Bool}
    [hstays : ∀ before word, Stays (isNext before word)]
    [hsteady : ∀ before word, Steady (isNext before word)]
    [∀ h bound left before word, Reads [] h bound left (isNext before word)]
    (hmarkers : (!s.settings.module) = markers) {modifiers : List String}
    (hrun : modifiersWhile isNext s = .done modifiers s') (hclean : s'.faulty = false) :
    s.lexeme.Precedes markers (modifiers.map .plain) s'.lexeme := by
  have hupTo (count : Nat) (before : List String) {s : State}
      (hmarkers : (!s.settings.module) = markers)
      (hrun : Parser.iterateUpTo count (oneModifier isNext) before s = .done modifiers s') :
      ∃ behind, modifiers = before ++ behind ∧
        s.lexeme.Precedes markers (behind.map .plain) s'.lexeme := by
    induction count generalizing before s with
    | zero => cases hrun
    | succ count ih =>
      obtain ⟨next?, s₁, hnext, hrest⟩ := done_of_bind hrun
      obtain ⟨token, s₂, hpresent, hnext⟩ := done_of_bind hnext
      obtain ⟨htoken, rfl⟩ := Outcome.done.inj hpresent
      change s.lexeme.token = token at htoken
      split at hnext
      case h_2 =>
        cases hnext
        cases hrest
        exact ⟨[], (List.append_nil _).symm, .self _⟩
      next word escaped =>
      obtain ⟨found, s₂, hfound, hnext⟩ := done_of_bind hnext
      have hlexeme := (hstays _ _).lexeme _ _ _ hfound
      have hsettings := (hsteady _ _).settings _ _ _ hfound
      split at hnext
      · next hmodifier =>
        obtain ⟨_, s₃, hcheck, hnext⟩ := done_of_bind hnext
        obtain ⟨_, s₄, hadvance, hpure⟩ := done_of_bind hnext
        cases hpure
        rw [← (stays_check _).lexeme _ _ _ hcheck] at hlexeme
        rw [← (steady_check _).settings _ _ _ hcheck] at hsettings
        have hclean₁ : s₁.faulty = false := by
          refine @clean_of_reads _ _ _ _ _ [] _ ?_ hrest hclean
          refine reads_iterateUpTo _ (fun _ => Plain.liesFrom _ _ _) fun modifiers => .step fun token => ?_
          split <;> infer_instance
        have hkeyword := isKeyword_of_isModifierWord (Bool.and_eq_true_iff.mp hmodifier).1
        have hword := (precedes_of_advance hkeyword (hsettings ▸ hmarkers) (hlexeme ▸ htoken) hadvance
          hclean₁).2
        rw [hlexeme] at hword
        rw [← hsettings, ← steady_advance.settings _ _ _ hadvance] at hmarkers
        obtain ⟨behind, rfl, hbehind⟩ := ih _ hmarkers hrest
        exact ⟨word :: behind, List.append_assoc _ _ _, hword.trans hbehind⟩
      · cases hnext
        cases hrest
        exact ⟨[], (List.append_nil _).symm, hlexeme ▸ .self _⟩
  obtain ⟨state, s₁, hget, hiterate⟩ := done_of_bind hrun
  cases hget
  obtain ⟨behind, rfl, hprecedes⟩ := hupTo _ [] hmarkers hiterate
  exact hprecedes

instance stays_modifies (word : String) : Stays (modifies word) := by
  unfold modifies
  split <;> infer_instance

theorem precedes_of_plainModifiers (hmarkers : (!s.settings.module) = markers)
    {modifiers : List String} (hrun : plainModifiers s = .done modifiers s')
    (hclean : s'.faulty = false) :
    s.lexeme.Precedes markers (modifiers.map .plain) s'.lexeme := by
  have hstays (before : List String) (word : String) : Stays
      (if word == "const" || (word == "static" && before.contains "static") then pure false
        else modifies word) := by
    split <;> infer_instance
  exact precedes_of_modifiersWhile hmarkers hrun hclean

/-! ### The head of a class -/

/-- The forms of all nodes but decorators. -/
@[reducible] def Form.isUndecorating : Form → Bool
  | .decorator => false
  | _ => true

/-- Whether there is no decorator among some nodes. -/
def Undecorated (nodes : List Node) : Prop :=
  ∀ node ∈ nodes, node.form.isUndecorating = true

theorem undecorated_append {first second : List Node} (hfirst : Undecorated first)
    (hsecond : Undecorated second) : Undecorated (first ++ second) :=
  List.forall_mem_append.mpr ⟨hfirst, hsecond⟩

theorem undecorated_single {node : Node} (hnode : node.form.isUndecorating = true) :
    Undecorated [node] :=
  List.forall_mem_singleton.mpr hnode

theorem gives_heritageArguments : Gives (heritageArguments? g) Undecorated := by
  have harguments : GivesForm Form.isUndecorating (typeArguments g) := by
    unfold typeArguments
    infer_instance
  unfold heritageArguments?
  refine .bind fun found => ?_
  split
  · exact .bind_of harguments.gives fun _ hform => gives_pure (undecorated_single hform)
  · exact gives_pure (List.forall_mem_nil _)

theorem gives_typeParameters : Gives (typeParameters? g) Undecorated := by
  unfold typeParameters?
  refine .bind fun types => .bind fun found => ?_
  split
  · exact .bind fun start => .bind fun items => .bind_of (gives_finish fun _ => rfl) fun node hform =>
      gives_pure (undecorated_single hform)
  · exact gives_pure (List.forall_mem_nil _)

section Classes

variable [GivesOperands g]

theorem gives_superclass : Gives (superclass g) Undecorated := by
  have hparent : GivesForm Form.isUndecorating (g .leftHandSide) :=
    form_nonterminal.imp fun form hform => by cases form <;> first | rfl | cases hform
  unfold superclass
  exact .bind_of hparent.gives fun _ hform => .bind_of gives_heritageArguments fun _ harguments =>
    gives_pure (undecorated_append (undecorated_single hform) harguments)

theorem gives_heritage : Gives (heritage g) fun heritage =>
    (∀ parent ∈ heritage.parents, Undecorated parent) ∧ Undecorated heritage.implemented := by
  have himplemented : Gives (implemented g) fun node => node.form.isUndecorating = true := by
    unfold implemented
    exact .bind fun _ => .bind fun _ => .bind fun _ => gives_finish fun _ => rfl
  have hothers : Gives (Parser.many do
      if ← eat "," then return some (← superclass g)
      return none) fun parents => ∀ parent ∈ parents, Undecorated parent := by
    refine gives_many (.bind fun isComma => ?_)
    split
    · exact .bind_of gives_superclass fun _ hparent => gives_some hparent
    · exact gives_none
  unfold heritage
  refine .bind fun state => gives_iterateUpTo (fun heritage hheritage => ?_) _
    ⟨List.forall_mem_nil _, List.forall_mem_nil _⟩
  refine .bind fun extends' => ?_
  split
  · refine .bind fun _ => .bind_of gives_superclass fun first hfirst =>
      .bind_of hothers fun rest hrest => gives_some ?_
    exact ⟨List.forall_mem_append.mpr ⟨hheritage.1, List.forall_mem_cons.mpr ⟨hfirst, hrest⟩⟩,
      hheritage.2⟩
  refine .bind fun implements => ?_
  split
  · exact .bind fun _ => .bind_of (gives_commaSequence himplemented) fun interfaces hinterfaces =>
      gives_some ⟨hheritage.1, undecorated_append hheritage.2 hinterfaces⟩
  · exact gives_none

/-- No part of a class behind its keyword is a decorator. -/
theorem gives_classParts {modifiers : List String} : Gives (classParts g modifiers) Undecorated := by
  have hbehind (name : List Node) (hname : Undecorated name) : Gives (do
      let typeParameters ← typeParameters? g
      let heritage ← heritage g
      Parser.check (heritage.parents.length ≤ 1)
      let body ← classBody g
      return name ++ (typeParameters ++ (heritage.parents.flatten ++ (heritage.implemented ++ [body]))))
      Undecorated := by
    have hbody : Gives (classBody g) fun node => node.form.isUndecorating = true := by
      unfold classBody
      exact .bind fun _ => .bind fun _ => .bind fun _ => .bind fun _ => gives_finish fun _ => rfl
    refine .bind_of gives_typeParameters fun types htypes => .bind_of gives_heritage fun heritage hheritage =>
      .bind fun _ => .bind_of hbody fun body hform => gives_pure ?_
    have hparents : Undecorated heritage.parents.flatten := fun node hnode => by
      obtain ⟨parent, hparent, hmem⟩ := List.mem_flatten.mp hnode
      exact hheritage.1 parent hparent node hmem
    exact undecorated_append hname (undecorated_append htypes (undecorated_append hparents
      (undecorated_append hheritage.2 (undecorated_single hform))))
  unfold classParts
  refine .bind fun _ => .bind fun _ => .bind fun named => ?_
  split
  · exact .bind_of (gives_variableName fun _ _ => rfl) fun name hname =>
      hbehind [name] (undecorated_single hname)
  · exact hbehind [] (List.forall_mem_nil _)

/-- **Classes.** A class that is read begins with its keyword, and its parts stand behind that. -/
theorem done_of_classDefinition [hall : LaysAll source markers g] (hreading : s.Reading source markers)
    {start : Nat} {decorators : List Node} {modifiers : List String} {node : Node}
    (hrun : classDefinition g start decorators modifiers .declaration s = .done node s')
    (hclean : s'.faulty = false) : s.lexeme.token = .plain "class" ∧
      (∀ modifier ∈ modifiers, modifier ∈ ["abstract", "declare"]) ∧
        ∃ parts, node = .mk ⟨start, s'.previousStop⟩
            (.classDefinition .declaration (modifiers.contains "declare")) (decorators ++ parts) ∧
          InLine source markers s.lexeme.next.offset s'.previousStop parts ∧
            s.lexeme.next.offset ≤ s'.previousStop ∧ Undecorated parts ∧
              (node.ownName? = none → (readLexeme markers false s.lexeme.next).token ∈ classTails ∧
                (readLexeme markers false s.lexeme.next).Opens parts ∧ parts ≠ []) := by
  rw [classDefinition_eq] at hrun
  obtain ⟨_, s₁, hkeyword, hrun⟩ := done_of_bind hrun
  obtain ⟨parts, s₂, hparts, hfinish⟩ := done_of_bind hrun
  cases hfinish
  have hclean₁ := clean_of_lays source markers hparts hclean
  have hadvance := (advance_of_expectWord hkeyword).2
  obtain ⟨hreading₁, hprevious⟩ := reading_of_advance hreading hadvance hclean₁
  have hline := lies_nodes_iff.mp (placed_of_run hreading₁ hparts hclean).2.2
  rw [hprevious] at hline
  have hnonempty : parts ≠ [] := (knows_classParts modifiers).gives s₁ parts s' hparts
  obtain ⟨part, hpart⟩ := List.exists_mem_of_ne_nil parts hnonempty
  refine ⟨(precedes_of_expectWord (by decide) hreading.markers hkeyword hclean₁).1, ?_, parts, rfl, hline,
    hline.le_of_mem hpart, gives_classParts s₁ parts s' hparts, fun hname => ?_⟩
  case refine_2 =>
    have hnone := List.findSome?_eq_none_iff.mp hname
    rw [← hreading.markers, ← (done_of_advance hadvance).2]
    obtain ⟨htail, hopens⟩ := opens_of_classParts hreading₁ hparts hclean
      fun part hpart => hnone part (List.mem_append_right _ hpart)
    exact ⟨htail, hopens, hnonempty⟩
  -- Other modifiers are a fault, which is not forgotten.
  obtain ⟨_, s₃, hcheck, hrest⟩ := done_of_bind hparts
  have hclean₃ := clean_of_reads source hrest hclean
  unfold checkModifiers Parser.check at hcheck
  split at hcheck
  · next hallowed =>
    exact fun modifier hmodifier =>
      List.contains_iff_mem.mp (List.all_eq_true.mp hallowed modifier hmodifier)
  · cases hcheck
    cases hclean₃

end Classes

end ModuleLinkage.Syntax
