import ModuleLinkage.Proofs.InjectedNames
import ModuleLinkage.Proofs.Lowering.SoleNames
import ModuleLinkage.Proofs.Syntax.Headings
import ModuleLinkage.Proofs.Syntax.Ordering.Heads

/-!
# Names in the heads of default declarations

The name that a function or class without one is given is put behind the words that this begins with, and
is read there as a token of its own, whatever gaps stand between the words (`namesWithin_function`,
`namesWithin_class`). The keyword of a class is looked for in the text behind its decorators, though, so
a comment that holds the word is taken for it, and the class stays without a name
(`rendersAs_of_overlooked`).
-/

set_option autoImplicit false

namespace ModuleLinkage.Lowering

open Syntax Text Unicode EditList

variable {subject : Subject} {program outer inner : Node}

/-! ### Names in heads -/

section Reading

variable {tokens : List Token} {place behind : Place} {pieces : List Syntax.Piece} {gap : List Char}
  {name : String}

/-- A name that is spaced from words and stars is read behind them. -/
theorem exists_spaced (h : Heads tokens place pieces gap behind) (htokens : tokens ≠ [])
    (hplace : place.In subject.source) (hbehind : behind.rest ≠ [])
    (hname : isIdentifier name.toList = true) :
    ∃ named, named.map Syntax.Piece.token = tokens ++ [.plain name] ∧ ∀ rest, ¬ ContinuesName rest →
      ReadAs named (Syntax.textOf pieces gap ++ spacedName subject behind.offset name.toList) rest := by
  have htext (gap' : List Char) : Syntax.textOf pieces gap' = Syntax.textOf pieces [] ++ gap' := by
    simp [Syntax.textOf]
  have hwords := h.text_ne_nil htokens
  have hahead : takeBytes behind.offset subject.source =
      takeBytes place.offset subject.source ++ Syntax.textOf pieces gap := by
    obtain ⟨before, hsource, hoffset⟩ := hplace
    dsimp only at hsource hoffset
    rw [Nat.zero_add] at hoffset
    rw [hsource, h.leads.rest, h.leads.offset, hoffset, takeBytes_width, takeBytes_add, takeBytes_width]
  have hlast : (takeBytes behind.offset subject.source).getLast? = (Syntax.textOf pieces gap).getLast? := by
    rw [hahead, List.getLast?_append_of_ne_nil]
    simp [htext gap, hwords]
  unfold spacedName
  rw [hlast]
  by_cases hgap : gap = []
  · subst hgap
    obtain ⟨c, hc⟩ := Option.isSome_iff_exists.mp (List.getLast?_isSome.mpr hwords)
    obtain ⟨named, htokens, hnamed⟩ := h.exists_named hname isGap_blank fun text =>
      .inr (interrupts_blank text)
    refine ⟨named, htokens, fun rest hrest => ?_⟩
    rw [hc]
    dsimp only
    rw [if_neg (by simp [h.ends c hc])]
    have hread := hnamed rest hrest
    rwa [htext [' '], List.append_assoc] at hread
  · obtain ⟨c, hc⟩ := Option.isSome_iff_exists.mp (List.getLast?_isSome.mpr hgap)
    have hhead (text : List Char) : (gap ++ text).head? = (gap ++ behind.rest).head? := by
      obtain ⟨d, more, rfl⟩ := List.exists_cons_of_ne_nil hgap
      rfl
    rw [htext gap, List.getLast?_append_of_ne_nil _ hgap, hc]
    dsimp only
    split
    · obtain ⟨named, htokens, hnamed⟩ := h.exists_named hname (h.isGap hbehind) fun text =>
        .inl (hhead text)
      refine ⟨named, htokens, fun rest hrest => ?_⟩
      have hread := hnamed rest hrest
      rwa [htext gap] at hread
    · obtain ⟨named, htokens, hnamed⟩ := h.exists_named hname (h.isGap_append hbehind) fun text =>
        .inl ((congrArg List.head? (List.append_assoc gap [' '] text)).trans (hhead _))
      refine ⟨named, htokens, fun rest hrest => ?_⟩
      have hread := hnamed rest hrest
      rwa [htext (gap ++ [' ']), ← List.append_assoc, List.append_assoc _ [' '] name.toList] at hread

end Reading

/-- Whether a lowered text has the name for a default declaration in a stretch: that is the only edit
that reaches into the stretch, it is rendered, and the stretch is then read as certain tokens and the
name behind them, whatever stands behind the stretch. -/
def NamesWithin (subject : Subject) (program : Node) (tokens : List Token) (span : Span) (offset : Nat) :
    Prop :=
  ∃ text named,
    RendersAs subject.source (loweringEdits subject program) span [.insertion offset text] ∧
    splice span.start (slice subject.source span) [.insertion offset text] =
      slice subject.source ⟨span.start, offset⟩ ++ (text ++ slice subject.source ⟨offset, span.stop⟩) ∧
    named.map Syntax.Piece.token = tokens ++ [.plain (String.ofList (defaultName subject))] ∧
    ∀ behind, ReadAs named (slice subject.source ⟨span.start, offset⟩ ++ text)
      (slice subject.source ⟨offset, span.stop⟩ ++ behind)

section Naming

variable {first last keyword : Lexeme} {tokens : List Token} {part : Node} {rest decorators : List Node}
  {modifiers : List String} {ambient : Bool} {span : Span} {offset : Nat}

/-- What a stretch of a text holds behind an offset in it keeps a name before it from going on, if the
text does. -/
theorem not_continuesName_slice {source : List Char} (hoffset : isBoundary source offset = true)
    (hstop : isBoundary source span.stop = true) (hlt : offset < span.stop)
    (hends : ¬ ContinuesName (dropBytes offset source)) (behind : List Char) :
    ¬ ContinuesName (slice source ⟨offset, span.stop⟩ ++ behind) := by
  obtain ⟨-, hslice, hwidth⟩ := exists_slice hoffset hstop hlt.le
  rw [← hslice] at hends
  refine not_continuesName_append (fun hnil => ?_) hends
  rw [hnil, width_nil] at hwidth
  omega

/-- Whether something is exported as the default in a program that was read from a text. -/
structure IsDefault (subject : Subject) (program outer inner : Node) : Prop where
  reference : isPlainIdentifier subject.reference.toList = true
  whole : program.form = .program
  ordered : program.Ordered subject.source false
  anchored : program.Anchored subject.source
  occurs : outer.Occurs program
  form : outer.form = .exportDefault
  parts : outer.parts = [inner]

namespace IsDefault

theorem mem (h : IsDefault subject program outer inner) : inner ∈ outer.parts := by
  rw [h.parts]
  exact List.mem_singleton_self inner

theorem inner_ordered (h : IsDefault subject program outer inner) :
    inner.Ordered subject.source false :=
  (h.occurs.within.ordered h.ordered).part h.mem

theorem inner_anchored (h : IsDefault subject program outer inner) : inner.Anchored subject.source :=
  (h.occurs.anchored h.anchored).parts inner h.mem

theorem fits (h : IsDefault subject program outer inner) {edit : Edit}
    (hedit : edit ∈ loweringEdits subject program) : edit.Fits subject.source :=
  (isLined_of_mem_loweringEdits h.reference h.anchored hedit).1

theorem ownNames_class (h : IsDefault subject program outer inner)
    (hform : inner.form = .classDefinition .declaration ambient) (hname : inner.ownName? = none) :
    ownNames subject outer =
      [.insertion (classNameOffset subject inner) (' ' :: defaultName subject)] := by
  unfold ownNames
  rw [h.form, h.parts]
  dsimp only
  rw [hform, hname]

end IsDefault

/-- A name that is inserted into a vacant stretch, and that is read there, is the one that the text has
in the stretch. -/
theorem namesWithin_of_vacant (h : IsDefault subject program outer inner)
    (hplace : NamePlace subject inner offset) (hvacant : Vacant subject inner span.start span.stop)
    (hstart : isBoundary subject.source span.start = true)
    (hoffset : isBoundary subject.source offset = true)
    (hstop : isBoundary subject.source span.stop = true)
    (hlt : span.start < offset) (hlt' : offset < span.stop)
    (hends : ¬ ContinuesName (dropBytes offset subject.source)) {text : List Char}
    (hnames : ownNames subject outer = [.insertion offset text]) {named : List Syntax.Piece}
    (htokens : named.map Syntax.Piece.token = tokens ++ [.plain (String.ofList (defaultName subject))])
    (hread : ∀ rest, ¬ ContinuesName rest →
      ReadAs named (slice subject.source ⟨span.start, offset⟩ ++ text) rest) :
    NamesWithin subject program tokens span offset := by
  have hreaches : Edit.reaches span (.insertion offset text) = true := by
    simp [Edit.reaches, Edit.insertion, Span.at, hlt, hlt']
  have hsole := filter_loweringEdits h.whole h.ordered h.anchored h.occurs h.form h.parts
    hplace.isDeclared hvacant
  rw [hnames, List.filter_singleton, hreaches, cond_true] at hsole
  exact ⟨text, named, rendersAs_insertion hstart hstop (fun edit => h.fits) hlt hlt' hsole,
    splice_insertion hstart hoffset hstop hlt.le hlt'.le, htokens,
    fun behind => hread _ (not_continuesName_slice hoffset hstop hlt' hends behind)⟩

/-- **Functions.** A function without a name has the generated one right before its type parameters or
parameters, behind its keyword and its star. -/
theorem namesWithin_function (h : IsDefault subject program outer inner)
    (hform : inner.form = .function .declaration ambient) (hname : inner.ownName? = none)
    (hhead : FunctionHead subject.source false inner first last tokens part rest) :
    NamesWithin subject program tokens ⟨inner.span.start, last.next.offset⟩ part.span.start := by
  have hplace : NamePlace subject inner part.span.start := by
    rw [← functionNameOffset_eq hhead.parts hhead.form]
    exact .function hform hname
  have hlast := hhead.precedes.stands hhead.stands
  -- The words are read up to the bracket.
  obtain ⟨place, pieces, gap, behind, hin, hstart, hrun, hnonempty, hbehind, hlt, hrest, hends⟩ :=
    hhead.exists_heads
  have hbehindIn : behind.In subject.source := hin.trans hrun.leads.reaches
  have hslice : slice subject.source ⟨inner.span.start, part.span.start⟩ = Syntax.textOf pieces gap := by
    rw [← hbehind, ← hstart]
    exact hrun.leads.slice hin
  have hwidth : inner.span.start < part.span.start := by
    rw [← hbehind, ← hstart, hrun.leads.offset]
    refine Nat.lt_add_of_pos_right (width_pos fun hnil => hrun.text_ne_nil hnonempty ?_)
    exact List.append_eq_nil_iff.mpr ⟨(List.append_eq_nil_iff.mp hnil).1, rfl⟩
  obtain ⟨named, htokens, hnamed⟩ :=
    exists_spaced hrun hnonempty hin hrest (isIdentifier_defaultName h.reference)
  have hnames : ownNames subject outer =
      [.insertion part.span.start (spacedName subject part.span.start (defaultName subject))] := by
    unfold ownNames
    rw [h.form, h.parts]
    dsimp only
    rw [hform, hname, functionNameOffset_eq hhead.parts hhead.form]
  rw [hbehind, String.toList_ofList, ← hslice] at hnamed
  refine namesWithin_of_vacant h hplace (vacant_of_functionHead hhead hplace h.inner_ordered)
    h.inner_anchored.start (hbehind ▸ hbehindIn.isBoundary) (hlast.stop_eq ▸ hlast.stop) hwidth
    (hbehind ▸ hlt) ?_ hnames htokens hnamed
  rwa [← hbehind, hbehindIn.dropBytes]

/-- **Classes.** A class without a name has the generated one right behind its keyword, if the word does
not stand before that as well, behind the decorators. -/
theorem namesWithin_class (h : IsDefault subject program outer inner)
    (hform : inner.form = .classDefinition .declaration ambient) (hname : inner.ownName? = none)
    (hhead : ClassHead subject.source false inner first keyword modifiers decorators rest)
    (hclear : ¬ "class".toList <:+: beforeKeyword subject inner decorators keyword) :
    NamesWithin subject program (modifiers.map .plain ++ [.plain "class"])
      ⟨first.span.start, (readLexeme false false keyword.next).next.offset⟩ keyword.next.offset := by
  have hplace : NamePlace subject inner (classNameOffset subject inner) := .definition hform hname
  obtain ⟨-, -, hhere⟩ := classNameOffset_cases hhead h.inner_anchored
  -- The words are read up to the keyword and behind it.
  obtain ⟨place, pieces, gap, behind, hin, hstart, hrun, hleads, hkeyword, hlt, hends⟩ :=
    hhead.exists_heads hname
  have hbehindIn : keyword.next.In subject.source := hin.trans hleads.reaches
  have hplaced : classNameOffset subject inner = keyword.next.offset := by rw [hhere hclear, hkeyword]
  have hslice : slice subject.source ⟨first.span.start, keyword.next.offset⟩ = Syntax.textOf pieces [] := by
    rw [← hstart]
    exact hleads.slice hin
  have hwidth : first.span.start < keyword.next.offset := by
    rw [← hstart, hleads.offset]
    exact Nat.lt_add_of_pos_right (width_pos (hrun.text_ne_nil (by simp)))
  obtain ⟨named, htokens, hnamed⟩ := hrun.exists_named (isIdentifier_defaultName h.reference)
    isGap_blank fun text => .inr (interrupts_blank text)
  have hnames := h.ownNames_class hform hname
  rw [hplaced] at hnames
  have hfollow := stands_readLexeme false false (hhead.precedes.stands hhead.stands).next
  refine namesWithin_of_vacant h (hplaced ▸ hplace) (vacant_of_classHead hhead hname hplace
      h.inner_ordered (Nat.le_refl _) (hhead.precedes.start_le hhead.stands))
    hhead.stands.start hbehindIn.isBoundary (hfollow.stop_eq ▸ hfollow.stop) hwidth hlt
    (hbehindIn.dropBytes ▸ hends) hnames htokens fun rest hrest => ?_
  have hread := hnamed rest hrest
  rw [hslice]
  rwa [show Syntax.textOf pieces [' '] = Syntax.textOf pieces [] ++ [' '] by simp [Syntax.textOf],
    String.toList_ofList, List.append_assoc] at hread

/-- **Overlooked keywords.** Where the word `class` stands before the keyword of a class, behind the
decorators, the class stays without a name: its keyword and what follows it are copied. -/
theorem rendersAs_of_overlooked (h : IsDefault subject program outer inner)
    (hform : inner.form = .classDefinition .declaration ambient) (hname : inner.ownName? = none)
    (hhead : ClassHead subject.source false inner first keyword modifiers decorators rest)
    (hword : "class".toList <:+: beforeKeyword subject inner decorators keyword) :
    RendersAs subject.source (loweringEdits subject program)
      ⟨keyword.span.start, (readLexeme false false keyword.next).next.offset⟩ [] := by
  have hplace : NamePlace subject inner (classNameOffset subject inner) := .definition hform hname
  obtain ⟨-, hbefore, -⟩ := classNameOffset_cases hhead h.inner_anchored
  have hkeyword := hhead.precedes.stands hhead.stands
  have hfollow := stands_readLexeme false false hkeyword.next
  have hvacant := vacant_of_classHead hhead hname hplace h.inner_ordered
    (hhead.precedes.start_le hhead.stands) (Nat.le_refl _)
  -- The name goes before the keyword, and nothing else comes near.
  have hnone : (loweringEdits subject program).filter (Edit.reaches
      ⟨keyword.span.start, (readLexeme false false keyword.next).next.offset⟩) = [] := by
    rw [filter_loweringEdits h.whole h.ordered h.anchored h.occurs h.form h.parts hplace.isDeclared
      hvacant, h.ownNames_class hform hname]
    refine filter_reaches_eq_nil fun edit hedit => .inl ?_
    obtain rfl := List.mem_singleton.mp hedit
    exact hbefore hword
  refine rendersAs_nil hkeyword.start (hfollow.stop_eq ▸ hfollow.stop) hvacant.forward
    (fun edit => h.fits) fun edit hedit => Edit.reaches_eq_false_iff.mp ?_
  simpa using List.filter_eq_nil_iff.mp hnone edit hedit

end Naming

end ModuleLinkage.Lowering
