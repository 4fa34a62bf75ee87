import ModuleLinkage.Proofs.Lowering.Regions
import ModuleLinkage.Proofs.Lowering.Standing
import ModuleLinkage.Proofs.Text.Inserting

/-!
# The edits at the head of a default declaration

What a function or class without a name begins with is vacant up to what follows its keyword
(`vacant_of_functionHead`, `vacant_of_classHead`), so no edit reaches into it but one that names it. That
is made once: in an ordered tree the node stands at one place only, and the edits for all others lie
beside it (`filter_loweringEdits`).
-/

set_option autoImplicit false

namespace ModuleLinkage.Syntax

variable {node part root : Node}

theorem Node.Occurs.of_mem_parts (h : node.Occurs root) (hform : node.form ≠ .namespaceDeclaration true)
    (hpart : part ∈ node.parts) : part.Occurs root := by
  induction h with
  | self => exact .inside hform hpart .self
  | inside hroot hmem _ ih => exact .inside hroot hmem ih

theorem Node.sizeOf_lt_of_mem_parts (hpart : part ∈ node.parts) : sizeOf part < sizeOf node := by
  obtain ⟨span, form, parts⟩ := node
  have hlt := List.sizeOf_lt_of_mem (show part ∈ parts from hpart)
  simp only [Node.mk.sizeOf_spec]
  omega

theorem Node.Occurs.sizeOf_le (h : node.Occurs root) : sizeOf node ≤ sizeOf root := by
  induction h with
  | self => exact Nat.le_refl _
  | inside hroot hmem _ ih => exact ih.trans (Node.sizeOf_lt_of_mem_parts hmem).le

/-- Nothing occurs in a part of itself. -/
theorem Node.Occurs.not_mem_parts (h : node.Occurs root) : root ∉ node.parts := fun hmem =>
  absurd h.sizeOf_le (Nat.not_le.mpr (Node.sizeOf_lt_of_mem_parts hmem))

end ModuleLinkage.Syntax

namespace ModuleLinkage.Lowering

open Syntax Text EditList

variable {subject : Subject} {markers : Bool} {outer inner root : Node} {span : Span}

theorem Stands.occurs {node : Node} {inNamespace inside : Bool}
    (h : Stands node inNamespace inside root) : node.Occurs root := by
  induction h with
  | self => exact .self
  | inside hform hpart _ ih => exact .inside (hform true) hpart ih
  | member hform hpart _ ih => exact .inside (by simp [hform]) hpart ih

/-! ### The only edit that reaches into a head -/

/-- The edits of the first pass for a node itself. -/
def ownEdits (subject : Subject) (inNamespace : Bool) (node : Node) : List Edit :=
  ownChanges subject inNamespace node ++ ownNames subject node

theorem ownSpan_of_mem_ownEdits {node : Node} {inNamespace : Bool} {edit : Edit}
    (hedit : edit ∈ ownEdits subject inNamespace node) : OwnSpan subject node edit.span :=
  (List.mem_append.mp hedit).elim (fun hchange => (ownChange_of_mem_ownChanges hchange).ownSpan)
    fun hname => (ownName_of_mem_ownNames hname).ownSpan

theorem filter_reaches_eq_nil {edits : List Edit} (hbeside : ∀ edit ∈ edits,
    edit.span.stop ≤ span.start ∨ span.stop ≤ edit.span.start) : edits.filter (·.reaches span) = [] :=
  List.filter_eq_nil_iff.mpr fun edit hedit =>
    Bool.eq_false_iff.mp (Edit.reaches_eq_false_iff.mpr (hbeside edit hedit))

/-- Where the edits for all nodes in a tree lie beside a stretch, none of them reaches into it. -/
theorem filter_collect_eq_nil {inNamespace : Bool}
    (hbeside : ∀ node : Node, node.Occurs root → ∀ range, OwnSpan subject node range →
      range.stop ≤ span.start ∨ span.stop ≤ range.start) :
    (collect (ownEdits subject) inNamespace root).filter (·.reaches span) = [] := by
  refine filter_reaches_eq_nil fun edit hedit => ?_
  obtain ⟨node, inside, hoccurs, hown⟩ := exists_of_mem_collect _ hedit
  exact hbeside node hoccurs _ (ownSpan_of_mem_ownEdits hown)

/-- What a default declaration without a name is: a function or class. -/
theorem NamePlace.isDeclared {offset : Nat} (h : NamePlace subject inner offset) :
    inner.isDeclared = true := by
  obtain ⟨span, form, parts⟩ := inner
  cases h with
  | function hform | definition hform =>
    obtain rfl : form = _ := hform
    rfl

/-- The edits of the first pass for a node are its own and those for its parts. -/
theorem exists_ownEdits_eq (subject : Subject) {node : Node}
    (hform : node.form ≠ .namespaceDeclaration true) (inNamespace : Bool) :
    ∃ inside, collect (ownEdits subject) inNamespace node =
      ownEdits subject inNamespace node ++ node.parts.flatMap (collect (ownEdits subject) inside) := by
  refine exists_collect_eq _ hform (fun inside hnamespace => ?_) inNamespace
  unfold ownEdits ownChanges ownNames
  rw [hnamespace]
  rfl

/-- The edits for what stands beside a part lie beside a vacant stretch of what stands in it. -/
theorem filter_flatMap_collect {node : Node} (hordered : node.Ordered subject.source markers)
    (hanchored : node.Anchored subject.source) (hpart : root ∈ node.parts) (hoccurs : inner.Occurs root)
    (hvacant : Vacant subject inner span.start span.stop) (inside : Bool) :
    (node.parts.flatMap (collect (ownEdits subject) inside)).filter (·.reaches span) =
      (collect (ownEdits subject) inside root).filter (·.reaches span) := by
  have hbeside (others : List Node) (hothers : ∀ other ∈ others, other ∈ node.parts ∧ other.IsApart root) :
      (others.flatMap (collect (ownEdits subject) inside)).filter (·.reaches span) = [] := by
    rw [List.filter_flatMap, List.flatMap_eq_nil_iff]
    intro other hother
    obtain ⟨hmem, hapart⟩ := hothers other hother
    exact filter_collect_eq_nil fun within hwithin range hrange =>
      hrange.isBeside_of_apart (hordered.part hmem) (hanchored.parts other hmem) (hordered.part hpart)
        hapart.isListing hwithin hoccurs hvacant
  obtain ⟨before, after, hsplit⟩ := List.append_of_mem hpart
  have hpairwise := hordered.pairwise_isApart
  rw [hsplit] at hpairwise
  obtain ⟨-, hafter, hbefore⟩ := List.pairwise_append.mp hpairwise
  have hbehind := hbeside after fun other hother =>
    ⟨by simp [hsplit, hother], (List.rel_of_pairwise_cons hafter hother).symm⟩
  have hahead := hbeside before fun other hother =>
    ⟨by simp [hsplit, hother], hbefore other hother root List.mem_cons_self⟩
  rw [hsplit, List.flatMap_append, List.flatMap_cons, List.filter_append, List.filter_append, hahead,
    hbehind, List.nil_append, List.append_nil]

/-- Of the edits of the first pass only those that name a default declaration reach into a vacant
stretch of it. -/
theorem filter_collect_ownEdits (hordered : root.Ordered subject.source markers)
    (hanchored : root.Anchored subject.source) (houter : outer.Occurs root)
    (hform : outer.form = .exportDefault) (hparts : outer.parts = [inner])
    (hvacant : Vacant subject inner span.start span.stop) (hdeclared : inner.isDeclared = true)
    (inNamespace : Bool) :
    (collect (ownEdits subject) inNamespace root).filter (·.reaches span) =
      (ownNames subject outer).filter (·.reaches span) := by
  have hmem : inner ∈ outer.parts := by simp [hparts]
  induction houter generalizing inNamespace with
  | self =>
    obtain ⟨inside, hcollect⟩ := exists_ownEdits_eq subject
      (show outer.form ≠ .namespaceDeclaration true by simp [hform]) inNamespace
    have hbehind : (collect (ownEdits subject) inside inner).filter (·.reaches span) = [] :=
      filter_collect_eq_nil fun node hnode range hrange =>
        hrange.isBeside_of_occurs (hordered.part hmem) (hanchored.parts inner hmem) hnode hvacant
    have hchanges : (ownChanges subject inNamespace outer).filter (·.reaches span) = [] := by
      refine filter_reaches_eq_nil fun edit hedit => .inl ?_
      unfold ownChanges at hedit
      rw [hform, hparts] at hedit
      simp only [hdeclared, if_true, List.mem_singleton] at hedit
      subst hedit
      exact hvacant.first
    rw [hcollect, hparts, List.flatMap_singleton, List.filter_append, hbehind, List.append_nil, ownEdits,
      List.filter_append, hchanges, List.nil_append]
  | @inside root part hroot hpart hinner ih =>
    obtain ⟨inside, hcollect⟩ := exists_ownEdits_eq subject hroot inNamespace
    have hoccurs : inner.Occurs part := hinner.of_mem_parts (by simp [hform]) hmem
    have hown : (ownEdits subject inNamespace root).filter (·.reaches span) = [] := by
      refine filter_reaches_eq_nil fun edit hedit => ?_
      refine ((ownSpan_of_mem_ownEdits hedit).isBeside_of_part hordered hanchored hpart hoccurs
        hvacant).resolve_right fun hnames => ?_
      -- What is exported does not occur in itself.
      obtain rfl : part = inner := List.mem_singleton.mp (hnames.parts ▸ hpart)
      exact hinner.not_mem_parts hmem
    rw [hcollect, List.filter_append, hown, List.nil_append,
      filter_flatMap_collect hordered hanchored hpart hoccurs hvacant]
    exact ih (hordered.part hpart) (hanchored.parts part hpart) inside

theorem edits_programFindings (subject : Subject) (program : Node) :
    (programFindings subject program).filterMap Finding.edit? =
      collect (ownEdits subject) false program := by
  rw [programFindings_filterMap]
  congr 1
  funext inside node
  exact edits_nodeFindings subject inside node

/-- A name whose stretch of a declaration is vacant is the only edit that reaches into that. -/
theorem filter_loweringEdits {program : Node} (hprogram : program.form = .program)
    (hordered : program.Ordered subject.source markers) (hanchored : program.Anchored subject.source)
    (houter : outer.Occurs program) (hform : outer.form = .exportDefault) (hparts : outer.parts = [inner])
    (hdeclared : inner.isDeclared = true) (hvacant : Vacant subject inner span.start span.stop) :
    (loweringEdits subject program).filter (·.reaches span) =
      (ownNames subject outer).filter (·.reaches span) := by
  have hoccurs : inner.Occurs program := houter.of_mem_parts (by simp [hform]) (by simp [hparts])
  have hfirst := filter_collect_ownEdits hordered hanchored houter hform hparts hvacant hdeclared false
  rw [← edits_programFindings] at hfirst
  have hwraps : (programWraps subject.reference (exportedVariables subject program) program).filter
      (·.reaches span) = [] := by
    refine filter_reaches_eq_nil fun edit hedit => ?_
    obtain ⟨node, hnode, hwrite, hwrap⟩ := exists_of_mem_wraps hedit
    have hown := ownSpan_of_mem_wrapping hwrite hwrap
    refine (hown.isBeside hordered hanchored hnode hoccurs hvacant).resolve_right fun hnames => ?_
    obtain ⟨operator, hother | hother⟩ := hwrite <;> cases hnames.form.symm.trans hother
  have hhoisted : (hoistedEdits subject program).filter (·.reaches span) = [] := by
    refine filter_reaches_eq_nil fun edit hedit => ?_
    rw [span_of_mem_hoistedEdits hedit]
    exact hoistOffset_isBeside (by simp [hprogram]) hordered hoccurs hvacant
  rw [← hfirst]
  unfold loweringEdits
  dsimp only
  split
  · next hnone => rw [List.isEmpty_iff.mp hnone]
  · rw [List.filter_append, List.filter_append]
    exact (congrArg₂ (fun first second => _ ++ first ++ second) hwraps hhoisted).trans (by simp)

/-! ### Vacant heads -/

/-- No edit for a function or class itself is made, apart from its name. -/
theorem NamePlace.not_ownSpan {offset : Nat} (h : NamePlace subject inner offset) :
    ¬ OwnSpan subject inner span := by
  intro hown
  cases h with
  | function hform | definition hform =>
    have hedited := hown.isEdited
    rw [hform] at hedited
    cases hedited

theorem NamePlace.not_isListing {offset : Nat} (h : NamePlace subject inner offset) :
    inner.form.isListing = false := by
  cases h with
  | function hform | definition hform =>
    rw [hform]
    rfl

section Heads

variable {first last keyword : Lexeme} {tokens : List Token} {part : Node} {rest decorators : List Node}
  {modifiers : List String} {offset : Nat}

theorem next_le_of_stands {lexeme : Lexeme} (h : lexeme.Stands subject.source) :
    lexeme.span.start ≤ lexeme.next.offset :=
  h.stop_eq ▸ h.start_le_stop

/-- What a function begins with is vacant, up to the bracket that opens its parameters. -/
theorem vacant_of_functionHead
    (h : FunctionHead subject.source markers inner first last tokens part rest)
    (hplace : NamePlace subject inner offset) (hordered : inner.Ordered subject.source markers) :
    Vacant subject inner inner.span.start last.next.offset where
  listing := hplace.not_isListing
  first := Nat.le_refl _
  forward := h.start ▸ (h.precedes.start_le h.stands).trans
    (next_le_of_stands (h.precedes.stands h.stands))
  last := h.brackets.stop.trans (hordered.stop_le (by simp [h.parts]))
  parts _ other hother := (h.opens other hother).symm.imp .inr fun hbrackets =>
    ⟨hbrackets.form, hbrackets.inside⟩
  own _ hown := absurd hown hplace.not_ownSpan

/-- What a class begins with is vacant behind its decorators, up to what follows its keyword. -/
theorem vacant_of_classHead
    (h : ClassHead subject.source markers inner first keyword modifiers decorators rest)
    (hname : inner.ownName? = none) (hplace : NamePlace subject inner offset)
    (hordered : inner.Ordered subject.source markers) {start : Nat} (hfrom : first.span.start ≤ start)
    (hto : start ≤ keyword.span.start) :
    Vacant subject inner start (readLexeme markers false keyword.next).next.offset := by
  obtain ⟨-, hopens, hnonempty⟩ := h.tail hname
  have hkeyword := h.precedes.stands h.stands
  have hfollow := stands_readLexeme markers false hkeyword.next
  have hforward : keyword.span.start ≤ (readLexeme markers false keyword.next).next.offset :=
    (next_le_of_stands hkeyword).trans
      ((le_start_readLexeme markers false keyword.next).trans (next_le_of_stands hfollow))
  refine ⟨hplace.not_isListing, h.start.trans hfrom, hto.trans hforward, ?_, fun _ other hother => ?_,
    fun _ hown => absurd hown hplace.not_ownSpan⟩
  · obtain ⟨part, hpart⟩ := List.exists_mem_of_ne_nil rest hnonempty
    have hmem : part ∈ inner.parts := by simp [h.parts, hpart]
    refine le_trans ?_ (hordered.stop_le hmem)
    rcases hopens part hpart with hbrackets | hbehind
    · exact hbrackets.stop
    · exact hbehind.trans (hordered.part hmem).front_le_stop
  · rw [h.parts] at hother
    rcases List.mem_append.mp hother with hother | hother
    · exact .inl (.inl ((h.ahead other hother).2.trans hfrom))
    · exact (hopens other hother).symm.imp .inr fun hbrackets => ⟨hbrackets.form, hbrackets.inside⟩

end Heads

end ModuleLinkage.Lowering
