import ModuleLinkage.Proofs.Lowering.Preservation
import ModuleLinkage.Proofs.Syntax.Anchoring.Programs
import ModuleLinkage.Proofs.Syntax.Ordering.Tree

/-!
# Where edits lie

Every edit of a program but the one for the generated code belongs to a node of it, and where that lies
tells where the edit does (`OwnSpan`). In an ordered tree no edit therefore reaches into a stretch of a
node that no part of it reaches into (`isBeside_of_mem_loweringEdits`): those of the nodes beside it lie
beside it, those of its parts lie in its parts, and those of the nodes around it before or behind
what stands in these.
-/

set_option autoImplicit false

namespace ModuleLinkage.Syntax

open Text

variable {source : List Char} {markers : Bool}

/-! ### Nodes that occur in a tree -/

theorem Node.Occurs.within {node root : Node} (h : node.Occurs root) : node.Within root := by
  induction h with
  | self => exact .self
  | inside hform hpart _ ih => exact .part hpart ih

/-- Of two nodes of a tree one occurs in the other, or they occur in different parts of one node. -/
theorem Node.Occurs.cases {first second root : Node} (hfirst : first.Occurs root)
    (hsecond : second.Occurs root) :
    first.Occurs second ∨ second.Occurs first ∨
      ∃ outer part part' : Node, outer.Occurs root ∧ part ∈ outer.parts ∧ part' ∈ outer.parts ∧
        part ≠ part' ∧ first.Occurs part ∧ second.Occurs part' := by
  induction hfirst with
  | self => exact .inr (.inl hsecond)
  | @inside outer part hform hpart hinner ih =>
    cases hsecond with
    | self => exact .inl (.inside hform hpart hinner)
    | @inside _ part' _ hpart' hinner' =>
      by_cases hsame : part = part'
      · subst hsame
        refine (ih hinner').imp_right (Or.imp_right ?_)
        rintro ⟨outer', first', second', hoccurs, hrest⟩
        exact ⟨outer', first', second', .inside hform hpart hoccurs, hrest⟩
      · exact .inr (.inr ⟨outer, part, part', .self, hpart, hpart', hsame, hinner, hinner'⟩)

/-- A node that does more than to name something does not occur in one that only does that. -/
theorem Node.Occurs.not_isListing {node root : Node} (h : node.Occurs root)
    (hform : node.form.isListing = false) : root.isListing = false := by
  by_contra hlisting
  have hnode := (Node.isListing_iff.mp (h.within.isListing (by simpa using hlisting))).1
  rw [hform] at hnode
  cases hnode

/-! ### The words at the head of a declaration -/

namespace Lexeme

theorem Precedes.stands {first last : Lexeme} {tokens : List Token}
    (h : first.Precedes markers tokens last) (hfirst : first.Stands source) : last.Stands source := by
  induction h with
  | self => exact hfirst
  | next _ ih => exact ih (stands_readLexeme _ _ hfirst.next)

theorem Precedes.start_le {first last : Lexeme} {tokens : List Token}
    (h : first.Precedes markers tokens last) (hfirst : first.Stands source) :
    first.span.start ≤ last.span.start := by
  induction h with
  | self => exact Nat.le_refl _
  | @next first last tokens _ ih =>
    have hle := le_start_readLexeme markers false first.next
    have hstop := hfirst.stop_eq ▸ hfirst.start_le_stop
    exact (hstop.trans hle).trans (ih (stands_readLexeme _ _ hfirst.next))

/-- The characters of a word that is written without escapes stand where it does. -/
theorem Stands.word_starts {lexeme : Lexeme} {name : String} (h : lexeme.Stands source)
    (htoken : lexeme.token = .plain name) :
    ∃ tail, dropBytes lexeme.span.start source = name.toList ++ tail ∧
      lexeme.span.start + width name.toList ≤ lexeme.next.offset := by
  obtain ⟨place, hplace, hspan, ⟨body, hbody, hspells⟩, -⟩ := h
  rw [htoken] at hspells
  obtain ⟨-, -, hplain⟩ := hspells
  obtain ⟨tail, rfl, -⟩ := hplain rfl
  refine ⟨tail ++ lexeme.next.rest, ?_, ?_⟩
  · rw [hspan, hplace.isIn.dropBytes, hbody.rest, List.append_assoc]
  · have hoffset := hbody.offset
    rw [width_append] at hoffset
    rw [hspan]
    dsimp only at hoffset ⊢
    omega

end Lexeme

end ModuleLinkage.Syntax

namespace ModuleLinkage.Lowering

open Syntax Text EditList

variable {subject : Subject} {markers : Bool}

/-! ### The place for the name of a class -/

/-- Whether a word does not end as it begins, so that no two occurrences of it overlap. -/
def IsBorderless (word : List Char) : Prop :=
  ∀ count < word.length, 0 < count → ¬ word.drop count <+: word

/-- An occurrence of a borderless word ends before another one begins. -/
theorem IsBorderless.prefix_of_prefix {word ahead behind : List Char} (h : IsBorderless word)
    (hahead : ahead ≠ []) (hstarting : word <+: ahead ++ (word ++ behind)) : word <+: ahead := by
  rcases List.prefix_or_prefix_of_prefix hstarting (List.prefix_append ahead _) with hword | ⟨border, hword⟩
  · exact hword
  have hdrop : word.drop ahead.length = border := by rw [← hword, List.drop_left]
  have hlength : ahead.length + border.length = word.length := by rw [← hword, List.length_append]
  by_cases hshort : ahead.length < word.length
  · refine absurd ?_ (h _ hshort (List.length_pos_iff.mpr hahead))
    rw [hdrop]
    refine List.prefix_of_prefix_length_le ?_ (List.prefix_append word behind) (by omega)
    rwa [← List.prefix_append_right_inj ahead, hword]
  · obtain rfl : border = [] := List.eq_nil_of_length_eq_zero (by omega)
    exact ⟨[], by rw [List.append_nil, ← hword, List.append_nil]⟩

/-- Where a borderless word begins a text further on, that is its first occurrence, if it does not occur
before. -/
theorem endOfFirst?_append {word ahead behind : List Char} (hword : word ≠ []) (h : IsBorderless word) :
    ∃ bytes, endOfFirst? word (ahead ++ (word ++ behind)) = some bytes ∧
      (word <:+: ahead → bytes ≤ width ahead) ∧
        (¬ word <:+: ahead → bytes = width ahead + width word) := by
  induction ahead with
  | nil =>
    obtain ⟨c, rest, rfl⟩ := List.exists_cons_of_ne_nil hword
    refine ⟨width (c :: rest), ?_, fun hinfix => ?_, fun _ => by simp⟩
    · rw [List.nil_append, List.cons_append, endOfFirst?, if_pos]
      rw [← List.cons_append, List.isPrefixOf_iff_prefix]
      exact List.prefix_append _ _
    · cases List.infix_nil.mp hinfix
  | cons c ahead ih =>
    obtain ⟨bytes, hfirst, hbefore, hhere⟩ := ih
    have hstarts : word.isPrefixOf (c :: (ahead ++ (word ++ behind))) = true ↔ word <+: c :: ahead := by
      rw [List.isPrefixOf_iff_prefix]
      exact ⟨h.prefix_of_prefix (List.cons_ne_nil c ahead), fun hstarting =>
        hstarting.trans (List.prefix_append (c :: ahead) _)⟩
    rw [List.cons_append, endOfFirst?]
    by_cases hstarting : word <+: c :: ahead
    · rw [if_pos (hstarts.mpr hstarting)]
      obtain ⟨rest, hrest⟩ := hstarting
      refine ⟨width word, rfl, fun _ => ?_, fun hnot => absurd ⟨[], rest, hrest⟩ hnot⟩
      rw [← hrest, width_append]
      exact Nat.le_add_right _ _
    · rw [if_neg (mt hstarts.mp hstarting), hfirst]
      refine ⟨c.utf8Size + bytes, rfl, fun hinfix => ?_, fun hnot => ?_⟩
      · have hle := hbefore ((List.infix_cons_iff.mp hinfix).resolve_left hstarting)
        rw [width_cons]
        omega
      · rw [hhere fun hinfix => hnot (List.infix_cons hinfix), width_cons, Nat.add_assoc]

theorem isBorderless_class : IsBorderless "class".toList := by
  unfold IsBorderless
  decide

/-- Where the word `class` is looked for: behind the decorators of a class, if it has any. -/
def keywordSearch (definition : Node) (decorators : List Node) : Nat :=
  (decorators.getLast?.map fun part => part.span.stop).getD definition.span.start

/-- What stands there before the keyword. -/
def beforeKeyword (subject : Subject) (definition : Node) (decorators : List Node) (keyword : Lexeme) :
    List Char :=
  slice subject.source ⟨keywordSearch definition decorators, keyword.span.start⟩

section ClassNames

variable {definition : Node} {first keyword : Lexeme} {modifiers : List String}
  {decorators rest : List Node}

/-- The keyword of a class stands behind its decorators, where it is looked for. -/
theorem search_le_of_classHead
    (h : ClassHead subject.source markers definition first keyword modifiers decorators rest)
    (hanchored : definition.Anchored subject.source) :
    isBoundary subject.source (keywordSearch definition decorators) = true ∧
      keywordSearch definition decorators ≤ keyword.span.start := by
  have hforward := h.precedes.start_le h.stands
  unfold keywordSearch
  cases hlast : decorators.getLast? with
  | none => exact ⟨hanchored.start, h.start.trans hforward⟩
  | some last =>
    have hmem := List.mem_of_getLast? hlast
    exact ⟨(hanchored.parts last (by simp [h.parts, hmem])).stop, (h.ahead last hmem).2.trans hforward⟩

/-- The name of a class goes behind its keyword, unless the word stands before that, behind the
decorators. Then it goes there. -/
theorem classNameOffset_cases
    (h : ClassHead subject.source markers definition first keyword modifiers decorators rest)
    (hanchored : definition.Anchored subject.source) :
    keywordSearch definition decorators ≤ classNameOffset subject definition ∧
      ("class".toList <:+: beforeKeyword subject definition decorators keyword →
        classNameOffset subject definition ≤ keyword.span.start) ∧
      (¬ "class".toList <:+: beforeKeyword subject definition decorators keyword →
        classNameOffset subject definition = keyword.span.start + width "class".toList) := by
  have hfilter (test : Node → Bool) (htest : ∀ part, test part = true ↔ part.form = .decorator) :
      definition.parts.filter test = decorators := by
    rw [h.parts, List.filter_append, List.filter_eq_self.mpr, List.filter_eq_nil_iff.mpr,
      List.append_nil]
    · exact fun part hpart => (htest part).not.mpr (h.behind part hpart).1
    · exact fun part hpart => (htest part).mpr (h.ahead part hpart).1
  obtain ⟨hsearch, hle⟩ := search_le_of_classHead h hanchored
  have hkeyword := h.precedes.stands h.stands
  obtain ⟨tail, hdrop, -⟩ := hkeyword.word_starts h.word
  obtain ⟨-, hslice, hahead⟩ := exists_slice hsearch hkeyword.start hle
  obtain ⟨bytes, hfirst, hbefore, hhere⟩ := @endOfFirst?_append "class".toList
    (beforeKeyword subject definition decorators keyword) tail (by decide) isBorderless_class
  have hoffset : classNameOffset subject definition = keywordSearch definition decorators + bytes := by
    rw [beforeKeyword, ← hdrop, hslice] at hfirst
    unfold classNameOffset
    dsimp only
    rw [hfilter _ fun part => by split <;> simp_all]
    unfold keywordSearch at hfirst ⊢
    rw [hfirst]
  rw [beforeKeyword] at hbefore hhere ⊢
  rw [hoffset]
  refine ⟨Nat.le_add_right _ _, fun hinfix => ?_, fun hclear => ?_⟩
  · have hbytes := hbefore hinfix
    omega
  · have hbytes := hhere hclear
    omega

/-- The name of a class goes behind its decorators and no further than behind its keyword. -/
theorem classNameOffset_between
    (h : ClassHead subject.source markers definition first keyword modifiers decorators rest)
    (hanchored : definition.Anchored subject.source) :
    keywordSearch definition decorators ≤ classNameOffset subject definition ∧
      classNameOffset subject definition ≤ keyword.next.offset := by
  obtain ⟨hfrom, hbefore, hhere⟩ := classNameOffset_cases h hanchored
  obtain ⟨-, -, hwidth⟩ := (h.precedes.stands h.stands).word_starts h.word
  refine ⟨hfrom, ?_⟩
  by_cases hclear : "class".toList <:+: beforeKeyword subject definition decorators keyword
  · exact (hbefore hclear).trans ((Nat.le_add_right _ _).trans hwidth)
  · rwa [hhere hclear]

end ClassNames

/-! ### What edits of a node cover -/

/-- What an edit for a node itself covers. -/
inductive OwnSpan (subject : Subject) (node : Node) : Span → Prop
  | whole (hform : isRemoved node.form = true) : OwnSpan subject node node.span
  | keywords {inner : Node} (hform : (∃ typeOnly, node.form = .exportDeclaration typeOnly) ∨
      node.form = .exportDefault) (hparts : node.parts = [inner]) :
      OwnSpan subject node ⟨node.span.start, inner.span.start⟩
  | behindDefault {inner : Node} (hform : node.form = .exportDefault) (hparts : node.parts = [inner]) :
      OwnSpan subject node (.at inner.span.stop)
  | name {inner : Node} {offset : Nat} (hform : node.form = .exportDefault)
      (hparts : node.parts = [inner]) (hplace : NamePlace subject inner offset) :
      OwnSpan subject node (.at offset)
  | importKeyword (hform : node.form = .importCall) :
      OwnSpan subject node ⟨node.span.start, node.span.start + "import".length⟩
  | beforeWrite (hwrite : isWrite node) : OwnSpan subject node (.at node.span.start)
  | behindWrite (hwrite : isWrite node) : OwnSpan subject node (.at node.span.stop)

theorem OwnChange.ownSpan {node : Node} {edit : Edit} (h : OwnChange subject node edit) :
    OwnSpan subject node edit.span := by
  cases h with
  | removal hform => exact .whole hform
  | keywords hform hparts => exact .keywords hform hparts
  | opening hform hparts _ => exact .keywords (.inr hform) hparts
  | closing hform hparts => exact .behindDefault hform hparts
  | importKeyword hform => exact .importKeyword hform

theorem OwnName.ownSpan {node : Node} {edit : Edit} (h : OwnName subject node edit) :
    OwnSpan subject node edit.span := by
  obtain ⟨hform, hparts, hplace, -⟩ := h
  exact .name hform hparts hplace

/-- What is put around a write belongs to the write. -/
theorem ownSpan_of_mem_wrapping {node : Node} {edit : Edit} (hwrite : isWrite node)
    (hwrap : edit ∈ wrapping subject.reference node.span) : OwnSpan subject node edit.span := by
  rcases List.mem_pair.mp hwrap with rfl | rfl
  · exact .beforeWrite hwrite
  · exact .behindWrite hwrite

/-- Generated code is put in its place. -/
theorem span_of_mem_hoistedEdits {program : Node} {edit : Edit}
    (hedit : edit ∈ hoistedEdits subject program) : edit.span = .at (hoistOffset program) := by
  unfold hoistedEdits at hedit
  dsimp only at hedit
  split at hedit
  · cases hedit
  · obtain rfl := List.mem_singleton.mp hedit
    obtain ⟨text, hhoist⟩ := exists_hoistingEdit subject.source program
      (hoistedCode subject.reference (constantNames program)
        ((programFindings subject program).filterMap Finding.export?)
        ((programFindings subject program).filterMap Finding.request?))
    rw [hhoist]
    rfl

/-- An edit of a program is one for a node that occurs in it, or puts the generated code in its
place. -/
theorem ownSpan_of_mem_loweringEdits {program : Node} {edit : Edit}
    (hedit : edit ∈ loweringEdits subject program) :
    (∃ node : Node, node.Occurs program ∧ OwnSpan subject node edit.span) ∨
      edit.span = .at (hoistOffset program) := by
  cases programEdit_of_mem_loweringEdits hedit with
  | change hoccurs hchange => exact .inl ⟨_, hoccurs, hchange.ownSpan⟩
  | name hoccurs hname => exact .inl ⟨_, hoccurs, hname.ownSpan⟩
  | write hoccurs hwrite hwrap => exact .inl ⟨_, hoccurs, ownSpan_of_mem_wrapping hwrite hwrap⟩
  | generated hedit => exact .inr (span_of_mem_hoistedEdits hedit)

/-! ### Edits of a node lie in it -/

theorem functionNameOffset_eq {function part : Node} {rest : List Node}
    (hparts : function.parts = part :: rest)
    (hform : part.form = .typeParameters ∨ part.form = .parameters) :
    functionNameOffset function = part.span.start := by
  unfold functionNameOffset
  rw [hparts]
  dsimp only
  rw [List.find?_cons_of_pos]
  · rfl
  · rcases hform with hform | hform <;> rw [hform]

variable {node : Node} {span : Span}

/-- What stands at the head of a default export. -/
theorem headed_of_exportDefault {inner : Node} (hordered : node.Ordered subject.source markers)
    (hform : node.form = .exportDefault) (hparts : node.parts = [inner]) :
    (node.span.start ≤ inner.span.start ∧ inner.IsClearOf node.span.start) ∧
      Headed subject.source markers inner := by
  have harranged := hordered.arranged
  rw [hform, hparts] at harranged
  exact harranged

/-- Whether a place in a node lies in no part of it that does anything. -/
def IsBetween (node : Node) (offset : Nat) : Prop :=
  (node.front ≤ offset ∧ offset ≤ node.span.stop) ∧ ∀ part ∈ node.parts,
    part.isListing = false → part.span.stop ≤ offset ∨ offset ≤ part.front

/-- The first bracket of a function stands before or behind all its other parts. -/
theorem isBetween_of_functionHead {source : List Char} {first last : Lexeme} {tokens : List Token}
    {head : Node} {rest : List Node}
    (h : FunctionHead source markers node first last tokens head rest)
    (hordered : node.Ordered source markers) : IsBetween node head.span.start := by
  have hmem : head ∈ node.parts := by
    rw [h.parts]
    exact List.mem_cons_self
  have hforward := (hordered.part hmem).start_le_stop
  have hsilent : head.isListing = false := by
    by_contra hlisting
    have hlists := (Node.isListing_iff.mp (by simpa using hlisting)).1
    rcases h.form with hform | hform <;> rw [hform] at hlists <;> cases hlists
  refine ⟨⟨(Node.front_le_front hmem).trans head.front_le_start,
    hforward.trans (hordered.stop_le hmem)⟩, fun part hpart hactive => ?_⟩
  by_cases hsame : part = head
  · subst hsame
    have harranged := (hordered.part hpart).arranged
    right
    refine Node.start_le_front ?_
    rcases h.form with hform | hform <;> rw [hform] at harranged <;> exact harranged
  rcases hordered.isApart hpart hmem hsame with hapart | hapart | hapart | hapart
  · rw [hactive] at hapart
    cases hapart
  · rw [hsilent] at hapart
    cases hapart
  · exact .inl (hapart.trans head.front_le_start)
  · exact .inr (hforward.trans hapart)

/-- The place for the name of a class lies between its decorators and its other parts. -/
theorem isBetween_of_classHead {first keyword : Lexeme} {modifiers : List String}
    {decorators rest : List Node}
    (h : ClassHead subject.source markers node first keyword modifiers decorators rest)
    (hordered : node.Ordered subject.source markers) (hanchored : node.Anchored subject.source) :
    IsBetween node (classNameOffset subject node) := by
  have hbefore {part : Node} (hpart : part ∈ decorators) : part ∈ node.parts := by
    rw [h.parts]
    exact List.mem_append_left _ hpart
  obtain ⟨hfrom, hto⟩ := classNameOffset_between h hanchored
  refine ⟨⟨le_trans ?_ hfrom, hto.trans h.stop⟩, fun part hpart _ => ?_⟩
  · unfold keywordSearch
    cases hlast : decorators.getLast? with
    | none => exact node.front_le_start
    | some last =>
      have hmem := hbefore (List.mem_of_getLast? hlast)
      exact (Node.front_le_front hmem).trans (hordered.part hmem).front_le_stop
  · rw [h.parts] at hpart
    rcases List.mem_append.mp hpart with hpart | hpart
    · refine .inl (le_trans ?_ hfrom)
      obtain ⟨ahead, last, rfl⟩ :=
        (List.eq_nil_or_concat' decorators).resolve_left (List.ne_nil_of_mem hpart)
      rw [keywordSearch, List.getLast?_concat]
      rcases List.mem_append.mp hpart with hpart | hpart
      · have hbehind := (List.pairwise_append.mp h.sorted).2.2 part hpart last (by simp)
        exact hbehind.trans (hordered.part (hbefore (by simp))).front_le_stop
      · rw [List.mem_singleton.mp hpart]
        exact Nat.le_refl _
    · exact .inr (hto.trans (h.behind part hpart).2)

/-- A name is put into its declaration, and into no part of it that does anything. -/
theorem NamePlace.isBetween {inner : Node} {offset : Nat} (h : NamePlace subject inner offset)
    (hheaded : Headed subject.source markers inner) (hordered : inner.Ordered subject.source markers)
    (hanchored : inner.Anchored subject.source) : IsBetween inner offset := by
  cases h with
  | function hform hname =>
    rw [Headed, hform] at hheaded
    obtain ⟨first, last, tokens, head, rest, hhead⟩ := hheaded hname
    rw [functionNameOffset_eq hhead.parts hhead.form]
    exact isBetween_of_functionHead hhead hordered
  | definition hform hname =>
    rw [Headed, hform] at hheaded
    obtain ⟨first, keyword, modifiers, decorators, rest, hhead⟩ := hheaded
    exact isBetween_of_classHead hhead hordered hanchored

/-- The edits for a node itself lie where it does. -/
theorem OwnSpan.within (h : OwnSpan subject node span) (hordered : node.Ordered subject.source markers)
    (hanchored : node.Anchored subject.source) :
    node.front ≤ span.start ∧ span.stop ≤ node.span.stop := by
  have hinside {inner : Node} (hparts : node.parts = [inner]) : inner ∈ node.parts := by
    rw [hparts]
    exact List.mem_singleton.mpr rfl
  cases h with
  | whole => exact ⟨node.front_le_start, Nat.le_refl _⟩
  | keywords hform hparts =>
    have hinner := hinside hparts
    exact ⟨node.front_le_start, (hordered.part hinner).start_le_stop.trans (hordered.stop_le hinner)⟩
  | behindDefault hform hparts =>
    have hinner := hinside hparts
    exact ⟨(Node.front_le_front hinner).trans (hordered.part hinner).front_le_stop,
      hordered.stop_le hinner⟩
  | name hform hparts hplace =>
    have hinner := hinside hparts
    obtain ⟨⟨hfrom, hto⟩, -⟩ := hplace.isBetween (headed_of_exportDefault hordered hform hparts).2
      (hordered.part hinner) (hanchored.parts _ hinner)
    exact ⟨(Node.front_le_front hinner).trans hfrom, hto.trans (hordered.stop_le hinner)⟩
  | importKeyword hform =>
    have harranged := hordered.arranged
    rw [hform] at harranged
    exact ⟨node.front_le_start, harranged.1⟩
  | beforeWrite hwrite => exact ⟨node.front_le_start, hordered.start_le_stop⟩
  | behindWrite hwrite => exact ⟨hordered.front_le_stop, Nat.le_refl _⟩

/-- Whether a node of a form may have edits itself. -/
def isEdited : Form → Bool
  | .exportDeclaration _ | .exportDefault | .importCall | .assignment _ | .update _ => true
  | form => isRemoved form

theorem OwnSpan.isEdited (h : OwnSpan subject node span) : isEdited node.form = true := by
  cases h with
  | whole hform =>
    generalize node.form = form at hform
    cases form <;> first | rfl | cases hform
  | keywords hform hparts =>
    rcases hform with ⟨typeOnly, hform⟩ | hform <;> rw [hform] <;> rfl
  | behindDefault hform hparts | name hform hparts hplace | importKeyword hform => rw [hform]; rfl
  | beforeWrite hwrite | behindWrite hwrite =>
    obtain ⟨operator, hform | hform⟩ := hwrite <;> rw [hform] <;> rfl

/-- A node that has edits does more than to name something. -/
theorem OwnSpan.not_isListing (h : OwnSpan subject node span) : node.form.isListing = false := by
  have hedited := h.isEdited
  generalize node.form = form at hedited
  cases form <;> first | rfl | cases hedited

/-! ### Edits beside a stretch of text -/

/-- Whether a stretch of a node is covered by no part of it, nor by an edit for the node. Ambient
namespaces count as having no parts, and brackets only as what stands in them. -/
structure Vacant (subject : Subject) (node : Node) (start stop : Nat) : Prop where
  listing : node.form.isListing = false
  first : node.span.start ≤ start
  forward : start ≤ stop
  last : stop ≤ node.span.stop
  parts : node.form ≠ .namespaceDeclaration true → ∀ part ∈ node.parts,
    (part.span.stop ≤ start ∨ stop ≤ part.front) ∨
      part.form ∈ [.typeParameters, .parameters, .classBody] ∧ ∀ inner ∈ part.parts, stop ≤ inner.front
  own : ∀ span, OwnSpan subject node span → span.stop ≤ start ∨ stop ≤ span.start

/-- Whether an edit for a node names what the node exports as the default. -/
structure Names (subject : Subject) (outer inner : Node) (span : Span) : Prop where
  form : outer.form = .exportDefault
  parts : outer.parts = [inner]
  place : ∃ offset, NamePlace subject inner offset ∧ span = .at offset

variable {start stop : Nat} {other outer part part' : Node}

theorem OwnSpan.not_bracketed (h : OwnSpan subject node span) :
    node.form ∉ [.typeParameters, .parameters, .classBody] := by
  intro hform
  have hedited := h.isEdited
  simp only [List.mem_cons, List.not_mem_nil, or_false] at hform
  rcases hform with hform | hform | hform <;> rw [hform] at hedited <;> cases hedited

/-- What lies beside a part lies beside a stretch of what stands in it. -/
theorem Vacant.isBeside_of_part (h : Vacant subject node start stop)
    (hordered : part.Ordered subject.source markers) (hoccurs : node.Occurs part)
    (hbeside : part.span.stop ≤ span.start ∨ span.stop ≤ part.front) :
    span.stop ≤ start ∨ stop ≤ span.start := by
  rcases hbeside with hbefore | hbehind
  · exact .inr ((h.last.trans (hoccurs.within.stop_le hordered)).trans hbefore)
  · exact .inl (((hbehind.trans hoccurs.within.front_le).trans node.front_le_start).trans h.first)

/-- The edits for a node do not reach into a stretch of what stands in a part of it, but those that name
this. -/
theorem OwnSpan.isBeside_of_part (h : OwnSpan subject outer span)
    (hordered : outer.Ordered subject.source markers) (hanchored : outer.Anchored subject.source)
    (hpart : part ∈ outer.parts) (hoccurs : node.Occurs part)
    (hvacant : Vacant subject node start stop) :
    (span.stop ≤ start ∨ stop ≤ span.start) ∨ Names subject outer node span := by
  have hlisting := hoccurs.not_isListing hvacant.listing
  have hfront : part.front ≤ start :=
    (hoccurs.within.front_le.trans node.front_le_start).trans hvacant.first
  have hstop : stop ≤ part.span.stop :=
    hvacant.last.trans (hoccurs.within.stop_le (hordered.part hpart))
  have harranged := hordered.arranged
  have hinside {inner : Node} (hparts : outer.parts = [inner]) : part = inner := by
    rw [hparts] at hpart
    exact List.mem_singleton.mp hpart
  cases h with
  | whole hform =>
    -- What is removed as a whole holds nothing but names.
    have hnames : part.isListing = true := by
      generalize outer.form = form at hform harranged
      cases form <;> first | exact (harranged part hpart).1 | cases hform
    rw [hlisting] at hnames
    cases hnames
  | @keywords inner hform hparts =>
    obtain rfl := hinside hparts
    have hclear : part.IsClearOf outer.span.start := by
      rcases hform with ⟨typeOnly, hform⟩ | hform <;> rw [hform, hparts] at harranged
      · exact harranged.2
      · exact harranged.1.2
    left
    cases hoccurs with
    | self => exact .inl hvacant.first
    | @inside _ deep _ hdeep hinner =>
      exact hvacant.isBeside_of_part ((hordered.part hpart).part hdeep) hinner (hclear deep hdeep)
  | behindDefault hform hparts =>
    obtain rfl := hinside hparts
    exact .inl (.inr hstop)
  | @name inner offset hform hparts hplace =>
    obtain rfl := hinside hparts
    cases hoccurs with
    | self => exact .inr ⟨hform, hparts, offset, hplace, rfl⟩
    | @inside _ deep _ hdeep hinner =>
      have hbetween := hplace.isBetween (headed_of_exportDefault hordered hform hparts).2
        (hordered.part hpart) (hanchored.parts _ hpart)
      exact .inl (hvacant.isBeside_of_part ((hordered.part hpart).part hdeep) hinner
        (hbetween.2 deep hdeep (hinner.not_isListing hvacant.listing)))
  | importKeyword hform =>
    rw [hform] at harranged
    exact .inl (.inl ((harranged.2 part hpart).trans hfront))
  | beforeWrite hwrite =>
    obtain ⟨operator, hform | hform⟩ := hwrite <;> rw [hform] at harranged <;>
      exact .inl (.inl ((harranged part hpart).trans hfront))
  | behindWrite hwrite => exact .inl (.inr (hstop.trans (hordered.stop_le hpart)))

/-- Nor do those for what stands in the node of the stretch. -/
theorem OwnSpan.isBeside_of_occurs (h : OwnSpan subject other span)
    (hordered : node.Ordered subject.source markers) (hanchored : node.Anchored subject.source)
    (hother : other.Occurs node) (hvacant : Vacant subject node start stop) :
    span.stop ≤ start ∨ stop ≤ span.start := by
  have hwithin := h.within (hother.within.ordered hordered) (hother.within.anchored hanchored)
  cases hother with
  | self => exact hvacant.own _ h
  | @inside _ part hform hpart hinner =>
    have hpartOrdered := hordered.part hpart
    rcases hvacant.parts hform part hpart with (hbefore | hbehind) | ⟨hbrackets, hdeep⟩
    · exact .inl ((hwithin.2.trans (hinner.within.stop_le hpartOrdered)).trans hbefore)
    · exact .inr ((hbehind.trans hinner.within.front_le).trans hwithin.1)
    · cases hinner with
      | self => exact absurd hbrackets h.not_bracketed
      | @inside _ deep _ hmem hdeeper =>
        exact .inr (((hdeep deep hmem).trans hdeeper.within.front_le).trans hwithin.1)

/-- Nor do those for what stands beside it. -/
theorem OwnSpan.isBeside_of_apart (h : OwnSpan subject other span)
    (hordered : part.Ordered subject.source markers) (hanchored : part.Anchored subject.source)
    (hordered' : part'.Ordered subject.source markers)
    (hapart : part.isListing = true ∨ part'.isListing = true ∨ part.span.stop ≤ part'.front ∨
      part'.span.stop ≤ part.front) (hother : other.Occurs part) (hnode : node.Occurs part')
    (hvacant : Vacant subject node start stop) : span.stop ≤ start ∨ stop ≤ span.start := by
  have hwithin := h.within (hother.within.ordered hordered) (hother.within.anchored hanchored)
  rcases hapart with hlists | hlists | hbefore | hbehind
  · rw [hother.not_isListing h.not_isListing] at hlists
    cases hlists
  · rw [hnode.not_isListing hvacant.listing] at hlists
    cases hlists
  · exact hvacant.isBeside_of_part hordered' hnode
      (.inr ((hwithin.2.trans (hother.within.stop_le hordered)).trans hbefore))
  · exact hvacant.isBeside_of_part hordered' hnode
      (.inl ((hbehind.trans hother.within.front_le).trans hwithin.1))

/-- **Edits beside a stretch.** No edit for a node of an ordered tree reaches into a vacant stretch of a
node, but one that names this. -/
theorem OwnSpan.isBeside {root : Node} (h : OwnSpan subject other span)
    (hordered : root.Ordered subject.source markers) (hanchored : root.Anchored subject.source)
    (hother : other.Occurs root) (hnode : node.Occurs root) (hvacant : Vacant subject node start stop) :
    (span.stop ≤ start ∨ stop ≤ span.start) ∨ Names subject other node span := by
  have hotherOrdered := hother.within.ordered hordered
  have hotherAnchored := hother.within.anchored hanchored
  rcases hother.cases hnode with hinside | haround | ⟨outer, part, part', hoccurs, hpart, hpart',
    hne, hinner, hinner'⟩
  · exact .inl (h.isBeside_of_occurs (hnode.within.ordered hordered) (hnode.within.anchored hanchored)
      hinside hvacant)
  · cases haround with
    | self => exact .inl (hvacant.own _ h)
    | inside hform hpart hinner =>
      exact h.isBeside_of_part hotherOrdered hotherAnchored hpart hinner hvacant
  · have houter := hoccurs.within.ordered hordered
    have houterAnchored := hoccurs.within.anchored hanchored
    exact .inl (h.isBeside_of_apart (houter.part hpart) (houterAnchored.parts part hpart)
      (houter.part hpart') (houter.isApart hpart hpart' hne) hinner hinner' hvacant)

theorem directive_of_lastDirective? {program directive : Node}
    (hlast : lastDirective? program = some directive) :
    directive ∈ program.parts ∧ directive.form = .directive := by
  obtain ⟨hmem, htest⟩ := List.mem_filter.mp (List.mem_of_getLast? hlast)
  unfold isDirective at htest
  split at htest
  · exact ⟨hmem, by assumption⟩
  · cases htest

/-- Generated code is not put into a vacant stretch. -/
theorem hoistOffset_isBeside {program : Node} (hform' : program.form ≠ .namespaceDeclaration true)
    (hordered : program.Ordered subject.source markers) (hnode : node.Occurs program)
    (hvacant : Vacant subject node start stop) :
    hoistOffset program ≤ start ∨ stop ≤ hoistOffset program := by
  unfold hoistOffset
  split
  case h_2 => exact .inl (Nat.zero_le _)
  next directive hlast =>
  obtain ⟨hmem, hform⟩ := directive_of_lastDirective? hlast
  have hdirective := hordered.part hmem
  have hfront : directive.front ≤ directive.span.stop := hdirective.front_le_stop
  have hspoken : directive.isListing = false := by
    by_contra hlists
    have := (Node.isListing_iff.mp (by simpa using hlists)).1
    rw [hform] at this
    cases this
  cases hnode with
  | self =>
    refine ((hvacant.parts hform' directive hmem).resolve_right fun hbrackets => ?_).imp_right
      (·.trans hfront)
    rw [hform] at hbrackets
    simp at hbrackets
  | @inside _ part hambient hpart hinner =>
    by_cases hsame : part = directive
    · subst hsame
      cases hinner with
      | self => exact .inr hvacant.last
      | @inside _ deep _ hdeep hdeeper =>
        have harranged := hdirective.arranged
        rw [hform] at harranged
        have hlists := (harranged deep hdeep).1
        rw [hdeeper.not_isListing hvacant.listing] at hlists
        cases hlists
    · rcases hordered.isApart hpart hmem hsame with hlists | hlists | hbefore | hbehind
      · rw [hinner.not_isListing hvacant.listing] at hlists
        cases hlists
      · rw [hspoken] at hlists
        cases hlists
      · right
        exact (hvacant.last.trans (hinner.within.stop_le (hordered.part hpart))).trans
          (hbefore.trans hfront)
      · left
        exact ((hbehind.trans hinner.within.front_le).trans node.front_le_start).trans hvacant.first

/-- No edit of a program reaches into a vacant stretch of a node, but one that names this. -/
theorem isBeside_of_mem_loweringEdits {program : Node}
    (hform : program.form ≠ .namespaceDeclaration true)
    (hordered : program.Ordered subject.source markers) (hanchored : program.Anchored subject.source)
    (hnode : node.Occurs program) (hvacant : Vacant subject node start stop) {edit : Edit}
    (hedit : edit ∈ loweringEdits subject program) :
    (edit.span.stop ≤ start ∨ stop ≤ edit.span.start) ∨ ∃ outer, Names subject outer node edit.span := by
  rcases ownSpan_of_mem_loweringEdits hedit with ⟨other, hother, hown⟩ | hhoist
  · exact (hown.isBeside hordered hanchored hother hnode hvacant).imp_right fun h => ⟨other, h⟩
  · rw [hhoist]
    exact .inl (hoistOffset_isBeside hform hordered hnode hvacant)

end ModuleLinkage.Lowering
