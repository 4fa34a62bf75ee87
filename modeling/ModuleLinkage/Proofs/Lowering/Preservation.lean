import ModuleLinkage.Proofs.Lowering.Retention

/-!
# What lowering leaves of a text

The edits of a program, apart from the names inserted into anonymous default declarations, do not
overlap, so that rendering drops none of them; the calls that they begin end where they should; and
what is not a module declaration, an `export` or the keyword of a dynamic import is copied from the
source once and in order (`retained_loweringMarked`).
-/

set_option autoImplicit false

namespace ModuleLinkage.Lowering

open Syntax Text EditList

variable {subject : Subject} {exported : List String}

/-! ### Edits between characters -/

theorem fits_insertion {source : List Char} {offset : Nat} (text : List Char)
    (h : isBoundary source offset = true) : (Edit.insertion offset text).Fits source :=
  Edit.fits_of_isBoundary h h (Nat.le_refl _)

/-- The first occurrence of a word ends between two characters. -/
theorem exists_of_endOfFirst? {word text : List Char} {bytes : Nat}
    (h : endOfFirst? word text = some bytes) :
    ∃ before after, text = before ++ after ∧ width before = bytes := by
  induction text generalizing bytes with
  | nil => cases h
  | cons c rest ih =>
    rw [endOfFirst?] at h
    split at h
    · next hprefix =>
      obtain ⟨after, hafter⟩ := List.isPrefixOf_iff_prefix.mp hprefix
      exact ⟨word, after, hafter.symm, Option.some.inj h⟩
    · obtain ⟨bytes', hrest, rfl⟩ := Option.map_eq_some_iff.mp h
      obtain ⟨before, after, rfl, hwidth⟩ := ih hrest
      exact ⟨c :: before, after, rfl, by rw [width_cons, hwidth]⟩

theorem isBoundary_add {source before after : List Char} {offset : Nat}
    (hoffset : isBoundary source offset = true) (hrest : dropBytes offset source = before ++ after) :
    isBoundary source (offset + width before) = true := by
  have hsource := takeBytes_append_dropBytes offset source
  rw [hrest, ← List.append_assoc] at hsource
  have hwidth : width (takeBytes offset source) = offset := by simpa [isBoundary] using hoffset
  have hboundary := isBoundary_of_append hsource.symm
  rwa [width_append, hwidth] at hboundary

theorem isBoundary_functionNameOffset {source : List Char} {function : Node}
    (hstart : isBoundary source function.span.start = true)
    (hparts : ∀ part ∈ function.parts, isBoundary source part.span.start = true) :
    isBoundary source (functionNameOffset function) = true := by
  unfold functionNameOffset
  dsimp only
  cases hfind : function.parts.find? _ with
  | none => exact hstart
  | some part => exact hparts part (List.mem_of_find?_eq_some hfind)

theorem isBoundary_classNameOffset {definition : Node}
    (hstart : isBoundary subject.source definition.span.start = true)
    (hparts : ∀ part ∈ definition.parts, isBoundary subject.source part.span.stop = true) :
    isBoundary subject.source (classNameOffset subject definition) = true := by
  unfold classNameOffset
  dsimp only
  have hbehind (test : Node → Bool) : isBoundary subject.source (((definition.parts.filter
      test).getLast?.map fun part => part.span.stop).getD definition.span.start) = true := by
    cases hlast : (definition.parts.filter test).getLast? with
    | none => exact hstart
    | some part => exact hparts part (List.mem_of_mem_filter (List.mem_of_getLast? hlast))
  split
  · next bytes hfirst =>
    obtain ⟨before, after, hrest, rfl⟩ := exists_of_endOfFirst? hfirst
    exact isBoundary_add (hbehind _) hrest
  · exact hbehind _

/-! ### The edits for a node itself -/

/-- Whether a declaration is removed as a whole. -/
def isRemoved : Form → Bool
  | .importDeclaration _ | .exportNames _ | .exportAll _ => true
  | _ => false

/-- The edits that remove or replace some of the text of a node itself. -/
inductive OwnChange (subject : Subject) (node : Node) : Edit → Prop
  | removal (hform : isRemoved node.form = true) :
      OwnChange subject node (removalFrom subject node.span.start node.span.stop)
  | keywords {inner : Node} (hform : (∃ typeOnly, node.form = .exportDeclaration typeOnly) ∨
      node.form = .exportDefault) (hparts : node.parts = [inner]) :
      OwnChange subject node (removalFrom subject node.span.start inner.span.start)
  | opening {inner : Node} (hform : node.form = .exportDefault) (hparts : node.parts = [inner])
      (hexpression : inner.isDeclared = false) :
      OwnChange subject node (defaultOpening subject node.span.start inner.span.start)
  | closing {inner : Node} (hform : node.form = .exportDefault) (hparts : node.parts = [inner]) :
      OwnChange subject node (closing inner.span.stop)
  | importKeyword (hform : node.form = .importCall) :
      OwnChange subject node (keywordChange subject node.span.start)

theorem ownChange_of_mem_ownChanges {node : Node} {inNamespace : Bool} {edit : Edit}
    (hedit : edit ∈ ownChanges subject inNamespace node) : OwnChange subject node edit := by
  unfold ownChanges at hedit
  split at hedit
  · next hform =>
    obtain rfl := List.mem_singleton.mp hedit
    exact .removal (by rw [hform]; rfl)
  · next hform =>
    obtain rfl := List.mem_singleton.mp hedit
    exact .removal (by rw [hform]; rfl)
  · next hform =>
    split at hedit
    · cases hedit
    · obtain rfl := List.mem_singleton.mp hedit
      exact .removal (by rw [hform]; rfl)
  · next hform hparts =>
    split at hedit
    · cases hedit
    · obtain rfl := List.mem_singleton.mp hedit
      exact .keywords (.inl ⟨_, hform⟩) hparts
  · next hform hparts =>
    split at hedit
    · obtain rfl := List.mem_singleton.mp hedit
      exact .keywords (.inr hform) hparts
    · next hexpression =>
      rcases List.mem_pair.mp hedit with rfl | rfl
      · exact .opening hform hparts (Bool.eq_false_iff.mpr hexpression)
      · exact .closing hform hparts
  · next hform =>
    obtain rfl := List.mem_singleton.mp hedit
    exact .importKeyword hform
  · cases hedit

/-- Where the name goes that a declaration without one is given. -/
inductive NamePlace (subject : Subject) (inner : Node) : Nat → Prop
  | function {ambient : Bool} (hform : inner.form = .function .declaration ambient)
      (hname : inner.ownName? = none) : NamePlace subject inner (functionNameOffset inner)
  | definition {ambient : Bool} (hform : inner.form = .classDefinition .declaration ambient)
      (hname : inner.ownName? = none) : NamePlace subject inner (classNameOffset subject inner)

/-- The edit that names a default declaration without a name. -/
inductive OwnName (subject : Subject) (node : Node) : Edit → Prop
  | mk {inner : Node} {offset : Nat} {text : List Char} (hform : node.form = .exportDefault)
      (hparts : node.parts = [inner]) (hplace : NamePlace subject inner offset)
      (htext : text = defaultName subject ∨ text = ' ' :: defaultName subject) :
      OwnName subject node (.insertion offset text)

theorem spacedName_cases (subject : Subject) (offset : Nat) (name : List Char) :
    spacedName subject offset name = name ∨ spacedName subject offset name = ' ' :: name := by
  unfold spacedName
  split
  · split
    · exact .inl rfl
    · exact .inr rfl
  · exact .inr rfl

theorem ownName_of_mem_ownNames {node : Node} {edit : Edit} (hedit : edit ∈ ownNames subject node) :
    OwnName subject node edit := by
  unfold ownNames at hedit
  split at hedit
  · next hform hparts =>
    split at hedit
    · next hinner hname =>
      obtain rfl := List.mem_singleton.mp hedit
      exact .mk hform hparts (.function hinner hname) (spacedName_cases ..)
    · next hinner hname =>
      obtain rfl := List.mem_singleton.mp hedit
      exact .mk hform hparts (.definition hinner hname) (.inr rfl)
    · cases hedit
  · cases hedit

/-- A name is inserted between two characters, if what is named begins and ends between characters, and
so do its parts. -/
theorem fits_of_mem_ownNames {node : Node} {edit : Edit} (hedit : edit ∈ ownNames subject node)
    (hinner : ∀ inner ∈ node.parts, node.form = .exportDefault →
      inner.form ≠ .namespaceDeclaration true → isBoundary subject.source inner.span.start = true ∧
        ∀ part ∈ inner.parts, isBoundary subject.source part.span.start = true ∧
          isBoundary subject.source part.span.stop = true) :
    edit.Fits subject.source ∧ edit.span.stop = edit.span.start := by
  obtain @⟨inner, offset, text, hform, hparts, hplace, -⟩ := ownName_of_mem_ownNames hedit
  have hboundary := hinner inner (by simp [hparts]) hform
  refine ⟨fits_insertion _ ?_, rfl⟩
  cases hplace with
  | function hfunction _ =>
    obtain ⟨hstart, hinside⟩ := hboundary (by rw [hfunction]; nofun)
    exact isBoundary_functionNameOffset hstart fun part hpart => (hinside part hpart).1
  | definition hclass _ =>
    obtain ⟨hstart, hinside⟩ := hboundary (by rw [hclass]; nofun)
    exact isBoundary_classNameOffset hstart fun part hpart => (hinside part hpart).2

/-- So it is in a tree that lies over its text. -/
theorem fits_of_mem_ownNames_of_laid {node : Node} (hlaid : node.laid subject.source = true)
    {edit : Edit} (hedit : edit ∈ ownNames subject node) :
    edit.Fits subject.source ∧ edit.span.stop = edit.span.start := by
  refine fits_of_mem_ownNames hedit fun inner hinner hform hinnerForm => ?_
  have hinnerLaid : inner.laid subject.source = true :=
    ((Node.laid_iff (by simp [hform])).mp hlaid).2.2.2.2 inner hinner
  refine ⟨(Node.boundary_of_laid hinnerLaid).1, fun part hpart => ?_⟩
  exact Node.boundary_of_laid (((Node.laid_iff hinnerForm).mp hinnerLaid).2.2.2.2 part hpart)

/-- A span of a program whose text is replaced: a declaration that is removed, what stands before an
exported declaration or expression, or the keyword of a dynamic import. -/
inductive IsReplaced (subject : Subject) (program : Node) : Span → Prop
  | declaration {node : Node} (hoccurs : node.Occurs program)
      (hform : (∃ typeOnly, node.form = .importDeclaration typeOnly) ∨
        (∃ typeOnly, node.form = .exportNames typeOnly) ∨ ∃ typeOnly, node.form = .exportAll typeOnly) :
      IsReplaced subject program node.span
  | exportPrefix {node inner : Node} (hoccurs : node.Occurs program)
      (hform : (∃ typeOnly, node.form = .exportDeclaration typeOnly) ∨ node.form = .exportDefault)
      (hparts : node.parts = [inner]) :
      IsReplaced subject program ⟨node.span.start, inner.span.start⟩
  | importKeyword {node : Node} (hoccurs : node.Occurs program) (hform : node.form = .importCall)
      (htext : slice subject.source ⟨node.span.start, node.span.start + "import".length⟩ =
        "import".toList) :
      IsReplaced subject program ⟨node.span.start, node.span.start + "import".length⟩

/-- Whether the span of an edit begins and ends at boundaries, and what it covers, if anything, is
replaced. -/
def IsFounded (subject : Subject) (program : Node) (edit : Edit) : Prop :=
  edit.Fits subject.source ∧
    (edit.span.start = edit.span.stop ∨ IsReplaced subject program edit.span)

theorem founded_insertion {program : Node} {offset : Nat} (text : List Char)
    (h : isBoundary subject.source offset = true) :
    IsFounded subject program (.insertion offset text) :=
  ⟨fits_insertion text h, .inl rfl⟩

theorem founded_of_mem_ownChanges {program node : Node} (hoccurs : node.Occurs program)
    (hlaid : node.laid subject.source = true) {inNamespace : Bool} {edit : Edit}
    (hedit : edit ∈ ownChanges subject inNamespace node) : IsFounded subject program edit := by
  have hown := Node.boundary_of_laid hlaid
  have hfit {other : Edit} (hstart : isBoundary subject.source other.span.start = true)
      (hstop : isBoundary subject.source other.span.stop = true)
      (hforward : other.span.start ≤ other.span.stop)
      (hreplaced : IsReplaced subject program other.span) : IsFounded subject program other :=
    ⟨Edit.fits_of_isBoundary hstart hstop hforward, .inr hreplaced⟩
  have hinner {inner : Node} (hform : node.form ≠ .namespaceDeclaration true)
      (hparts : node.parts = [inner]) : inner.laid subject.source = true :=
    ((Node.laid_iff hform).mp hlaid).2.2.2.2 inner (by simp [hparts])
  have hcovers (hform : node.form ≠ .namespaceDeclaration true) :
      node.coversText subject.source = true := ((Node.laid_iff hform).mp hlaid).2.1
  have hprefix {inner : Node} (hform : (∃ typeOnly, node.form = .exportDeclaration typeOnly) ∨
      node.form = .exportDefault) (hparts : node.parts = [inner]) :
      isBoundary subject.source inner.span.start = true ∧ node.span.start ≤ inner.span.start ∧
        IsReplaced subject program ⟨node.span.start, inner.span.start⟩ := by
    have hne : node.form ≠ .namespaceDeclaration true := by
      obtain ⟨typeOnly, hform⟩ | hform := hform <;> simp [hform]
    have hlt := hcovers hne
    obtain ⟨typeOnly, hform⟩ | hform := hform <;>
      simp only [Node.coversText, hform, hparts, Bool.and_eq_true, decide_eq_true_eq] at hlt
    · exact ⟨(Node.boundary_of_laid (hinner hne hparts)).1, hlt.1.le,
        .exportPrefix hoccurs (.inl ⟨typeOnly, hform⟩) hparts⟩
    · exact ⟨(Node.boundary_of_laid (hinner hne hparts)).1, hlt.1.le,
        .exportPrefix hoccurs (.inr hform) hparts⟩
  cases ownChange_of_mem_ownChanges hedit with
  | removal hform =>
    refine hfit hown.1 hown.2 (Node.start_le_stop_of_laid hlaid) (.declaration hoccurs ?_)
    unfold isRemoved at hform
    split at hform
    · next typeOnly heq => exact .inl ⟨typeOnly, heq⟩
    · next typeOnly heq => exact .inr (.inl ⟨typeOnly, heq⟩)
    · next typeOnly heq => exact .inr (.inr ⟨typeOnly, heq⟩)
    · cases hform
  | keywords hform hparts =>
    obtain ⟨hstop, hle, hreplaced⟩ := hprefix hform hparts
    exact hfit hown.1 hstop hle hreplaced
  | opening hform hparts _ =>
    obtain ⟨hstop, hle, hreplaced⟩ := hprefix (.inr hform) hparts
    exact hfit hown.1 hstop hle hreplaced
  | closing hform hparts =>
    have hne : node.form ≠ .namespaceDeclaration true := by simp [hform]
    exact founded_insertion _ (Node.boundary_of_laid (hinner hne hparts)).2
  | importKeyword hform =>
    have hne : node.form ≠ .namespaceDeclaration true := by simp [hform]
    have hkeyword := hcovers hne
    simp only [Node.coversText, hform, Bool.and_eq_true] at hkeyword
    obtain ⟨after, hrest⟩ := List.isPrefixOf_iff_prefix.mp hkeyword.1
    refine hfit hown.1 ?_ (Nat.le_add_right _ _) (.importKeyword hoccurs hform ?_)
    · exact isBoundary_add hown.1 hrest.symm
    · rw [slice, Nat.add_sub_cancel_left, ← hrest]
      exact takeBytes_width "import".toList after

theorem exists_of_mem_wraps {reference : String} {shadowed : List String} {root : Node} {edit : Edit}
    (hedit : edit ∈ wraps reference exported shadowed root) :
    ∃ node : Node, node.Occurs root ∧ isWrite node ∧ edit ∈ wrapping reference node.span := by
  induction root using Node.induction generalizing shadowed with
  | step span form parts ih =>
    by_cases hform : (Node.mk span form parts).form = .namespaceDeclaration true
    · obtain rfl : form = .namespaceDeclaration true := hform
      cases hedit
    rw [wraps_eq hform, listWraps_eq] at hedit
    rcases List.mem_append.mp hedit with hedit | hedit
    · obtain ⟨part, hpart, hedit⟩ := List.mem_flatMap.mp hedit
      obtain ⟨node, hoccurs, hnode⟩ := ih part hpart hedit
      exact ⟨node, .inside hform hpart hoccurs, hnode⟩
    · have hown := List.ne_nil_of_mem hedit
      rw [ownWraps_of_ne_nil hown] at hedit
      exact ⟨_, .self, isWrite_of_ownWraps hown, hedit⟩

theorem founded_of_mem_wraps {reference : String} {shadowed : List String} {program : Node}
    (hlaid : program.laid subject.source = true) {edit : Edit}
    (hedit : edit ∈ wraps reference exported shadowed program) :
    IsFounded subject program edit := by
  obtain ⟨node, hoccurs, -, hedit⟩ := exists_of_mem_wraps hedit
  have hboundary := Node.boundary_of_laid (Node.laid_of_occurs hoccurs hlaid)
  rcases List.mem_pair.mp hedit with rfl | rfl
  · exact founded_insertion _ hboundary.1
  · exact founded_insertion _ hboundary.2

/-! ### The whole program -/

/-- Where generated code goes: behind the directives of a program. -/
def hoistOffset (program : Node) : Nat :=
  match lastDirective? program with
  | some directive => directive.span.stop
  | none => 0

/-- Whether a program lies over a text as parsers lay it: nothing but directives stands where these
end. -/
def laidProgram (source : List Char) (program : Node) : Bool :=
  program.laid source &&
    (match program.form with
    | .program => true
    | _ => false) &&
    program.parts.all fun part =>
      part.isQuiet || part.span.stop ≤ hoistOffset program || hoistOffset program ≤ part.lead

theorem exists_hoistingEdit (source : List Char) (program : Node) (code : List Char) :
    ∃ text, hoistingEdit source program code = .hoisting (hoistOffset program) text := by
  unfold hoistingEdit hoistOffset
  cases lastDirective? program with
  | some directive => dsimp only; split <;> exact ⟨_, rfl⟩
  | none => exact ⟨_, rfl⟩

/-- The generated code of a program, as an edit. -/
def hoistedEdits (subject : Subject) (program : Node) : List Edit :=
  let found := programFindings subject program
  let code := hoistedCode subject.reference (constantNames program)
    (found.filterMap Finding.export?) (found.filterMap Finding.request?)
  if code.isEmpty then [] else [hoistingEdit subject.source program code]

/-- The edits of a program, the names inserted into anonymous default declarations told apart. -/
def loweringMarked (subject : Subject) (program : Node) : List Marked :=
  if ((programFindings subject program).filterMap Finding.edit?).isEmpty then []
  else
    collect (ownMarked subject) false program ++
      (programWraps subject.reference (exportedVariables subject program) program ++
        hoistedEdits subject program).map (⟨·, false⟩)

theorem map_edit_loweringMarked (subject : Subject) (program : Node) :
    (loweringMarked subject program).map Marked.edit = loweringEdits subject program := by
  unfold loweringMarked loweringEdits
  dsimp only
  split
  · rfl
  · rw [List.map_append, map_edit_collect, List.map_map]
    simp [Function.comp_def, programFindings, hoistedEdits, exportedVariables]

/-- The edits of a program: those for the nodes that occur in it, and the generated code. -/
inductive ProgramEdit (subject : Subject) (program : Node) : Edit → Prop
  | change {node : Node} {edit : Edit} (hoccurs : node.Occurs program)
      (hchange : OwnChange subject node edit) : ProgramEdit subject program edit
  | name {node : Node} {edit : Edit} (hoccurs : node.Occurs program)
      (hname : OwnName subject node edit) : ProgramEdit subject program edit
  | write {node : Node} {edit : Edit} (hoccurs : node.Occurs program) (hwrite : isWrite node)
      (hwrap : edit ∈ wrapping subject.reference node.span) : ProgramEdit subject program edit
  | generated {edit : Edit} (hedit : edit ∈ hoistedEdits subject program) :
      ProgramEdit subject program edit

theorem programEdit_of_mem_loweringEdits {program : Node} {edit : Edit}
    (hedit : edit ∈ loweringEdits subject program) : ProgramEdit subject program edit := by
  rw [← map_edit_loweringMarked] at hedit
  unfold loweringMarked at hedit
  split at hedit
  · cases hedit
  obtain ⟨marked, hmarked, rfl⟩ := List.mem_map.mp hedit
  rcases List.mem_append.mp hmarked with hmarked | hmarked
  · obtain ⟨node, inside, hoccurs, hown⟩ := exists_of_mem_collect _ hmarked
    rcases List.mem_append.mp hown with hown | hown
    · obtain ⟨change, hchange, rfl⟩ := List.mem_map.mp hown
      exact .change hoccurs (ownChange_of_mem_ownChanges hchange)
    · obtain ⟨name, hname, rfl⟩ := List.mem_map.mp hown
      exact .name hoccurs (ownName_of_mem_ownNames hname)
  · obtain ⟨other, hother, rfl⟩ := List.mem_map.mp hmarked
    rcases List.mem_append.mp hother with hother | hother
    · obtain ⟨node, hoccurs, hwrite, hwrap⟩ := exists_of_mem_wraps hother
      exact .write hoccurs hwrite hwrap
    · exact .generated hother

theorem plainEdits_loweringMarked (subject : Subject) (program : Node) :
    plainEdits (loweringMarked subject program) =
      if ((programFindings subject program).filterMap Finding.edit?).isEmpty then []
      else
        collect (ownChanges subject) false program ++
          (programWraps subject.reference (exportedVariables subject program) program ++
            hoistedEdits subject program) := by
  unfold loweringMarked
  split
  · rfl
  · have hplain (edits : List Edit) : plainEdits (edits.map (⟨·, false⟩)) = edits := by
      simpa [markSecond] using plainEdits_markSecond edits []
    rw [← plainEdits_collect, plainEdits, List.filter_append, List.map_append]
    exact congrArg (_ ++ ·) (hplain _)

theorem isBoundary_hoistOffset {source : List Char} {program : Node}
    (hparts : ∀ part ∈ program.parts, isBoundary source part.span.stop = true) :
    isBoundary source (hoistOffset program) = true := by
  unfold hoistOffset
  cases hlast : lastDirective? program with
  | none => exact isBoundary_of_append (List.nil_append source).symm
  | some directive => exact hparts directive (List.mem_of_mem_filter (List.mem_of_getLast? hlast))

theorem isBoundary_hoistOffset_of_laid {source : List Char} {program : Node}
    (hlaid : laidProgram source program = true) :
    isBoundary source (hoistOffset program) = true := by
  simp only [laidProgram, Bool.and_eq_true] at hlaid
  have hform : program.form ≠ .namespaceDeclaration true := by
    intro hform
    have := hlaid.1.2
    rw [hform] at this
    cases this
  refine isBoundary_hoistOffset fun part hpart => ?_
  exact (Node.boundary_of_laid (((Node.laid_iff hform).mp hlaid.1.1).2.2.2.2 part hpart)).2

/-- Edits in order, and no hoisted one behind another at the same place. -/
structure Arranged (calls : Edit → Edit → Prop) (recorded edits : List Edit) : Prop where
  same : SameOrder recorded edits
  order : InOrder 0 edits
  nested : Nested calls edits
  forward : ∀ edit ∈ edits, edit.Forward
  ranked : edits.Pairwise fun first second => first.span.start = second.span.start →
    first.placement.rank ≤ second.placement.rank

theorem Arranged.insertionSort_eq {calls : Edit → Edit → Prop} {recorded edits : List Edit}
    (h : Arranged calls recorded edits) :
    recorded.insertionSort (fun first second => first.precedes second = true) = edits := by
  rw [← foldr_insertEdit, h.same]
  exact h.order.sorted h.forward h.ranked

/-- The edits of a program without the generated code. -/
theorem arranged_of_settled {calls : Edit → Edit → Prop} {reference : String} {extent : Span}
    {changes wraps : List Edit} (h : Settled calls reference extent changes wraps) :
    ∃ edits, Arranged calls (changes ++ wraps) edits ∧ ∀ edit ∈ edits, edit ∈ changes ++ wraps := by
  obtain ⟨edits, hsame, horder, hnested⟩ := h.arranged
  have hmem (edit : Edit) (hedit : edit ∈ edits) : edit ∈ changes ++ wraps :=
    hsame.perm.mem_iff.mpr hedit
  have hwithin (edit : Edit) (hedit : edit ∈ edits) := h.isWithin (hmem edit hedit)
  refine ⟨edits, ⟨hsame, horder.mono (Nat.zero_le _), hnested, fun edit hedit =>
    (hwithin edit hedit).2.2.1, ?_⟩, hmem⟩
  refine List.pairwise_of_forall_mem_list fun first hfirst second hsecond _ => ?_
  rw [(hwithin first hfirst).1, (hwithin second hsecond).1]

/-- Generated code may be put among edits none of which covers its place. -/
theorem Arranged.hoist {calls : Edit → Edit → Prop} {recorded edits : List Edit} {offset : Nat}
    (text : List Char) (h : Arranged calls recorded edits)
    (hinline : ∀ edit ∈ edits, edit.placement = .inline)
    (hside : ∀ edit ∈ edits, edit.span.stop ≤ offset ∨ offset ≤ edit.span.start) :
    ∃ edits', Arranged calls (recorded ++ [.hoisting offset text]) edits' := by
  obtain ⟨before, after, rfl, hbefore, hafter⟩ :=
    h.order.exists_split h.forward fun edit _ => Nat.lt_or_ge edit.span.start offset
  have hstop (edit : Edit) (hedit : edit ∈ before) : edit.span.stop ≤ offset := by
    refine (hside edit (List.mem_append_left _ hedit)).resolve_right fun hge => ?_
    exact absurd (hbefore edit hedit) (Nat.not_lt.mpr hge)
  have hother : ¬ (Edit.hoisting offset text).IsBracket := fun hbracket => by cases hbracket.1
  obtain ⟨hranked, hranked', hacross⟩ := List.pairwise_append.mp h.ranked
  refine ⟨before ++ (.hoisting offset text :: after), ?_, ?_,
    h.nested.splice (.single hother), ?_, ?_⟩
  · have hplace : SameOrder (after ++ [.hoisting offset text]) (.hoisting offset text :: after) := by
      refine (SameOrder.swap_cons fun edit hedit => .of_rank ?_).symm
      rw [hinline edit (List.mem_append_right _ hedit)]
      exact Nat.zero_ne_one
    have hall := h.same.append (SameOrder.refl [.hoisting offset text])
    rw [List.append_assoc] at hall
    exact hall.trans ((SameOrder.refl before).append hplace)
  · exact h.order.of_append_left.append ⟨Nat.le_refl _, h.order.of_append_right hafter⟩
      (Nat.zero_le _) hstop
  · intro edit hedit
    rcases List.mem_append.mp hedit with hedit | hedit
    · exact h.forward edit (List.mem_append_left _ hedit)
    · rcases List.mem_cons.mp hedit with rfl | hedit
      · exact Nat.le_refl _
      · exact h.forward edit (List.mem_append_right _ hedit)
  · refine List.pairwise_append.mpr ⟨hranked, List.pairwise_cons.mpr ⟨fun edit _ _ =>
      Nat.zero_le _, hranked'⟩, fun edit hedit other hother hstart => ?_⟩
    rcases List.mem_cons.mp hother with rfl | hmem
    · exact absurd hstart (Nat.ne_of_lt (hbefore edit hedit))
    · exact hacross edit hedit other hmem hstart

/-- The edits of a program that are no names, in the order of rendering. -/
theorem exists_arranged {program : Node} (hlaid : laidProgram subject.source program = true) :
    ∃ edits, Arranged (IsCall subject program) (plainEdits (loweringMarked subject program))
      edits := by
  rw [plainEdits_loweringMarked]
  split
  · exact ⟨[], SameOrder.refl _, trivial, .nil, by simp, List.Pairwise.nil⟩
  simp only [laidProgram, Bool.and_eq_true, List.all_eq_true] at hlaid
  obtain ⟨⟨hlaid, hform⟩, hdirectives⟩ := hlaid
  have hpassive : Node.isActive program.form = false := by
    split at hform
    · next hprogram => rw [hprogram]; rfl
    · cases hform
  have hnode := settled_and_clear (exportedVariables subject program) hlaid false []
  obtain ⟨edits, harranged, hmem⟩ := arranged_of_settled hnode.1
  unfold hoistedEdits programWraps
  dsimp only
  split
  · rw [List.append_nil]
    exact ⟨edits, harranged⟩
  obtain ⟨text, hhoist⟩ := exists_hoistingEdit subject.source program _
  rw [hhoist, ← List.append_assoc]
  refine harranged.hoist text (fun edit hedit => (hnode.1.isWithin (hmem edit hedit)).1) ?_
  intro edit hedit
  obtain ⟨part, hpart, hloud, -, hstart, -, hstop⟩ := hnode.2 hpassive edit (hmem edit hedit)
  have hside := hdirectives part hpart
  simp only [hloud, Bool.false_or, Bool.or_eq_true, decide_eq_true_eq] at hside
  exact hside.imp (fun h => hstop.trans h) fun h => h.trans hstart

/-! ### Rendering -/

theorem founded_loweringMarked {program : Node} (hlaid : laidProgram subject.source program = true)
    {marked : Marked} (hmem : marked ∈ loweringMarked subject program) :
    IsFounded subject program marked.edit ∧ (marked.apart = true →
      marked.edit.span.stop = marked.edit.span.start ∧
        ∃ node, node.Occurs program ∧ marked.edit ∈ ownNames subject node) := by
  have hprogram : program.laid subject.source = true := by
    simp only [laidProgram, Bool.and_eq_true] at hlaid
    exact hlaid.1.1
  unfold loweringMarked at hmem
  split at hmem
  · cases hmem
  rcases List.mem_append.mp hmem with hmem | hmem
  · obtain ⟨node, inside, hoccurs, hown⟩ := exists_of_mem_collect _ hmem
    have hnode := Node.laid_of_occurs hoccurs hprogram
    rcases List.mem_append.mp hown with hown | hown <;>
      obtain ⟨edit, hedit, rfl⟩ := List.mem_map.mp hown
    · exact ⟨founded_of_mem_ownChanges hoccurs hnode hedit, nofun⟩
    · obtain ⟨hfits, hempty⟩ := fits_of_mem_ownNames_of_laid hnode hedit
      exact ⟨⟨hfits, .inl hempty.symm⟩, fun _ => ⟨hempty, node, hoccurs, hedit⟩⟩
  · obtain ⟨edit, hedit, rfl⟩ := List.mem_map.mp hmem
    refine ⟨?_, nofun⟩
    rcases List.mem_append.mp hedit with hedit | hedit
    · exact founded_of_mem_wraps hprogram hedit
    · unfold hoistedEdits at hedit
      dsimp only at hedit
      split at hedit
      · cases hedit
      · obtain ⟨text, hhoist⟩ := exists_hoistingEdit subject.source program _
        obtain rfl := (List.mem_singleton.mp hedit).trans hhoist
        have hboundary := isBoundary_hoistOffset_of_laid hlaid
        exact ⟨Edit.fits_of_isBoundary hboundary hboundary (Nat.le_refl _), .inl rfl⟩

/-- What rendering makes of the edits of a program. `marked` are the edits in the order of recording,
and those told apart are left aside where the claim is about the others. -/
structure Retained (subject : Subject) (program : Node) (marked : List Marked) : Prop where
  /-- They are the edits of the program. -/
  recorded : marked.map Marked.edit = loweringEdits subject program
  /-- Only names inserted into anonymous default declarations are told apart. -/
  names : ∀ item ∈ marked, item.apart = true →
    ∃ node, node.Occurs program ∧ item.edit ∈ ownNames subject node
  /-- No two of the others overlap. -/
  apart : (plainEdits marked).Pairwise Edit.Apart
  /-- None of the others is dropped. -/
  kept : (plainEdits (keepMarked 0 (sortMarked marked))).Perm (plainEdits marked)
  /-- Each call that they begin ends behind the expression that it is begun for, with whole calls in
  between. -/
  nested : Nested (IsCall subject program) (plainEdits (keepMarked 0 (sortMarked marked)))
  /-- The rendered text is the source, in order, but for what the edits replace. -/
  copied : Interleaves 0 ((keepMarked 0 (sortMarked marked)).map Marked.edit) subject.source
    ((ofSource subject.source).recordAll (loweringEdits subject program)).render
  /-- Text is replaced only in module declarations, before what is exported, and in keywords of dynamic
  imports. -/
  replaced : ∀ item ∈ keepMarked 0 (sortMarked marked),
    item.edit.span.start = item.edit.span.stop ∨ IsReplaced subject program item.edit.span

/-- **Edits.** For a program that lies over its text as parsers lay it, no edit is lost, calls that are
begun end where they should, and all text but that of module declarations is copied once and in
order. -/
theorem retained_loweringMarked {program : Node} (hlaid : laidProgram subject.source program = true) :
    Retained subject program (loweringMarked subject program) := by
  obtain ⟨edits, harranged⟩ := exists_arranged hlaid
  have hmem (marked : Marked)
      (h : marked ∈ keepMarked 0 (sortMarked (loweringMarked subject program))) :
      marked ∈ loweringMarked subject program :=
    (List.mem_insertionSort _).mp ((sublist_keepMarked 0 _).subset h)
  have hfounded (marked : Marked) (h : marked ∈ loweringMarked subject program) :=
    founded_loweringMarked hlaid h
  have hkept : plainEdits (keepMarked 0 (sortMarked (loweringMarked subject program))) = edits := by
    rw [plainEdits_keepMarked (pairwise_sortMarked _), plainEdits_sortMarked,
      harranged.insertionSort_eq, keep_of_inOrder harranged.order]
    intro marked h hapart
    exact ((hfounded marked ((List.mem_insertionSort _).mp h)).2 hapart).1
  refine ⟨map_edit_loweringMarked subject program, fun marked h hapart =>
    ((hfounded marked h).2 hapart).2, ?_, ?_, ?_, ?_, fun marked h => (hfounded marked (hmem marked h)).1.2⟩
  · exact (harranged.order.pairwise harranged.forward).perm harranged.same.perm.symm
      Edit.Apart.symm
  · rw [hkept]
    exact harranged.same.perm.symm
  · rw [hkept]
    exact harranged.nested
  · rw [render_recordAll_ofSource, ← map_edit_loweringMarked, ← map_edit_sortMarked,
      ← map_edit_keepMarked]
    refine @interleaves_splice _ _ [] _ rfl (fun edit hedit => ?_) ?_
    · obtain ⟨marked, h, rfl⟩ := List.mem_map.mp hedit
      exact (hfounded marked (hmem marked h)).1.1
    · rw [map_edit_keepMarked]
      exact inOrder_keep _ _

theorem exists_of_any {ε α : Type} {result : Except ε α} {test : α → Bool}
    (h : result.toOption.any test = true) : ∃ value, result = .ok value ∧ test value = true := by
  cases result with
  | ok value => exact ⟨value, rfl, h⟩
  | error reason => cases h

/-- A module whose default export is a write, the value of which is a dynamic import. -/
def nestedCalls : List Char :=
  "'use strict'\nexport let x; x++; export default x = import('m');".toList

/-- The module is read as a program that lies over its text. -/
theorem retained_nestedCalls : ∃ program, parse ⟨false, false, true⟩ nestedCalls = .ok program ∧
    laidProgram nestedCalls program = true ∧
    Retained ⟨nestedCalls, "module"⟩ program (loweringMarked ⟨nestedCalls, "module"⟩ program) := by
  have hprogram : ((parse ⟨false, false, true⟩ nestedCalls).toOption.any fun program =>
      laidProgram nestedCalls program) = true := by
    decide +kernel
  obtain ⟨program, hparse, hlaid⟩ := exists_of_any hprogram
  exact ⟨program, hparse, hlaid, retained_loweringMarked hlaid⟩

end ModuleLinkage.Lowering
