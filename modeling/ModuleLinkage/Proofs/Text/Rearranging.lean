import ModuleLinkage.Proofs.Text.Rendering

/-!
# Edits that may be recorded in another order

Edits are rendered in the order of their places, and those at one place in the order of recording. So
it makes no difference in which order two edits are recorded that stand at different places, or that
are the same (`Edit.Interchangeable`); two lists that differ only in this way are rendered alike
(`SameOrder`). A list in which each edit begins where the one before it ends, or later, is rendered as
it stands and no edit of it is dropped (`InOrder.sorted`, `keep_of_inOrder`), and what it leaves of the
source is copied once, in order (`interleaves_splice`).
-/

set_option autoImplicit false

namespace ModuleLinkage.Text

/-! ### Putting edits in order -/

/-- Puts an edit among edits in the order of rendering. -/
def insertEdit (edit : Edit) (edits : List Edit) : List Edit :=
  edits.orderedInsert (fun first second => first.precedes second = true) edit

/-- Whether it makes no difference which of two edits is recorded first. -/
def Edit.Interchangeable (first second : Edit) : Prop :=
  first = second ∨ ¬ (first.precedes second = true ∧ second.precedes first = true)

theorem Edit.Interchangeable.symm {first second : Edit} (h : first.Interchangeable second) :
    second.Interchangeable first := by
  rcases h with h | h
  · exact .inl h.symm
  · exact .inr fun hboth => h ⟨hboth.2, hboth.1⟩

theorem Edit.Interchangeable.of_span {first second : Edit} (h : first.span ≠ second.span) :
    first.Interchangeable second := by
  refine .inr fun hboth => h ?_
  rw [Edit.precedes_iff, Edit.precedes_iff] at hboth
  obtain ⟨⟨start, stop⟩, _, _⟩ := first
  obtain ⟨⟨start', stop'⟩, _, _⟩ := second
  simp only [Span.mk.injEq]
  dsimp only at hboth
  omega

theorem Edit.Interchangeable.of_rank {first second : Edit}
    (h : first.placement.rank ≠ second.placement.rank) : first.Interchangeable second := by
  refine .inr fun hboth => h ?_
  rw [Edit.precedes_iff, Edit.precedes_iff] at hboth
  omega

theorem insertEdit_cons_of_precedes {edit next : Edit} (rest : List Edit)
    (h : edit.precedes next = true) : insertEdit edit (next :: rest) = edit :: next :: rest :=
  List.orderedInsert_cons_of_le _ _ h

theorem insertEdit_cons_of_not {edit next : Edit} (rest : List Edit)
    (h : ¬ edit.precedes next = true) :
    insertEdit edit (next :: rest) = next :: insertEdit edit rest :=
  List.orderedInsert_of_not_le _ _ h

/-- Edits at different places find theirs whichever is put there first. -/
theorem insertEdit_comm {first second : Edit} (h : first.Interchangeable second)
    (edits : List Edit) :
    insertEdit first (insertEdit second edits) = insertEdit second (insertEdit first edits) := by
  have hstrict {a b : Edit} (hnot : ¬ b.precedes a = true) (edits : List Edit) :
      insertEdit a (insertEdit b edits) = insertEdit b (insertEdit a edits) := by
    have hle : a.precedes b = true := by
      simpa [hnot] using Edit.precedes_total a b
    induction edits with
    | nil =>
      rw [show insertEdit b [] = [b] from rfl, show insertEdit a [] = [a] from rfl,
        insertEdit_cons_of_precedes _ hle, insertEdit_cons_of_not _ hnot]
      rfl
    | cons next rest ih =>
      by_cases hb : b.precedes next = true
      · have ha := Edit.precedes_trans _ _ _ hle hb
        rw [insertEdit_cons_of_precedes _ hb, insertEdit_cons_of_precedes _ hle,
          insertEdit_cons_of_precedes _ ha, insertEdit_cons_of_not _ hnot,
          insertEdit_cons_of_precedes _ hb]
      · rw [insertEdit_cons_of_not _ hb]
        by_cases ha : a.precedes next = true
        · rw [insertEdit_cons_of_precedes _ ha, insertEdit_cons_of_precedes _ ha,
            insertEdit_cons_of_not _ hnot, insertEdit_cons_of_not _ hb]
        · rw [insertEdit_cons_of_not _ ha, insertEdit_cons_of_not _ ha, insertEdit_cons_of_not _ hb,
            ih]
  rcases h with rfl | h
  · rfl
  · by_cases hle : second.precedes first = true
    · exact (hstrict (fun hfirst => h ⟨hfirst, hle⟩) edits).symm
    · exact hstrict hle edits

/-! ### Lists that are rendered alike -/

theorem foldr_insertEdit (edits : List Edit) : edits.foldr insertEdit [] =
    edits.insertionSort fun first second => first.precedes second = true :=
  rfl

/-- Recording one list or the other makes no difference to what is rendered, whatever is recorded
before and behind them. -/
def SameOrder (first second : List Edit) : Prop :=
  ∀ rest, first.foldr insertEdit rest = second.foldr insertEdit rest

namespace SameOrder

variable {first second third before after : List Edit}

theorem refl (edits : List Edit) : SameOrder edits edits :=
  fun _ => rfl

theorem symm (h : SameOrder first second) : SameOrder second first :=
  fun rest => (h rest).symm

theorem trans (h : SameOrder first second) (h' : SameOrder second third) : SameOrder first third :=
  fun rest => (h rest).trans (h' rest)

theorem append (h : SameOrder first second) (h' : SameOrder before after) :
    SameOrder (first ++ before) (second ++ after) := by
  intro rest
  rw [List.foldr_append, List.foldr_append, h' rest, h]

theorem cons (edit : Edit) (h : SameOrder first second) :
    SameOrder (edit :: first) (edit :: second) :=
  append (refl [edit]) h

theorem swap_cons {edit : Edit} (h : ∀ other ∈ first, edit.Interchangeable other) :
    SameOrder (edit :: first) (first ++ [edit]) := by
  induction first with
  | nil => exact refl _
  | cons other others ih =>
    have hothers := ih fun other hother => h other (by simp [hother])
    refine trans (fun rest => ?_) (cons other hothers)
    exact insertEdit_comm (h other (by simp)) _

theorem swap (h : ∀ edit ∈ first, ∀ other ∈ second, edit.Interchangeable other) :
    SameOrder (first ++ second) (second ++ first) := by
  induction first with
  | nil => simpa using refl second
  | cons edit edits ih =>
    have hedits := ih fun edit hedit => h edit (by simp [hedit])
    have hswap : SameOrder (edit :: second) (second ++ [edit]) := swap_cons (h edit (by simp))
    have := (hswap.append (refl edits))
    rw [List.cons_append, List.append_assoc, List.singleton_append] at this
    exact (cons edit hedits).trans this

theorem perm (h : SameOrder first second) : first.Perm second := by
  have hfold (edits : List Edit) : (edits.foldr insertEdit []).Perm edits := by
    rw [foldr_insertEdit]
    exact List.perm_insertionSort _ _
  exact (hfold first).symm.trans (h [] ▸ hfold second)

end SameOrder

/-! ### Edits that do not overlap -/

/-- Whether the ranges of two edits do not overlap. -/
def Edit.Apart (first second : Edit) : Prop :=
  first.span.stop ≤ second.span.start ∨ second.span.stop ≤ first.span.start

theorem Edit.Apart.symm {first second : Edit} (h : first.Apart second) : second.Apart first :=
  Or.symm h

/-- The range of an edit ends where it begins or later. -/
def Edit.Forward (edit : Edit) : Prop :=
  edit.span.start ≤ edit.span.stop

namespace EditList

variable {cursor middle : Nat} {first second edits : List Edit}

theorem InOrder.le_start (horder : InOrder cursor edits)
    (hforward : ∀ edit ∈ edits, edit.Forward) {edit : Edit} (hedit : edit ∈ edits) :
    cursor ≤ edit.span.start := by
  induction edits generalizing cursor with
  | nil => cases hedit
  | cons next rest ih =>
    rcases List.mem_cons.mp hedit with rfl | hedit
    · exact horder.1
    · have hnext : next.span.start ≤ next.span.stop := hforward next (by simp)
      have hrest := ih horder.2 (fun other hother => hforward other (by simp [hother])) hedit
      exact horder.1.trans (hnext.trans hrest)

theorem InOrder.append (hfirst : InOrder cursor first) (hsecond : InOrder middle second)
    (hle : cursor ≤ middle) (hstop : ∀ edit ∈ first, edit.span.stop ≤ middle) :
    InOrder cursor (first ++ second) := by
  induction first generalizing cursor with
  | nil => exact hsecond.mono hle
  | cons edit rest ih =>
    refine ⟨hfirst.1, ih hfirst.2 (hstop edit (by simp)) fun other hother => ?_⟩
    exact hstop other (by simp [hother])

theorem InOrder.of_append_right (horder : InOrder cursor (first ++ second))
    (hmiddle : ∀ edit ∈ second, middle ≤ edit.span.start) : InOrder middle second := by
  cases second with
  | nil => trivial
  | cons edit rest =>
    refine ⟨hmiddle edit (by simp), ?_⟩
    induction first generalizing cursor with
    | nil => exact horder.2
    | cons other others ih => exact ih horder.2

theorem InOrder.of_append_left (horder : InOrder cursor (first ++ second)) :
    InOrder cursor first := by
  induction first generalizing cursor with
  | nil => trivial
  | cons edit rest ih => exact ⟨horder.1, ih horder.2⟩

/-- Edits in order may be cut in two before the first of them that begins at an offset or later. -/
theorem InOrder.exists_split {ahead : Edit → Prop} {offset : Nat} (horder : InOrder cursor edits)
    (hforward : ∀ edit ∈ edits, edit.Forward)
    (hside : ∀ edit ∈ edits, ahead edit ∨ offset ≤ edit.span.start) :
    ∃ before after, edits = before ++ after ∧ (∀ edit ∈ before, ahead edit) ∧
      ∀ edit ∈ after, offset ≤ edit.span.start := by
  induction edits generalizing cursor with
  | nil => exact ⟨[], [], rfl, by simp, by simp⟩
  | cons edit rest ih =>
    have hrest : ∀ other ∈ rest, other.Forward := fun other hother => hforward other (by simp [hother])
    rcases hside edit (by simp) with hahead | hbehind
    · obtain ⟨before, after, rfl, hbefore, hafter⟩ :=
        ih horder.2 hrest fun other hother => hside other (by simp [hother])
      refine ⟨edit :: before, after, rfl, fun other hother => ?_, hafter⟩
      rcases List.mem_cons.mp hother with rfl | hother
      · exact hahead
      · exact hbefore other hother
    · refine ⟨[], edit :: rest, rfl, by simp, fun other hother => ?_⟩
      rcases List.mem_cons.mp hother with rfl | hother
      · exact hbehind
      · have hedit : edit.span.start ≤ edit.span.stop := hforward edit (by simp)
        exact hbehind.trans (hedit.trans (horder.2.le_start hrest hother))

/-- Edits in order do not overlap. -/
theorem InOrder.pairwise (horder : InOrder cursor edits)
    (hforward : ∀ edit ∈ edits, edit.Forward) : edits.Pairwise Edit.Apart := by
  induction edits generalizing cursor with
  | nil => exact List.Pairwise.nil
  | cons edit rest ih =>
    have hrest : ∀ other ∈ rest, other.Forward := fun other hother => hforward other (by simp [hother])
    refine List.pairwise_cons.mpr ⟨fun other hother => .inl ?_, ih horder.2 hrest⟩
    exact horder.2.le_start hrest hother

theorem keep_of_inOrder (horder : InOrder cursor edits) : keep cursor edits = edits := by
  induction edits generalizing cursor with
  | nil => rfl
  | cons edit rest ih =>
    rw [keep, if_neg (Nat.not_lt.mpr horder.1), ih horder.2]

/-- Edits in order are sorted already, if hoisted ones come first at their place. -/
theorem InOrder.sorted (horder : InOrder cursor edits) (hforward : ∀ edit ∈ edits, edit.Forward)
    (hrank : edits.Pairwise fun first second => first.span.start = second.span.start →
      first.placement.rank ≤ second.placement.rank) :
    edits.foldr insertEdit [] = edits := by
  rw [foldr_insertEdit]
  refine List.Pairwise.insertionSort_eq ?_
  induction edits generalizing cursor with
  | nil => exact List.Pairwise.nil
  | cons edit rest ih =>
    have hrest : ∀ other ∈ rest, other.Forward := fun other hother => hforward other (by simp [hother])
    rw [List.pairwise_cons] at hrank
    refine List.pairwise_cons.mpr ⟨fun other hother => ?_, ih horder.2 hrest hrank.2⟩
    have hstop := horder.2.le_start hrest hother
    have hedit : edit.span.start ≤ edit.span.stop := hforward edit (by simp)
    have hother' : other.span.start ≤ other.span.stop := hrest other hother
    rw [Edit.precedes_iff]
    by_cases hstart : edit.span.start = other.span.start
    · have := hrank.1 other hother hstart
      omega
    · omega

/-! ### What is copied -/

end EditList

/-- Whether an offset falls between two characters of a text, or on its beginning or end. -/
def isBoundary (source : List Char) (offset : Nat) : Bool :=
  width (takeBytes offset source) == offset

theorem exists_of_isBoundary {source : List Char} {offset : Nat}
    (h : isBoundary source offset = true) :
    ∃ before after, source = before ++ after ∧ width before = offset :=
  ⟨takeBytes offset source, dropBytes offset source,
    (takeBytes_append_dropBytes offset source).symm, by simpa [isBoundary] using h⟩

theorem isBoundary_of_append {source before after : List Char} (h : source = before ++ after) :
    isBoundary source (width before) = true := by
  rw [isBoundary, h, takeBytes_width, beq_self_eq_true]

theorem Edit.fits_of_isBoundary {source : List Char} {edit : Edit}
    (hstart : isBoundary source edit.span.start = true)
    (hstop : isBoundary source edit.span.stop = true) (hforward : edit.Forward) :
    edit.Fits source := by
  obtain ⟨before, rest, hsource, hbefore⟩ := exists_of_isBoundary hstart
  obtain ⟨until', after, hsource', huntil⟩ := exists_of_isBoundary hstop
  obtain ⟨inside, rfl, rfl⟩ := exists_append_of_width_le (hsource.symm.trans hsource')
    (by rw [hbefore, huntil]; exact hforward)
  refine ⟨before, inside, after, hsource, ?_⟩
  rw [← width_append, hbefore, huntil]

namespace EditList

variable {edits : List Edit}

/-- `rendered` is `source` with the ranges of `edits` replaced: the text between them is copied, once
and in order. -/
def Interleaves : Nat → List Edit → List Char → List Char → Prop
  | _, [], source, rendered => rendered = source
  | cursor, edit :: edits, source, rendered =>
    ∃ copied replaced source' rendered', source = copied ++ (replaced ++ source') ∧
      rendered = copied ++ (edit.text ++ rendered') ∧
      edit.span = ⟨cursor + width copied, cursor + width copied + width replaced⟩ ∧
      Interleaves edit.span.stop edits source' rendered'

theorem interleaves_splice {source before rest : List Char} (hsource : source = before ++ rest)
    (hfits : ∀ edit ∈ edits, edit.Fits source) (horder : InOrder (width before) edits) :
    Interleaves (width before) edits rest (splice (width before) rest edits) := by
  induction edits generalizing before rest with
  | nil => rfl
  | cons edit edits ih =>
    obtain ⟨ahead, replaced, behind, hsplit, hspan⟩ := hfits edit List.mem_cons_self
    have hstart : edit.span.start = width ahead := by rw [hspan]
    have hstop : edit.span.stop = width ahead + width replaced := by rw [hspan]
    obtain ⟨copied, rfl, rfl⟩ : ∃ copied, ahead = before ++ copied ∧
        rest = copied ++ (replaced ++ behind) :=
      exists_append_of_width_le (hsource.symm.trans hsplit) (hstart ▸ horder.1)
    have hrest := @ih (before ++ copied ++ replaced) behind (by simpa using hsplit)
      (fun other hother => hfits other (by simp [hother]))
      (by rw [width_append, ← hstop]; exact horder.2)
    rw [width_append, ← hstop] at hrest
    refine ⟨copied, replaced, behind, splice edit.span.stop behind edits, rfl, ?_, ?_, hrest⟩
    · rw [splice, hstart, hstop, width_append, Nat.add_sub_cancel_left, takeBytes_width,
        show width before + width copied + width replaced - width before =
          width copied + width replaced by omega, dropBytes_add, dropBytes_width]
      simp only [List.append_assoc]
    · rw [hspan, width_append]

end EditList

end ModuleLinkage.Text
