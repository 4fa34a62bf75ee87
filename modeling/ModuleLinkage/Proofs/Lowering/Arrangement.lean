import ModuleLinkage.Lowering.Writes
import ModuleLinkage.Proofs.Text.Nesting

/-!
# The edits of a subtree in the order of their places

The edits of a program come from two passes over its tree, so the edits of a subtree are recorded in
two runs: first what is done about module declarations in it, and, after the same for the rest of the
program, the insertions around the writes in it. `Settled` says of these two runs that, put in order,
they stay within the span of the subtree, do not overlap, and are nested.

What comes from two subtrees beside each other is put together by `Settled.insert`, whichever of them
comes first in the source. At a place where several edits meet they are either the same, or of one
pass, or one of them removes text; that is why the order of recording does no harm.
-/

set_option autoImplicit false

namespace ModuleLinkage.Lowering

open Text EditList

/-- The beginning of the call around a write. -/
def opening (reference : String) (offset : Nat) : Edit :=
  .insertion offset (reference ++ ".runSetters(").toList

/-- The end of a call. -/
def closing (offset : Nat) : Edit :=
  .insertion offset [')']

/-- Whether an edit within `extent` is an insertion around a write. -/
def IsWrap (reference : String) (extent : Span) (edit : Edit) : Prop :=
  (∃ offset, extent.start ≤ offset ∧ offset < extent.stop ∧ edit = opening reference offset) ∨
    ∃ offset, extent.start < offset ∧ offset ≤ extent.stop ∧ edit = closing offset

/-- Whether an edit within `extent` ends a call or replaces some text. -/
def IsChange (extent : Span) (edit : Edit) : Prop :=
  (∃ offset, extent.start < offset ∧ offset ≤ extent.stop ∧ edit = closing offset) ∨
    (edit.placement = .inline ∧ extent.start ≤ edit.span.start ∧ edit.span.start < edit.span.stop ∧
      edit.span.stop ≤ extent.stop)

/-- Whether an edit stays within `extent`. -/
def IsWithin (extent : Span) (edit : Edit) : Prop :=
  edit.placement = .inline ∧ extent.start ≤ edit.span.start ∧ edit.span.start ≤ edit.span.stop ∧
    edit.span.stop ≤ extent.stop

section Extents

variable {reference : String} {extent whole : Span} {edit other : Edit}

theorem IsWrap.isWithin (h : IsWrap reference extent edit) : IsWithin extent edit := by
  rcases h with ⟨offset, hstart, hstop, rfl⟩ | ⟨offset, hstart, hstop, rfl⟩
  · exact ⟨rfl, hstart, Nat.le_refl _, hstop.le⟩
  · exact ⟨rfl, hstart.le, Nat.le_refl _, hstop⟩

theorem IsChange.isWithin (h : IsChange extent edit) : IsWithin extent edit := by
  rcases h with ⟨offset, hstart, hstop, rfl⟩ | ⟨hinline, hstart, hlt, hstop⟩
  · exact ⟨rfl, hstart.le, Nat.le_refl _, hstop⟩
  · exact ⟨hinline, hstart, hlt.le, hstop⟩

theorem IsWrap.mono (hstart : whole.start ≤ extent.start) (hstop : extent.stop ≤ whole.stop)
    (h : IsWrap reference extent edit) : IsWrap reference whole edit := by
  rcases h with ⟨offset, hfrom, hto, rfl⟩ | ⟨offset, hfrom, hto, rfl⟩
  · exact .inl ⟨offset, hstart.trans hfrom, hto.trans_le hstop, rfl⟩
  · exact .inr ⟨offset, hstart.trans_lt hfrom, hto.trans hstop, rfl⟩

theorem IsChange.mono (hstart : whole.start ≤ extent.start) (hstop : extent.stop ≤ whole.stop)
    (h : IsChange extent edit) : IsChange whole edit := by
  rcases h with ⟨offset, hfrom, hto, rfl⟩ | ⟨hinline, hfrom, hlt, hto⟩
  · exact .inl ⟨offset, hstart.trans_lt hfrom, hto.trans hstop, rfl⟩
  · exact .inr ⟨hinline, hstart.trans hfrom, hlt, hto.trans hstop⟩

/-- An insertion may trade places with an edit that replaces text. -/
theorem interchangeable_of_lt (hedit : edit.span.start = edit.span.stop)
    (hother : other.span.start < other.span.stop) : edit.Interchangeable other := by
  refine .of_span fun hspan => ?_
  rw [hspan] at hedit
  omega

/-- Insertions at different offsets may trade places. -/
theorem interchangeable_of_start_ne (h : edit.span.start ≠ other.span.start) :
    edit.Interchangeable other :=
  .of_span fun hspan => h (congrArg Span.start hspan)

/-- The beginning of a call around a subtree may be recorded before the edits in it. -/
theorem interchangeable_opening (hedit : IsChange extent edit ∨ IsWrap reference extent edit) :
    (opening reference extent.start).Interchangeable edit := by
  rcases hedit with hchange | hwrap
  · rcases hchange with ⟨offset, hstart, -, rfl⟩ | ⟨-, -, hlt, -⟩
    · exact interchangeable_of_start_ne (Nat.ne_of_lt hstart)
    · exact interchangeable_of_lt rfl hlt
  · rcases hwrap with ⟨offset, -, -, rfl⟩ | ⟨offset, hstart, -, rfl⟩
    · by_cases hoffset : extent.start = offset
      · exact .inl (congrArg _ hoffset)
      · exact interchangeable_of_start_ne hoffset
    · exact interchangeable_of_start_ne (Nat.ne_of_lt hstart)

/-- The end of a call around a subtree may be recorded behind the edits in it. -/
theorem interchangeable_closing (hedit : IsChange extent edit ∨ IsWrap reference extent edit) :
    (closing extent.stop).Interchangeable edit := by
  have hclosing (offset : Nat) : (closing extent.stop).Interchangeable (closing offset) := by
    by_cases hoffset : extent.stop = offset
    · exact .inl (congrArg _ hoffset)
    · exact interchangeable_of_start_ne hoffset
  rcases hedit with hchange | hwrap
  · rcases hchange with ⟨offset, -, -, rfl⟩ | ⟨-, -, hlt, -⟩
    · exact hclosing offset
    · exact interchangeable_of_lt rfl hlt
  · rcases hwrap with ⟨offset, -, hstop, rfl⟩ | ⟨offset, -, -, rfl⟩
    · exact interchangeable_of_start_ne (Nat.ne_of_gt hstop)
    · exact hclosing offset

/-- A change may be recorded before an insertion around a write that ends where it begins. -/
theorem interchangeable_behind (hwrap : IsWrap reference extent edit) (hchange : IsChange whole other)
    (hbehind : extent.stop ≤ other.span.start) : edit.Interchangeable other := by
  rcases hchange with ⟨offset, -, -, rfl⟩ | ⟨-, -, hlt, -⟩
  · rcases hwrap with ⟨offset', -, hstop, rfl⟩ | ⟨offset', -, hstop, rfl⟩
    · exact interchangeable_of_start_ne (Nat.ne_of_lt (hstop.trans_le hbehind))
    · by_cases hoffset : offset' = offset
      · exact .inl (congrArg _ hoffset)
      · exact interchangeable_of_start_ne hoffset
  · have hedit : edit.span.start = edit.span.stop := by
      rcases hwrap with ⟨_, -, -, rfl⟩ | ⟨_, -, -, rfl⟩ <;> rfl
    exact interchangeable_of_lt hedit hlt

end Extents

/-- The edits of a subtree: put in order, they do not overlap and are nested. -/
structure Settled (calls : Edit → Edit → Prop) (reference : String) (extent : Span)
    (changes wraps : List Edit) : Prop where
  changes_within : ∀ edit ∈ changes, IsChange extent edit
  wraps_within : ∀ edit ∈ wraps, IsWrap reference extent edit
  arranged : ∃ edits, SameOrder (changes ++ wraps) edits ∧ InOrder extent.start edits ∧
    Nested calls edits

namespace Settled

variable {calls calls' : Edit → Edit → Prop} {reference : String} {extent whole : Span}
  {changes wraps changes' wraps' : List Edit}

theorem nil : Settled calls reference extent [] [] :=
  ⟨by simp, by simp, [], SameOrder.refl _, trivial, .nil⟩

theorem isWithin (h : Settled calls reference extent changes wraps) {edit : Edit}
    (hedit : edit ∈ changes ++ wraps) : IsWithin extent edit := by
  rcases List.mem_append.mp hedit with hedit | hedit
  · exact (h.changes_within edit hedit).isWithin
  · exact (h.wraps_within edit hedit).isWithin

theorem change_or_wrap (h : Settled calls reference extent changes wraps) {edit : Edit}
    (hedit : edit ∈ changes ++ wraps) : IsChange extent edit ∨ IsWrap reference extent edit :=
  (List.mem_append.mp hedit).imp (h.changes_within edit) (h.wraps_within edit)

/-- Only what covers some text has edits. -/
theorem start_lt_stop (h : Settled calls reference extent changes wraps) {edit : Edit}
    (hedit : edit ∈ changes ++ wraps) : extent.start < extent.stop := by
  rcases h.change_or_wrap hedit with hchange | hwrap
  · rcases hchange with ⟨offset, hstart, hstop, -⟩ | ⟨-, hstart, hlt, hstop⟩ <;> omega
  · rcases hwrap with ⟨offset, hstart, hstop, -⟩ | ⟨offset, hstart, hstop, -⟩ <;> omega

theorem mono (h : Settled calls reference extent changes wraps)
    (hcalls : ∀ first last, calls first last → calls' first last)
    (hstart : whole.start ≤ extent.start) (hstop : extent.stop ≤ whole.stop) :
    Settled calls' reference whole changes wraps := by
  obtain ⟨edits, hsame, horder, hnested⟩ := h.arranged
  exact ⟨fun edit hedit => (h.changes_within edit hedit).mono hstart hstop,
    fun edit hedit => (h.wraps_within edit hedit).mono hstart hstop,
    edits, hsame, horder.mono hstart, hnested.mono hcalls⟩

theorem widen (h : Settled calls reference extent changes wraps)
    (hstart : whole.start ≤ extent.start) (hstop : extent.stop ≤ whole.stop) :
    Settled calls reference whole changes wraps :=
  h.mono (fun _ _ hcall => hcall) hstart hstop

/-- One edit that replaces text by none of the brackets. -/
theorem single {edit : Edit} (hinline : edit.placement = .inline)
    (hlt : edit.span.start < edit.span.stop) (hother : ¬ edit.IsBracket) :
    Settled calls reference edit.span [edit] [] := by
  refine ⟨fun other hmem => ?_, by simp, [edit], SameOrder.refl _, ⟨Nat.le_refl _, trivial⟩,
    .single hother⟩
  obtain rfl := List.mem_singleton.mp hmem
  exact .inr ⟨hinline, Nat.le_refl _, hlt, Nat.le_refl _⟩

/-- The edits of one subtree may be recorded before those of others, if each of these stands on one
side of it. -/
theorem insert (hfirst : Settled calls reference extent changes wraps)
    (hrest : Settled calls reference whole changes' wraps')
    (hstart : whole.start ≤ extent.start) (hle : extent.start ≤ extent.stop)
    (hstop : extent.stop ≤ whole.stop)
    (hside : ∀ edit ∈ changes' ++ wraps',
      edit.span.stop ≤ extent.start ∨ extent.stop ≤ edit.span.start)
    (hswap : ∀ edit ∈ changes' ++ wraps', edit.span.stop ≤ extent.start →
      ∀ other ∈ changes ++ wraps, other.Interchangeable edit) :
    Settled calls reference whole (changes ++ changes') (wraps ++ wraps') := by
  obtain ⟨edits, hsame, horder, hnested⟩ := hfirst.arranged
  obtain ⟨edits', hsame', horder', hnested'⟩ := hrest.arranged
  have hmem {edit : Edit} (hedit : edit ∈ edits) : edit ∈ changes ++ wraps :=
    hsame.perm.mem_iff.mpr hedit
  have hmem' {edit : Edit} (hedit : edit ∈ edits') : edit ∈ changes' ++ wraps' :=
    hsame'.perm.mem_iff.mpr hedit
  obtain ⟨before, after, rfl, hbefore, hafter⟩ :=
    horder'.exists_split (fun edit hedit => (hrest.isWithin (hmem' hedit)).2.2.1)
      fun edit hedit => hside edit (hmem' hedit)
  refine ⟨fun edit hedit => ?_, fun edit hedit => ?_, before ++ (edits ++ after), ?_, ?_,
    hnested'.splice hnested⟩
  · rcases List.mem_append.mp hedit with hedit | hedit
    · exact (hfirst.changes_within edit hedit).mono hstart hstop
    · exact hrest.changes_within edit hedit
  · rcases List.mem_append.mp hedit with hedit | hedit
    · exact (hfirst.wraps_within edit hedit).mono hstart hstop
    · exact hrest.wraps_within edit hedit
  · -- What the first pass records of the rest trades places with what the second one records here.
    have hpasses : SameOrder (changes' ++ wraps) (wraps ++ changes') := by
      refine SameOrder.swap fun edit hedit other hother => ?_
      rcases hside edit (List.mem_append_left _ hedit) with hahead | hbehind
      · exact (hswap edit (List.mem_append_left _ hedit) hahead other
          (List.mem_append_right _ hother)).symm
      · exact (interchangeable_behind (hfirst.wraps_within other hother)
          (hrest.changes_within edit hedit) hbehind).symm
    have htogether : SameOrder (changes ++ changes' ++ (wraps ++ wraps'))
        ((changes ++ wraps) ++ (changes' ++ wraps')) := by
      have := ((SameOrder.refl changes).append hpasses).append (SameOrder.refl wraps')
      simpa only [List.append_assoc] using this
    have hplace : SameOrder (edits ++ before) (before ++ edits) := by
      refine SameOrder.swap fun other hother edit hedit => ?_
      exact hswap edit (hmem' (List.mem_append_left _ hedit)) (hbefore edit hedit) other (hmem hother)
    have hput := hplace.append (SameOrder.refl after)
    rw [List.append_assoc, List.append_assoc] at hput
    exact (htogether.trans (hsame.append hsame')).trans hput
  · have hstops {edit : Edit} (hedit : edit ∈ edits) : edit.span.stop ≤ extent.stop :=
      (hfirst.isWithin (hmem hedit)).2.2.2
    have hright : InOrder extent.start (edits ++ after) :=
      horder.append (horder'.of_append_right hafter) hle fun edit hedit => hstops hedit
    exact horder'.of_append_left.append hright hstart hbefore

/-- Text may be replaced beside the edits of a subtree. -/
theorem insert_single {edit : Edit} (hrest : Settled calls reference whole changes wraps)
    (hinline : edit.placement = .inline) (hlt : edit.span.start < edit.span.stop)
    (hother : ¬ edit.IsBracket) (hstart : whole.start ≤ edit.span.start)
    (hstop : edit.span.stop ≤ whole.stop)
    (hside : ∀ other ∈ changes ++ wraps,
      other.span.stop ≤ edit.span.start ∨ edit.span.stop ≤ other.span.start) :
    Settled calls reference whole (edit :: changes) wraps := by
  refine insert (single hinline hlt hother) hrest hstart hlt.le hstop hside ?_
  intro other _ hahead edit' hedit'
  obtain rfl : edit' = edit := by simpa using hedit'
  refine .of_span fun hspan => ?_
  rw [← hspan] at hahead
  omega

/-- The edits of a write that is wrapped. -/
theorem wrap (h : Settled calls reference extent changes wraps) (hlt : extent.start < extent.stop)
    (hcall : calls (opening reference extent.start) (closing extent.stop)) :
    Settled calls reference extent changes (wraps ++ wrapping reference extent) := by
  obtain ⟨edits, hsame, horder, hnested⟩ := h.arranged
  have hwithin (edit : Edit) (hedit : edit ∈ edits) : edit.span.stop ≤ extent.stop :=
    (h.isWithin (hsame.perm.mem_iff.mpr hedit)).2.2.2
  refine ⟨h.changes_within, fun edit hedit => ?_,
    opening reference extent.start :: (edits ++ [closing extent.stop]), ?_, ?_,
    hnested.enclose hcall⟩
  · rcases List.mem_append.mp hedit with hedit | hedit
    · exact h.wraps_within edit hedit
    · rcases List.mem_pair.mp hedit with rfl | rfl
      · exact .inl ⟨extent.start, Nat.le_refl _, hlt, rfl⟩
      · exact .inr ⟨extent.stop, hlt, Nat.le_refl _, rfl⟩
  · have hfront : SameOrder (changes ++ wraps ++ [opening reference extent.start])
        (opening reference extent.start :: edits) :=
      (SameOrder.swap_cons fun edit hedit =>
        interchangeable_opening (h.change_or_wrap hedit)).symm.trans (hsame.cons _)
    have hall := hfront.append (SameOrder.refl [closing extent.stop])
    rw [List.append_assoc, List.append_assoc] at hall
    exact hall
  · refine ⟨Nat.le_refl _, horder.append ⟨Nat.le_refl _, trivial⟩ hlt.le ?_⟩
    exact hwithin

/-- The edits of an expression that becomes the argument of a call, the beginning of which takes the
place of some text. -/
theorem call {edit : Edit} (h : Settled calls reference ⟨edit.span.stop, extent.stop⟩ changes wraps)
    (hinline : edit.placement = .inline) (hlt : edit.span.start < edit.span.stop)
    (hnonempty : edit.span.stop < extent.stop)
    (hcall : calls edit (closing extent.stop)) :
    Settled calls reference ⟨edit.span.start, extent.stop⟩
      (edit :: closing extent.stop :: changes) wraps := by
  obtain ⟨edits, hsame, horder, hnested⟩ := h.arranged
  have hwithin (other : Edit) (hother : other ∈ edits) : other.span.stop ≤ extent.stop :=
    (h.isWithin (hsame.perm.mem_iff.mpr hother)).2.2.2
  have hwhole : Settled calls reference ⟨edit.span.start, extent.stop⟩ changes wraps :=
    h.widen hlt.le (Nat.le_refl _)
  refine ⟨fun other hother => ?_, hwhole.wraps_within, edit :: (edits ++ [closing extent.stop]), ?_,
    ?_, hnested.enclose hcall⟩
  · rcases List.mem_cons.mp hother with rfl | hother
    · exact .inr ⟨hinline, Nat.le_refl _, hlt, hnonempty.le⟩
    · rcases List.mem_cons.mp hother with rfl | hother
      · exact .inl ⟨extent.stop, hlt.trans hnonempty, Nat.le_refl _, rfl⟩
      · exact hwhole.changes_within other hother
  · have hback : SameOrder (closing extent.stop :: (changes ++ wraps))
        (changes ++ wraps ++ [closing extent.stop]) := by
      refine SameOrder.swap_cons fun other hother => ?_
      exact (interchangeable_closing (h.change_or_wrap hother) :)
    exact (hback.trans (hsame.append (SameOrder.refl _))).cons edit
  · refine ⟨Nat.le_refl _, horder.append ⟨Nat.le_refl _, trivial⟩
      hnonempty.le ?_⟩
    exact hwithin

end Settled

end ModuleLinkage.Lowering
