import ModuleLinkage.Proofs.Text.Slices

/-!
# Where texts that are put in are rendered

A text that is hoisted to an offset, recorded last among edits none of which is hoisted, comes ahead
of every other edit that begins there or behind it (`exists_ordered_hoisting`). It is rendered
unless an edit that begins before the offset reaches over it (`mem_kept_hoisting`).

If the edits that are kept lie before a stretch, in it, or behind it, then what those in it make of the
stretch is rendered between what the others make of the rest (`RendersAs`). So a stretch that no edit
reaches into is copied (`rendersAs_nil`), and a text that is the only one to be inserted into a stretch
is rendered there, whatever stands around it (`rendersAs_insertion`).
-/

set_option autoImplicit false

namespace ModuleLinkage.Text

/-! ### Hoisted texts -/

namespace EditList

variable {source text : List Char} {offset : Nat} {others : List Edit}

/-- Whether an edit is put in line and does not end before it begins. -/
structure IsInline (edit : Edit) : Prop where
  placement : edit.placement = .inline
  forward : edit.span.start ≤ edit.span.stop

/-- What precedes a hoisted text begins before the offset. -/
theorem start_lt_of_precedes_hoisting {edit : Edit} (hedit : IsInline edit)
    (hprecedes : edit.precedes (.hoisting offset text) = true) : edit.span.start < offset := by
  have hforward := hedit.forward
  rw [Edit.precedes_iff] at hprecedes
  simp only [hedit.placement, Edit.hoisting, Span.at, Placement.rank] at hprecedes
  omega

theorem le_start_of_hoisting_precedes {edit : Edit}
    (hprecedes : (Edit.hoisting offset text).precedes edit = true) : offset ≤ edit.span.start := by
  rw [Edit.precedes_iff] at hprecedes
  simp only [Edit.hoisting, Span.at] at hprecedes
  omega

/-- **Ahead.** A hoisted text comes ahead of all edits that begin at its offset. -/
theorem exists_ordered_hoisting (hothers : ∀ edit ∈ others, IsInline edit) : ∃ before behind,
    ((ofSource source).recordAll (others ++ [.hoisting offset text])).ordered =
        before ++ .hoisting offset text :: behind ∧
      (∀ edit ∈ before, edit ∈ others ∧ edit.span.start < offset) ∧
        ∀ edit ∈ behind, offset ≤ edit.span.start := by
  set recorded := others ++ [Edit.hoisting offset text]
  have hordered : ((ofSource source).recordAll recorded).ordered =
      recorded.mergeSort Edit.precedes := by
    simp [ordered, ofSource]
  have hperm := List.mergeSort_perm recorded Edit.precedes
  have hsorted := List.pairwise_mergeSort Edit.precedes_trans Edit.precedes_total recorded
  obtain ⟨before, behind, hsplit⟩ := List.append_of_mem (hperm.mem_iff.mpr
    (List.mem_append_right others (List.mem_singleton_self (Edit.hoisting offset text))))
  rw [hsplit] at hperm hsorted
  -- All other edits stand on one side of the hoisted text or on the other.
  have hrest : (before ++ behind).Perm others :=
    List.Perm.cons_inv ((List.perm_middle.symm.trans hperm).trans (List.perm_append_singleton _ _))
  obtain ⟨-, hbehind, hbefore⟩ := List.pairwise_append.mp hsorted
  refine ⟨before, behind, hordered.trans hsplit, fun edit hedit => ?_, fun edit hedit => ?_⟩
  · have hmem : edit ∈ others := hrest.mem_iff.mp (List.mem_append_left _ hedit)
    exact ⟨hmem, start_lt_of_precedes_hoisting (hothers edit hmem)
      (hbefore edit hedit _ List.mem_cons_self)⟩
  · exact le_start_of_hoisting_precedes (List.rel_of_pairwise_cons hbehind hedit)

/-- What ends by an offset leaves edits behind it their place. -/
theorem exists_keep_append {cursor : Nat} (before rest : List Edit) (hcursor : cursor ≤ offset)
    (hbefore : ∀ edit ∈ before, edit.span.stop ≤ offset) : ∃ cursor' ≤ offset,
      keep cursor (before ++ rest) = keep cursor before ++ keep cursor' rest := by
  induction before generalizing cursor with
  | nil => exact ⟨cursor, hcursor, rfl⟩
  | cons edit before ih =>
    obtain ⟨hedit, hothers⟩ := List.forall_mem_cons.mp hbefore
    rw [List.cons_append, keep, keep]
    split
    · exact ih hcursor hothers
    · obtain ⟨cursor', hle, hkeep⟩ := ih hedit hothers
      exact ⟨cursor', hle, congrArg (edit :: ·) hkeep⟩

/-- A hoisted text is rendered where no edit reaches over its offset. -/
theorem mem_kept_hoisting (hothers : ∀ edit ∈ others, IsInline edit)
    (hclear : ∀ edit ∈ others, edit.span.start < offset → edit.span.stop ≤ offset) :
    .hoisting offset text ∈ ((ofSource source).recordAll (others ++ [.hoisting offset text])).kept := by
  obtain ⟨before, behind, hordered, hbefore, -⟩ :=
    @exists_ordered_hoisting source text offset others hothers
  obtain ⟨cursor, hle, hkeep⟩ := exists_keep_append before (.hoisting offset text :: behind)
    (Nat.zero_le offset) fun edit hedit => hclear edit (hbefore edit hedit).1 (hbefore edit hedit).2
  have hstands : ¬ (Edit.hoisting offset text).span.start < cursor := Nat.not_lt.mpr hle
  rw [kept, hordered, hkeep, keep, if_neg hstands]
  exact List.mem_append_right _ List.mem_cons_self

end EditList

/-! ### Stretches of a text -/

/-- Whether an edit reaches into a stretch of a text. -/
def Edit.reaches (span : Span) (edit : Edit) : Bool :=
  decide (span.start < edit.span.stop) && decide (edit.span.start < span.stop)

theorem Edit.reaches_eq_false_iff {span : Span} {edit : Edit} : edit.reaches span = false ↔
    edit.span.stop ≤ span.start ∨ span.stop ≤ edit.span.start := by
  simp only [reaches, Bool.and_eq_false_iff, decide_eq_false_iff_not, Nat.not_lt]

namespace EditList

variable {source text : List Char} {edits inner : List Edit} {span : Span}

/-- Whether the edits that are kept are some before a stretch, then `inner`, and then some behind the
stretch, and a text is rendered accordingly. -/
def RendersAs (source : List Char) (edits : List Edit) (span : Span) (inner : List Edit) : Prop :=
  ∃ before after,
    ((ofSource source).recordAll edits).kept = before ++ (inner ++ after) ∧
    (∀ edit ∈ before, edit.span.stop ≤ span.start) ∧ (∀ edit ∈ after, span.stop ≤ edit.span.start) ∧
    ((ofSource source).recordAll edits).render =
      splice 0 (takeBytes span.start source) before ++
        (splice span.start (slice source span) inner ++
          splice span.stop (dropBytes span.stop source) after)

theorem mem_of_mem_kept {edit : Edit} (h : edit ∈ ((ofSource source).recordAll edits).kept) :
    edit ∈ edits := by
  have hordered : edit ∈ ((ofSource source).recordAll edits).ordered := mem_of_mem_keep h
  simpa [ordered, ofSource] using hordered

/-- What the edits of a stretch make of it is rendered between what the others make of the rest. -/
theorem rendersAs_of_kept (hstart : isBoundary source span.start = true)
    (hstop : isBoundary source span.stop = true) (hle : span.start ≤ span.stop)
    (hfits : ∀ edit ∈ edits, edit.Fits source) {before after : List Edit}
    (hkept : ((ofSource source).recordAll edits).kept = before ++ (inner ++ after))
    (hbefore : ∀ edit ∈ before, edit.span.stop ≤ span.start)
    (hinner : ∀ edit ∈ inner, span.start ≤ edit.span.start ∧ edit.span.stop ≤ span.stop)
    (hafter : ∀ edit ∈ after, span.stop ≤ edit.span.start) : RendersAs source edits span inner := by
  refine ⟨before, after, hkept, hbefore, hafter, ?_⟩
  have horder : InOrder 0 (before ++ (inner ++ after)) := hkept ▸ inOrder_keep 0 _
  have hkeptFits (edit : Edit) (hedit : edit ∈ before ++ (inner ++ after)) : edit.Fits source :=
    hfits edit (mem_of_mem_kept (hkept ▸ hedit))
  have hforward (edit : Edit) (hedit : edit ∈ before ++ (inner ++ after)) : edit.Forward :=
    (hkeptFits edit hedit).start_le_stop
  have hbehind : InOrder span.start (inner ++ after) := by
    refine horder.of_append_right fun edit hedit => ?_
    rcases List.mem_append.mp hedit with hedit | hedit
    · exact (hinner edit hedit).1
    · exact hle.trans (hafter edit hedit)
  have hleft : ∀ edit ∈ before, edit.Fits source := fun edit hedit =>
    hkeptFits edit (List.mem_append_left _ hedit)
  have hright (edit : Edit) (hedit : edit ∈ inner ++ after) : edit.Fits source :=
    hkeptFits edit (List.mem_append_right _ hedit)
  obtain ⟨-, hslice, -⟩ := exists_slice hstart hstop hle
  have hahead := width_takeBytes_of_isBoundary hstart
  have hsource : source = [] ++ (takeBytes span.start source ++
      (slice source span ++ dropBytes span.stop source)) := by
    rw [List.nil_append, hslice, takeBytes_append_dropBytes]
  have hcut := splice_append (slice source span ++ dropBytes span.stop source) hsource hleft
    (by simpa using horder.of_append_left) (by simpa [hahead] using hbefore)
    (by simpa [hahead] using hbehind) fun edit hedit => (hright edit hedit).start_le_stop
  have hcut' := splice_slice (dropBytes span.stop source) hstart hstop hle
    (fun edit hedit => hright edit (List.mem_append_left _ hedit)) hbehind.of_append_left
    (fun edit hedit => (hinner edit hedit).2) (hbehind.of_append_right hafter)
    fun edit hedit => (hright edit (List.mem_append_right _ hedit)).start_le_stop
  rw [width_nil, Nat.zero_add, hahead, hslice, takeBytes_append_dropBytes] at hcut
  rw [render, hkept, source_recordAll]
  change splice 0 source _ = _
  rw [hcut, ← hslice, hcut']

/-- **Copying.** A stretch that no edit reaches into is copied. -/
theorem rendersAs_nil (hstart : isBoundary source span.start = true)
    (hstop : isBoundary source span.stop = true) (hle : span.start ≤ span.stop)
    (hfits : ∀ edit ∈ edits, edit.Fits source)
    (hbeside : ∀ edit ∈ edits, edit.span.stop ≤ span.start ∨ span.stop ≤ edit.span.start) :
    RendersAs source edits span [] := by
  obtain ⟨before, after, hkept, hbefore, hafter⟩ :=
    (inOrder_keep 0 ((ofSource source).recordAll edits).ordered).exists_split
      (fun edit hedit => (hfits edit (mem_of_mem_kept hedit)).start_le_stop)
      (fun edit hedit => hbeside edit (mem_of_mem_kept hedit))
  exact rendersAs_of_kept hstart hstop hle hfits hkept hbefore nofun hafter

variable {offset : Nat}

/-- Where a text is the only one that is inserted into a stretch, all other edits stand before it or
behind it in the order of rendering, as they stand before the stretch or behind it. -/
theorem exists_ordered_insertion (hfits : ∀ edit ∈ edits, edit.Fits source) (hlt : span.start < offset)
    (hlt' : offset < span.stop)
    (hsole : edits.filter (·.reaches span) = [.insertion offset text]) : ∃ before after,
      ((ofSource source).recordAll edits).ordered = before ++ .insertion offset text :: after ∧
        (∀ edit ∈ before, edit.span.stop ≤ span.start) ∧
          ∀ edit ∈ after, span.stop ≤ edit.span.start := by
  have hordered : ((ofSource source).recordAll edits).ordered = edits.mergeSort Edit.precedes := by
    simp [ordered, ofSource]
  have hperm := List.mergeSort_perm edits Edit.precedes
  have hsorted := List.pairwise_mergeSort Edit.precedes_trans Edit.precedes_total edits
  rw [hordered]
  -- What reaches into the stretch is the same in any order.
  have hfilter : (edits.mergeSort Edit.precedes).filter (·.reaches span) = [.insertion offset text] :=
    List.perm_singleton.mp (hsole ▸ hperm.filter _)
  obtain ⟨before, after, hsplit, hbefore, -, hafter⟩ := List.filter_eq_cons_iff.mp hfilter
  rw [hsplit] at hsorted
  obtain ⟨-, hbehind, hahead⟩ := List.pairwise_append.mp hsorted
  have hforward (edit : Edit) (hedit : edit ∈ before ++ .insertion offset text :: after) :
      edit.span.start ≤ edit.span.stop :=
    (hfits edit (hperm.mem_iff.mp (hsplit ▸ hedit))).start_le_stop
  have hstarts {first second : Edit} (h : first.precedes second = true) :
      first.span.start ≤ second.span.start := by
    rw [Edit.precedes_iff] at h
    omega
  refine ⟨before, after, hsplit, fun edit hedit => ?_, fun edit hedit => ?_⟩
  · have hle : edit.span.start ≤ offset := hstarts (hahead edit hedit _ List.mem_cons_self)
    have hbeside := Edit.reaches_eq_false_iff.mp (by simpa using hbefore edit hedit)
    omega
  · have hle : offset ≤ edit.span.start := hstarts (List.rel_of_pairwise_cons hbehind hedit)
    have hbeside := Edit.reaches_eq_false_iff.mp (by simpa using List.filter_eq_nil_iff.mp hafter edit hedit)
    have hedit := hforward edit (List.mem_append_right _ (List.mem_cons_of_mem _ hedit))
    omega

/-- **Inserting.** A text that is the only one to be inserted into a stretch is rendered there. -/
theorem rendersAs_insertion (hstart : isBoundary source span.start = true)
    (hstop : isBoundary source span.stop = true) (hfits : ∀ edit ∈ edits, edit.Fits source)
    (hlt : span.start < offset) (hlt' : offset < span.stop)
    (hsole : edits.filter (·.reaches span) = [.insertion offset text]) :
    RendersAs source edits span [.insertion offset text] := by
  obtain ⟨before, after, hordered, hbefore, hafter⟩ :=
    exists_ordered_insertion hfits hlt hlt' hsole
  obtain ⟨cursor, hle, hkeep⟩ := exists_keep_append before (.insertion offset text :: after)
    (Nat.zero_le span.start) hbefore
  have hstands : ¬ (Edit.insertion offset text).span.start < cursor :=
    Nat.not_lt.mpr (hle.trans hlt.le)
  have hkept : ((ofSource source).recordAll edits).kept =
      keep 0 before ++ ([.insertion offset text] ++ keep offset after) := by
    rw [kept, hordered, hkeep, keep, if_neg hstands]
    rfl
  refine rendersAs_of_kept hstart hstop (hlt.trans hlt').le hfits hkept
    (fun edit hedit => hbefore edit (mem_of_mem_keep hedit)) (fun edit hedit => ?_)
    fun edit hedit => hafter edit (mem_of_mem_keep hedit)
  obtain rfl := List.mem_singleton.mp hedit
  exact ⟨hlt.le, hlt'.le⟩

/-- What an inserted text makes of a stretch. -/
theorem splice_insertion (hstart : isBoundary source span.start = true)
    (hoffset : isBoundary source offset = true) (hstop : isBoundary source span.stop = true)
    (hle : span.start ≤ offset) (hle' : offset ≤ span.stop) :
    splice span.start (slice source span) [.insertion offset text] =
      slice source ⟨span.start, offset⟩ ++ (text ++ slice source ⟨offset, span.stop⟩) := by
  have hwidth := (exists_slice hstart hoffset hle).2.2
  have hslice : slice source span = slice source ⟨span.start, offset⟩ ++ slice source ⟨offset, span.stop⟩ :=
    (slice_append_slice hstart hoffset hstop hle hle').symm
  rw [splice, splice, hslice]
  simp only [Edit.insertion, Span.at]
  rw [← hwidth, takeBytes_width, dropBytes_width, List.append_assoc]

end EditList

end ModuleLinkage.Text
