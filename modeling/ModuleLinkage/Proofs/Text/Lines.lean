import ModuleLinkage.Proofs.Text.Slices

/-!
# The lines of a rendered text

An edit `KeepsLines` if the text that it puts has the line breaks of the text that it replaces. A
text rendered from such edits has the line breaks of its source (`lineBreaks_splice`), and whatever
no edit touches stands in it behind the same line breaks as in the source (`exists_copied`), so on
the same line. Edits that put no line break but those of the text that they replace leave some of
the line breaks out and add none (`sublist_lineBreaks_splice`).
-/

set_option autoImplicit false

namespace ModuleLinkage.Text

open Edit

/-! ### The line breaks of a text -/

@[simp] theorem lineBreaks_nil : lineBreaks [] = [] := rfl

@[simp] theorem lineBreaks_append (first second : List Char) :
    lineBreaks (first ++ second) = lineBreaks first ++ lineBreaks second :=
  List.filter_append first second

@[simp] theorem lineBreaks_lineBreaks (text : List Char) :
    lineBreaks (lineBreaks text) = lineBreaks text := by
  simp [lineBreaks]

theorem lineBreaks_eq_nil_iff {text : List Char} :
    lineBreaks text = [] ↔ '\n' ∉ text ∧ '\r' ∉ text := by
  simp only [lineBreaks, List.filter_eq_nil_iff, Bool.or_eq_true, beq_iff_eq]
  constructor
  · intro h
    exact ⟨fun hmem => h _ hmem (.inl rfl), fun hmem => h _ hmem (.inr rfl)⟩
  · rintro ⟨hfeed, hreturn⟩ c hc (rfl | rfl)
    · exact hfeed hc
    · exact hreturn hc

/-! ### Edits that keep lines -/

/-- Whether an edit puts the line breaks of the text that it replaces. -/
def Edit.KeepsLines (source : List Char) (edit : Edit) : Prop :=
  lineBreaks edit.text = lineBreaks (slice source edit.span)

/-- Whether an edit puts no line breaks but those of the text that it replaces. -/
def Edit.AddsNoLine (source : List Char) (edit : Edit) : Prop :=
  (lineBreaks edit.text).Sublist (lineBreaks (slice source edit.span))

theorem Edit.KeepsLines.addsNoLine {source : List Char} {edit : Edit} (h : edit.KeepsLines source) :
    edit.AddsNoLine source := by
  rw [Edit.AddsNoLine, h]

theorem keepsLines_removal (source : List Char) (span : Span) :
    (Edit.removal source span).KeepsLines source :=
  lineBreaks_lineBreaks _

/-- What is inserted without a line break leaves the lines as they are. -/
theorem keepsLines_of_empty {source : List Char} {edit : Edit}
    (hempty : edit.span.stop = edit.span.start) (htext : lineBreaks edit.text = []) :
    edit.KeepsLines source := by
  rw [Edit.KeepsLines, htext, slice, hempty, Nat.sub_self]
  generalize dropBytes edit.span.start source = rest
  rw [show takeBytes 0 rest = [] from takeBytes_width [] rest]
  rfl

/-- An edit that fits into a source, cut where the edit begins and ends. -/
theorem Edit.Fits.exists_slice {source : List Char} {edit : Edit} (hfits : edit.Fits source) :
    ∃ before after, source = before ++ (slice source edit.span ++ after) ∧
      edit.span = ⟨width before, width before + width (slice source edit.span)⟩ := by
  obtain ⟨before, inside, after, hsource, hspan⟩ := hfits
  have hslice : slice source edit.span = inside := by
    rw [slice, hspan, hsource]
    dsimp only
    rw [dropBytes_width, Nat.add_sub_cancel_left, takeBytes_width]
  exact ⟨before, after, by rw [hslice, hsource], by rw [hslice, hspan]⟩

namespace EditList

variable {source : List Char} {edits : List Edit}

/-- What is left of a text, cut where the next edit begins and ends. -/
theorem exists_cut {before rest : List Char} {edit : Edit} (hsource : source = before ++ rest)
    (hfits : edit.Fits source) (horder : width before ≤ edit.span.start) :
    ∃ between behind, rest = between ++ (slice source edit.span ++ behind) ∧
      source = before ++ between ++ slice source edit.span ++ behind ∧
      edit.span = ⟨width (before ++ between), width (before ++ between ++ slice source edit.span)⟩ ∧
      takeBytes (edit.span.start - width before) rest = between ∧
      dropBytes (edit.span.stop - width before) rest = behind := by
  obtain ⟨ahead, behind, hsplit, hspan⟩ := hfits.exists_slice
  have hstart : edit.span.start = width ahead := congrArg Span.start hspan
  have hstop : edit.span.stop = width ahead + width (slice source edit.span) :=
    congrArg Span.stop hspan
  obtain ⟨between, rfl, hrest⟩ :=
    exists_append_of_width_le (hsource.symm.trans hsplit) (hstart ▸ horder)
  refine ⟨between, behind, hrest, by rwa [List.append_assoc (before ++ between)],
    by rw [width_append (before ++ between)]; exact hspan, ?_, ?_⟩
  · rw [hstart, width_append, Nat.add_sub_cancel_left, hrest, takeBytes_width]
  · rw [hstop, hrest, width_append, Nat.add_assoc, Nat.add_sub_cancel_left, dropBytes_add,
      dropBytes_width]

/-- A splice begins with what stands ahead of its first edit. -/
theorem exists_splice_cons {before rest : List Char} {edit : Edit} (hsource : source = before ++ rest)
    (hfits : edit.Fits source) (horder : width before ≤ edit.span.start) :
    ∃ between behind, rest = between ++ (slice source edit.span ++ behind) ∧
      source = before ++ between ++ slice source edit.span ++ behind ∧
      edit.span.stop = width (before ++ between ++ slice source edit.span) ∧
      splice (width before) rest (edit :: edits) =
        between ++ (edit.text ++ splice edit.span.stop behind edits) := by
  obtain ⟨between, behind, hrest, hsource', hspan, htake, hdrop⟩ := exists_cut hsource hfits horder
  refine ⟨between, behind, hrest, hsource', congrArg Span.stop hspan, ?_⟩
  rw [splice, htake, hdrop, List.append_assoc]

/-- **Lines.** A text rendered from edits that keep lines has the line breaks of its source. -/
theorem lineBreaks_splice {before rest : List Char} (hsource : source = before ++ rest)
    (hfits : ∀ edit ∈ edits, edit.Fits source) (horder : InOrder (width before) edits)
    (hkeeps : ∀ edit ∈ edits, edit.KeepsLines source) :
    lineBreaks (splice (width before) rest edits) = lineBreaks rest := by
  induction edits generalizing before rest with
  | nil => rfl
  | cons edit others ih =>
    obtain ⟨between, behind, hrest, hsource', hstop, hsplice⟩ :=
      @exists_splice_cons _ others _ _ _ hsource (hfits edit (by simp)) horder.1
    have hbehind : lineBreaks (splice edit.span.stop behind others) = lineBreaks behind := by
      rw [hstop]
      exact ih hsource' (fun other hother => hfits other (by simp [hother])) (hstop ▸ horder.2)
        fun other hother => hkeeps other (by simp [hother])
    have htext : lineBreaks edit.text = lineBreaks (slice source edit.span) := hkeeps edit (by simp)
    calc lineBreaks (splice (width before) rest (edit :: others))
        = lineBreaks between ++ (lineBreaks edit.text ++
            lineBreaks (splice edit.span.stop behind others)) := by
          rw [hsplice, lineBreaks_append, lineBreaks_append]
      _ = lineBreaks between ++ (lineBreaks (slice source edit.span) ++ lineBreaks behind) := by
          rw [htext, hbehind]
      _ = lineBreaks rest := by
          conv_rhs => rw [hrest, lineBreaks_append, lineBreaks_append]

/-- Edits that put no line break of their own leave some of the line breaks of the source, in order. -/
theorem sublist_lineBreaks_splice {before rest : List Char} (hsource : source = before ++ rest)
    (hfits : ∀ edit ∈ edits, edit.Fits source) (horder : InOrder (width before) edits)
    (hadds : ∀ edit ∈ edits, edit.AddsNoLine source) :
    (lineBreaks (splice (width before) rest edits)).Sublist (lineBreaks rest) := by
  induction edits generalizing before rest with
  | nil => exact List.Sublist.refl _
  | cons edit others ih =>
    obtain ⟨between, behind, hrest, hsource', hstop, hsplice⟩ :=
      @exists_splice_cons _ others _ _ _ hsource (hfits edit (by simp)) horder.1
    have hbehind : (lineBreaks (splice edit.span.stop behind others)).Sublist (lineBreaks behind) := by
      rw [hstop]
      exact ih hsource' (fun other hother => hfits other (by simp [hother])) (hstop ▸ horder.2)
        fun other hother => hadds other (by simp [hother])
    have hrest' : lineBreaks rest =
        lineBreaks between ++ (lineBreaks (slice source edit.span) ++ lineBreaks behind) := by
      conv_lhs => rw [hrest, lineBreaks_append, lineBreaks_append]
    rw [hsplice, hrest', lineBreaks_append, lineBreaks_append]
    exact (List.Sublist.refl _).append ((hadds edit (by simp)).append hbehind)

/-- What no edit touches is copied between what the edits before it make and what those behind it
make. -/
theorem exists_splice_around {ahead line behind : List Char}
    (hsource : source = ahead ++ (line ++ behind)) (hfits : ∀ edit ∈ edits, edit.Fits source)
    (horder : InOrder 0 edits) (haside : ∀ edit ∈ edits,
      edit.span.stop ≤ width ahead ∨ width (ahead ++ line) ≤ edit.span.start) :
    ∃ before after, edits = before ++ after ∧ InOrder (width (ahead ++ line)) after ∧
      splice 0 source edits =
        splice 0 ahead before ++ splice (width ahead) (line ++ behind) after ∧
      splice (width ahead) (line ++ behind) after =
        line ++ splice (width ahead + width line) behind after := by
  have hforward (edit : Edit) (hedit : edit ∈ edits) : edit.Forward := (hfits edit hedit).start_le_stop
  obtain ⟨before, after, rfl, hbefore, hafter⟩ := horder.exists_split hforward haside
  have hforward' (edit : Edit) (hedit : edit ∈ after) : edit.Forward :=
    hforward edit (List.mem_append_right _ hedit)
  have hbehind : InOrder (width (ahead ++ line)) after := horder.of_append_right hafter
  have hcut := @splice_append source [] ahead (line ++ behind) before after (line ++ behind) hsource
    (fun edit hedit => hfits edit (List.mem_append_left _ hedit)) horder.of_append_left
    (by simpa using hbefore)
  simp only [width_nil, Nat.zero_add, ← hsource] at hcut
  refine ⟨before, after, rfl, hbehind, hcut (hbehind.mono (by simp)) hforward', ?_⟩
  exact (takeBytes_append_splice hforward' (by rwa [← width_append])).symm

/-- What no edit touches is copied, and has the same line breaks before it as in the source. -/
theorem exists_copied {ahead line behind : List Char} (hsource : source = ahead ++ (line ++ behind))
    (hfits : ∀ edit ∈ edits, edit.Fits source) (horder : InOrder 0 edits)
    (hkeeps : ∀ edit ∈ edits, edit.KeepsLines source)
    (haside : ∀ edit ∈ edits,
      edit.span.stop ≤ width ahead ∨ width (ahead ++ line) ≤ edit.span.start) :
    ∃ front back, splice 0 source edits = front ++ (line ++ back) ∧
      lineBreaks front = lineBreaks ahead := by
  have hwhole : lineBreaks (splice 0 source edits) = lineBreaks source :=
    lineBreaks_splice (List.nil_append source).symm hfits horder hkeeps
  obtain ⟨before, after, rfl, hbehind, hcut, hline⟩ :=
    exists_splice_around hsource hfits horder haside
  refine ⟨splice 0 ahead before, splice (width ahead + width line) behind after, ?_, ?_⟩
  · rw [hcut, hline]
  · have hafter : lineBreaks (splice (width ahead) (line ++ behind) after) =
        lineBreaks (line ++ behind) :=
      lineBreaks_splice hsource (fun edit hedit => hfits edit (List.mem_append_right _ hedit))
        (hbehind.mono (by simp)) fun edit hedit => hkeeps edit (List.mem_append_right _ hedit)
    rw [hcut, hsource, lineBreaks_append, lineBreaks_append ahead, hafter] at hwhole
    exact List.append_cancel_right hwhole

end EditList

end ModuleLinkage.Text
