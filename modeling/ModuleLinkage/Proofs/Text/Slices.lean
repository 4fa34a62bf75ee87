import ModuleLinkage.Proofs.Text.Rearranging

/-!
# Texts cut at boundaries

What stands between two boundaries of a text is a slice of it (`exists_slice`). Rendered edits of a text
that is cut in two are rendered edits of the two texts, if no edit reaches across the cut
(`splice_append`).
-/

set_option autoImplicit false

namespace ModuleLinkage.Text

/-! ### Slices between boundaries -/

section Slices

variable {source : List Char} {start middle stop : Nat}

/-- A boundary cuts a text in two. -/
theorem width_takeBytes_of_isBoundary (h : isBoundary source stop = true) :
    width (takeBytes stop source) = stop := by
  simpa [isBoundary] using h

/-- What stands between two boundaries. -/
theorem exists_slice (hstart : isBoundary source start = true) (hstop : isBoundary source stop = true)
    (hle : start ≤ stop) :
    takeBytes stop source = takeBytes start source ++ slice source ⟨start, stop⟩ ∧
      slice source ⟨start, stop⟩ ++ dropBytes stop source = dropBytes start source ∧
      width (slice source ⟨start, stop⟩) = stop - start := by
  have hwidth := width_takeBytes_of_isBoundary hstart
  have hwidth' := width_takeBytes_of_isBoundary hstop
  obtain ⟨between, htake, hdrop⟩ := exists_append_of_width_le
    ((takeBytes_append_dropBytes start source).trans (takeBytes_append_dropBytes stop source).symm)
    (by rw [hwidth, hwidth']; exact hle)
  have hbetween : width between = stop - start := by
    have hsum := congrArg width htake
    rw [width_append, hwidth, hwidth'] at hsum
    omega
  have hslice : slice source ⟨start, stop⟩ = between := by
    rw [slice, hdrop, ← hbetween, takeBytes_width]
  rw [hslice]
  exact ⟨htake, hdrop.symm, hbetween⟩

theorem slice_append_slice (hstart : isBoundary source start = true)
    (hmiddle : isBoundary source middle = true) (hstop : isBoundary source stop = true)
    (hle : start ≤ middle) (hle' : middle ≤ stop) :
    slice source ⟨start, middle⟩ ++ slice source ⟨middle, stop⟩ = slice source ⟨start, stop⟩ := by
  have hfirst := (exists_slice hstart hmiddle hle).1
  have hsecond := (exists_slice hmiddle hstop hle').1
  have hboth := (exists_slice hstart hstop (hle.trans hle')).1
  rw [hsecond, hfirst, List.append_assoc] at hboth
  exact List.append_cancel_left hboth

end Slices

namespace EditList

/-! ### Edits on the two sides of a cut -/

/-- Where no edit reaches across a cut, the two sides are rendered on their own. -/
theorem splice_append {source ahead first behind : List Char} {before after : List Edit}
    (second : List Char) (hsource : source = ahead ++ (first ++ behind))
    (hfits : ∀ edit ∈ before, edit.Fits source) (horder : InOrder (width ahead) before)
    (hstop : ∀ edit ∈ before, edit.span.stop ≤ width ahead + width first)
    (hafter : InOrder (width ahead + width first) after) (hforward : ∀ edit ∈ after, edit.Forward) :
    splice (width ahead) (first ++ second) (before ++ after) =
      splice (width ahead) first before ++ splice (width ahead + width first) second after := by
  induction before generalizing ahead first with
  | nil => exact (takeBytes_append_splice hforward hafter).symm
  | cons edit rest ih =>
    obtain ⟨lead, inside, tail, hsplit, hspan⟩ := hfits edit (by simp)
    have hedit := hstop edit (by simp)
    have hle : width ahead ≤ width lead := by
      have := horder.1
      rwa [hspan] at this
    obtain ⟨between, rfl, hfirst⟩ := exists_append_of_width_le (hsource.symm.trans hsplit) hle
    rw [hspan, width_append] at hedit
    dsimp only at hedit
    rw [← List.append_assoc] at hfirst
    obtain ⟨first', rfl, rfl⟩ := exists_append_of_width_le hfirst.symm
      (by rw [width_append]; omega)
    have hrest : splice (width (ahead ++ between ++ inside)) (first' ++ second) (rest ++ after) =
        splice (width (ahead ++ between ++ inside)) first' rest ++
          splice (width (ahead ++ between ++ inside) + width first') second after := by
      have hwidth : width (ahead ++ between ++ inside) + width first' =
          width ahead + width (between ++ inside ++ first') := by
        simp only [width_append]
        omega
      refine ih ?_ (fun other hother => hfits other (by simp [hother])) ?_ ?_ (hwidth ▸ hafter)
      · rw [hsplit]
        simp only [List.append_assoc]
      · have := horder.2
        rwa [hspan, ← width_append] at this
      · intro other hother
        rw [hwidth]
        exact hstop other (by simp [hother])
    rw [List.cons_append, splice, splice, hspan]
    dsimp only
    rw [show width (ahead ++ between) - width ahead = width between by rw [width_append]; omega,
      show width (ahead ++ between) + width inside - width ahead = width (between ++ inside) by
        simp only [width_append]; omega,
      ← width_append, List.append_assoc (between ++ inside), dropBytes_width, dropBytes_width,
      List.append_assoc between, List.append_assoc between, takeBytes_width, takeBytes_width, hrest]
    simp only [width_append, List.append_assoc, Nat.add_assoc]

/-- The same, for a cut at a boundary. -/
theorem splice_slice {source : List Char} {start middle : Nat} {before after : List Edit}
    (rest : List Char) (hstart : isBoundary source start = true)
    (hmiddle : isBoundary source middle = true) (hle : start ≤ middle)
    (hfits : ∀ edit ∈ before, edit.Fits source) (horder : InOrder start before)
    (hstop : ∀ edit ∈ before, edit.span.stop ≤ middle) (hafter : InOrder middle after)
    (hforward : ∀ edit ∈ after, edit.Forward) :
    splice start (slice source ⟨start, middle⟩ ++ rest) (before ++ after) =
      splice start (slice source ⟨start, middle⟩) before ++ splice middle rest after := by
  obtain ⟨-, hrest, hwidth⟩ := exists_slice hstart hmiddle hle
  have hahead := width_takeBytes_of_isBoundary hstart
  have hsource : source = takeBytes start source ++ (slice source ⟨start, middle⟩ ++
      dropBytes middle source) := by
    rw [hrest, takeBytes_append_dropBytes]
  have hcut := @splice_append source _ _ _ before after rest hsource hfits
  rw [hahead, hwidth, Nat.add_sub_cancel' hle] at hcut
  exact hcut horder hstop hafter hforward

end EditList

end ModuleLinkage.Text
