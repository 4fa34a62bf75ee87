import Mathlib.Data.List.FinRange
import ModuleLinkage.Proofs.Text.Lines

/-!
# What calls render

A text is edited by calls, and what is rendered depends on them as follows. The calls are put in
order (`ComesBefore`) and taken one after another; a call is left out exactly if it starts before
the end of one that has been taken (`notMem_taken_iff`). The ranges of the calls that are taken do
not overlap (`pairwise_apart_taken`), and the rendered text is the source with these ranges
replaced. At one offset the prepended texts come first, then what has an empty range, then the range
that starts there (`exists_placedAt`). Calls of different ranges or placements may be made in any
order (`render_eq_of_reordered`).
-/

set_option autoImplicit false

namespace ModuleLinkage.Text

open Edit (lineBreaks)

/-! ### Calls -/

/-- A call that records an edit. -/
inductive EditCall where
  | overwrite (span : Span) (text : List Char)
  | remove (span : Span)
  | insert (offset : Nat) (text : List Char)
  | prepend (offset : Nat) (text : List Char)
  deriving Repr, DecidableEq, Inhabited

namespace EditCall

/-- The edits after a call. -/
def perform (edits : EditList) : EditCall → EditList
  | overwrite span text => edits.overwrite span text
  | remove span => edits.remove span
  | insert offset text => edits.insert offset text
  | prepend offset text => edits.prepend offset text

/-- The edits that calls record over a source. -/
def performAll (source : List Char) (calls : List EditCall) : EditList :=
  calls.foldl perform (.ofSource source)

/-- The range that a call is about. -/
def span : EditCall → Span
  | overwrite span _ | remove span => span
  | insert offset _ | prepend offset _ => .at offset

/-- Where a call puts its text among the texts at one offset. -/
def placement : EditCall → Placement
  | prepend .. => .hoisted
  | _ => .inline

/-- Whether a call takes its range away. -/
def isRemove : EditCall → Bool
  | remove _ => true
  | _ => false

/-- What a call puts in place of its range. -/
def text (source : List Char) : EditCall → List Char
  | overwrite _ text | insert _ text | prepend _ text => text
  | remove span => lineBreaks (slice source span)

/-- The edit that a call records. -/
def edit (source : List Char) (call : EditCall) : Edit :=
  ⟨call.span, call.text source, call.placement⟩

/-- The offsets of a call are valid: they fall between characters of the source, and the first does
not lie behind the second. -/
structure Valid (source : List Char) (call : EditCall) : Prop where
  /-- The range begins between two characters. -/
  start : isBoundary source call.span.start = true
  /-- The range ends between two characters. -/
  stop : isBoundary source call.span.stop = true
  /-- The range ends where it begins or later. -/
  forward : call.span.start ≤ call.span.stop

variable {source : List Char} {calls : List EditCall}

theorem perform_eq (edits : EditList) (call : EditCall) :
    call.perform edits = edits.record (call.edit edits.source) := by
  cases call <;> rfl

/-- Calls record one edit each, in the order of the calls. -/
theorem performAll_eq (source : List Char) (calls : List EditCall) :
    performAll source calls = (EditList.ofSource source).recordAll (calls.map (edit source)) := by
  suffices h : ∀ edits : EditList, edits.source = source →
      calls.foldl perform edits = edits.recordAll (calls.map (edit source)) from h _ rfl
  induction calls with
  | nil => exact fun _ _ => rfl
  | cons call rest ih =>
    intro edits hsource
    have hrecorded : (edits.record (call.edit source)).source = source := hsource
    rw [List.foldl_cons, perform_eq, hsource, ih _ hrecorded]
    rfl

theorem Valid.fits {call : EditCall} (h : call.Valid source) : (call.edit source).Fits source :=
  Edit.fits_of_isBoundary h.start h.stop h.forward

/-- The call numbered `i` is rendered before the one numbered `j`, if both are: by the start of the
range, then by its end, then what is prepended first, then in the order of the calls. -/
def ComesBefore (calls : List EditCall) (i j : Fin calls.length) : Prop :=
  calls[i].span.start < calls[j].span.start ∨ (calls[i].span.start = calls[j].span.start ∧
    (calls[i].span.stop < calls[j].span.stop ∨ (calls[i].span.stop = calls[j].span.stop ∧
      (calls[i].placement.rank < calls[j].placement.rank ∨
        (calls[i].placement.rank = calls[j].placement.rank ∧ i.val < j.val)))))

/-! ### The calls in order -/

theorem ComesBefore.asymm {i j : Fin calls.length} (h : ComesBefore calls i j) : ¬ ComesBefore calls j i := by
  unfold ComesBefore at *
  omega

theorem ComesBefore.start_le {i j : Fin calls.length} (h : ComesBefore calls i j) :
    calls[i].span.start ≤ calls[j].span.start := by
  unfold ComesBefore at h
  omega

theorem ComesBefore.precedes {i j : Fin calls.length} (h : ComesBefore calls i j) :
    (calls[i].edit source).precedes (calls[j].edit source) = true := by
  rw [Edit.precedes_iff]
  unfold ComesBefore at h
  simp only [edit]
  omega

theorem comesBefore_of_precedes {i j : Fin calls.length}
    (hle : (calls[i].edit source).precedes (calls[j].edit source) = true) (hlt : i < j) :
    ComesBefore calls i j := by
  rw [Edit.precedes_iff] at hle
  rw [Fin.lt_def] at hlt
  unfold ComesBefore
  simp only [edit] at hle
  omega

theorem comesBefore_of_not_precedes {i j : Fin calls.length}
    (hnot : ¬ (calls[i].edit source).precedes (calls[j].edit source) = true) : ComesBefore calls j i := by
  rw [Edit.precedes_iff] at hnot
  unfold ComesBefore
  simp only [edit] at hnot
  omega

/-- The numbers of the calls in the order of rendering. -/
def inRenderingOrder (source : List Char) (calls : List EditCall) : List (Fin calls.length) :=
  (List.finRange calls.length).insertionSort fun i j =>
    (calls[i].edit source).precedes (calls[j].edit source) = true

/-- A call with a smaller number than others finds its place among them. -/
theorem pairwise_orderedInsert {i : Fin calls.length} {others : List (Fin calls.length)}
    (hothers : others.Pairwise (ComesBefore calls)) (hlater : ∀ j ∈ others, i < j) :
    (others.orderedInsert (fun i j => (calls[i].edit source).precedes (calls[j].edit source) = true) i).Pairwise
      (ComesBefore calls) := by
  induction others with
  | nil => simp
  | cons j rest ih =>
    obtain ⟨hj, hrest⟩ := List.pairwise_cons.mp hothers
    rw [List.orderedInsert]
    split
    · next hle =>
      refine List.pairwise_cons.mpr ⟨fun k hk => ?_, hothers⟩
      have hprecedes : (calls[i].edit source).precedes (calls[k].edit source) = true := by
        rcases List.mem_cons.mp hk with rfl | hk
        · exact hle
        · exact Edit.precedes_trans _ _ _ hle (hj k hk).precedes
      exact comesBefore_of_precedes hprecedes (hlater k hk)
    · next hnot =>
      refine List.pairwise_cons.mpr ⟨fun k hk => ?_, ih hrest fun k hk => hlater k (by simp [hk])⟩
      rcases List.mem_cons.mp ((List.perm_orderedInsert _ _ _).mem_iff.mp hk) with rfl | hk
      · exact comesBefore_of_not_precedes hnot
      · exact hj k hk

/-- Sorting keeps the order of calls with one range and kind. -/
theorem pairwise_inRenderingOrder (source : List Char) (calls : List EditCall) :
    (inRenderingOrder source calls).Pairwise (ComesBefore calls) := by
  have hsorted (numbers : List (Fin calls.length)) (hincreasing : numbers.Pairwise (· < ·)) :
      (numbers.insertionSort fun i j =>
        (calls[i].edit source).precedes (calls[j].edit source) = true).Pairwise (ComesBefore calls) := by
    induction numbers with
    | nil => exact List.Pairwise.nil
    | cons i rest ih =>
      obtain ⟨hi, hrest⟩ := List.pairwise_cons.mp hincreasing
      exact pairwise_orderedInsert (ih hrest) fun j hj => hi j ((List.mem_insertionSort _).mp hj)
  exact hsorted _ (List.pairwise_lt_finRange calls.length)

theorem mem_inRenderingOrder (i : Fin calls.length) : i ∈ inRenderingOrder source calls :=
  (List.mem_insertionSort _).mpr (List.mem_finRange i)

/-! ### The calls that are taken -/

/-- The calls of an ordered list that do not start before `cursor`, the end of the range taken last. -/
def takenFrom (calls : List EditCall) : Nat → List (Fin calls.length) → List (Fin calls.length)
  | _, [] => []
  | cursor, i :: rest =>
    if calls[i].span.start < cursor then takenFrom calls cursor rest
    else i :: takenFrom calls calls[i].span.stop rest

/-- The numbers of the calls that take part in the rendered text, in the order of rendering. -/
def taken (source : List Char) (calls : List EditCall) : List (Fin calls.length) :=
  takenFrom calls 0 (inRenderingOrder source calls)

theorem map_edit_takenFrom (source : List Char) (cursor : Nat) (numbers : List (Fin calls.length)) :
    (takenFrom calls cursor numbers).map (fun i => calls[i].edit source) =
      EditList.keep cursor (numbers.map fun i => calls[i].edit source) := by
  induction numbers generalizing cursor with
  | nil => rfl
  | cons i rest ih =>
    rw [List.map_cons, EditList.keep, takenFrom]
    split <;> split
    · exact ih cursor
    · next h h' => exact absurd h h'
    · next h h' => exact absurd h' h
    · rw [List.map_cons, ih]
      rfl

theorem sublist_takenFrom (cursor : Nat) (numbers : List (Fin calls.length)) :
    (takenFrom calls cursor numbers).Sublist numbers := by
  induction numbers generalizing cursor with
  | nil => exact List.Sublist.refl _
  | cons i rest ih =>
    rw [takenFrom]
    split
    · exact (ih cursor).cons _
    · exact (ih _).cons_cons _

/-- Rendering keeps the edits of the calls that are taken. -/
theorem map_edit_taken (source : List Char) (calls : List EditCall) :
    (taken source calls).map (fun i => calls[i].edit source) = (performAll source calls).kept := by
  have hnumbered :
      (List.finRange calls.length).map (fun i => calls[i].edit source) = calls.map (edit source) :=
    List.map_map.symm.trans (congrArg (List.map (edit source)) (List.map_get_finRange calls))
  have hsorted : (inRenderingOrder source calls).map (fun i => calls[i].edit source) =
      (calls.map (edit source)).insertionSort fun a b => a.precedes b = true := by
    rw [inRenderingOrder, ← hnumbered]
    exact List.map_insertionSort _ _ _ _ fun _ _ _ _ => Iff.rfl
  rw [taken, map_edit_takenFrom, hsorted, EditList.kept, EditList.ordered_eq_insertionSort, performAll_eq,
    EditList.recorded_recordAll]
  rfl

/-- Of calls in order, those are left out that start before the cursor or before the end of one that
is taken and comes before them. -/
theorem notMem_takenFrom_iff {cursor : Nat} {numbers : List (Fin calls.length)}
    (hordered : numbers.Pairwise (ComesBefore calls)) {i : Fin calls.length} (hi : i ∈ numbers) :
    i ∉ takenFrom calls cursor numbers ↔ calls[i].span.start < cursor ∨
      ∃ j ∈ takenFrom calls cursor numbers,
        ComesBefore calls j i ∧ calls[i].span.start < calls[j].span.stop := by
  induction numbers generalizing cursor with
  | nil => cases hi
  | cons first rest ih =>
    obtain ⟨hfirst, hrest⟩ := List.pairwise_cons.mp hordered
    rw [takenFrom]
    split
    · next hbehind =>
      rcases List.mem_cons.mp hi with rfl | hi
      · have hnot : i ∉ takenFrom calls cursor rest := fun hmem =>
          (hfirst i ((sublist_takenFrom cursor rest).subset hmem)).asymm
            (hfirst i ((sublist_takenFrom cursor rest).subset hmem))
        exact iff_of_true hnot (.inl hbehind)
      · exact ih hrest hi
    · next hahead =>
      rcases List.mem_cons.mp hi with rfl | hi
      · refine iff_of_false (by simp) ?_
        rintro (hbehind | ⟨j, hj, hbefore, -⟩)
        · exact hahead hbehind
        · rcases List.mem_cons.mp hj with rfl | hj
          · exact hbefore.asymm hbefore
          · exact hbefore.asymm (hfirst j ((sublist_takenFrom _ rest).subset hj))
      · have hbefore := hfirst i hi
        have hne : i ≠ first := by
          rintro rfl
          exact hbefore.asymm hbefore
        have hstart := hbefore.start_le
        rw [List.mem_cons, not_or, and_iff_right hne, ih hrest hi]
        constructor
        · rintro (hinside | ⟨j, hj, hrest⟩)
          · exact .inr ⟨first, List.mem_cons_self, hbefore, hinside⟩
          · exact .inr ⟨j, List.mem_cons_of_mem _ hj, hrest⟩
        · rintro (hbehind | ⟨j, hj, hjbefore, hinside⟩)
          · omega
          · rcases List.mem_cons.mp hj with rfl | hj
            · exact .inl hinside
            · exact .inr ⟨j, hj, hjbefore, hinside⟩

/-- A call is left out exactly if it starts before the end of one that is taken and comes before it. -/
theorem notMem_taken_iff {i : Fin calls.length} : i ∉ taken source calls ↔
    ∃ j ∈ taken source calls, ComesBefore calls j i ∧ calls[i].span.start < calls[j].span.stop := by
  rw [taken, notMem_takenFrom_iff (pairwise_inRenderingOrder source calls) (mem_inRenderingOrder i)]
  exact or_iff_right (Nat.not_lt_zero _)

theorem pairwise_taken (source : List Char) (calls : List EditCall) :
    (taken source calls).Pairwise (ComesBefore calls) :=
  (pairwise_inRenderingOrder source calls).sublist (sublist_takenFrom 0 _)

/-- The ranges that are taken do not overlap: each ends where the next begins or earlier. -/
theorem pairwise_apart_taken (source : List Char) (calls : List EditCall) :
    (taken source calls).Pairwise fun i j => calls[i].span.stop ≤ calls[j].span.start := by
  refine List.Pairwise.imp_of_mem ?_ (pairwise_taken source calls)
  intro i j hi hj hbefore
  by_contra hinside
  exact notMem_taken_iff.mpr ⟨i, hi, hbefore, Nat.lt_of_not_le hinside⟩ hj

/-- Nothing is left out if no range starts strictly inside another and no two that are not empty
start together. -/
theorem mem_taken_of_apart
    (hinside : ∀ i j : Fin calls.length,
      ¬ (calls[j].span.start < calls[i].span.start ∧ calls[i].span.start < calls[j].span.stop))
    (hstart : ∀ i j : Fin calls.length, i ≠ j → calls[i].span.start = calls[j].span.start →
      calls[i].span.start < calls[i].span.stop → ¬ calls[j].span.start < calls[j].span.stop)
    (i : Fin calls.length) : i ∈ taken source calls := by
  by_contra hdropped
  obtain ⟨j, -, hbefore, hstop⟩ := notMem_taken_iff.mp hdropped
  have hne : j ≠ i := by
    rintro rfl
    exact hbefore.asymm hbefore
  have hstart' := hbefore.start_le
  rcases Nat.lt_or_eq_of_le hstart' with hlt | heq
  · exact hinside i j ⟨hlt, hstop⟩
  · have hlonger : calls[i].span.start < calls[i].span.stop := by
      unfold ComesBefore at hbefore
      omega
    exact hstart j i hne heq (heq ▸ hstop) hlonger

/-! ### Calls at one offset -/

/-- Kinds of calls, in the order in which they are rendered at one offset: what is prepended, what
stands at the offset, and what reaches over a range. -/
def kind (call : EditCall) : Fin 3 :=
  if call.placement = .hoisted then 0 else if call.span.start = call.span.stop then 1 else 2

/-- What is prepended has an empty range. -/
theorem start_eq_stop_of_hoisted {call : EditCall} (h : call.placement = .hoisted) :
    call.span.start = call.span.stop := by
  cases call <;> first | rfl | cases h

theorem kind_eq_zero_iff {call : EditCall} : call.kind = 0 ↔ call.placement = .hoisted := by
  unfold kind
  split_ifs with hhoisted hempty <;> simp [hhoisted]

theorem kind_eq_one_iff {call : EditCall} :
    call.kind = 1 ↔ call.placement = .inline ∧ call.span.start = call.span.stop := by
  unfold kind
  cases hplacement : call.placement <;> simp

theorem kind_eq_two_iff {call : EditCall} : call.kind = 2 ↔ call.span.start ≠ call.span.stop := by
  unfold kind
  split_ifs with hhoisted hempty
  · simp [start_eq_stop_of_hoisted hhoisted]
  · simp [hempty]
  · simp [hempty]

/-- Calls that start together are rendered by their kinds. -/
theorem ComesBefore.kind_le {i j : Fin calls.length} (h : ComesBefore calls i j)
    (hstart : calls[i].span.start = calls[j].span.start)
    (hforward : calls[i].span.start ≤ calls[i].span.stop) : calls[i].kind ≤ calls[j].kind := by
  unfold ComesBefore at h
  by_cases hrange : calls[j].span.start = calls[j].span.stop
  · have hempty : calls[i].span.start = calls[i].span.stop := by omega
    have hrank : calls[i].placement.rank ≤ calls[j].placement.rank := by omega
    unfold kind
    cases hi : calls[i].placement <;> cases hj : calls[j].placement <;> simp_all [Placement.rank]
  · rw [kind_eq_two_iff.mpr hrange]
    exact Fin.le_last _

/-- Calls with an empty range that start together and are of one kind are rendered in the order of
the calls. -/
theorem ComesBefore.lt_of_kind {i j : Fin calls.length} (h : ComesBefore calls i j)
    (hstart : calls[i].span.start = calls[j].span.start) (hkind : calls[i].kind = calls[j].kind)
    (hempty : calls[i].kind ≠ 2) : i < j := by
  have hi : calls[i].span.start = calls[i].span.stop :=
    not_not.mp fun hwide => hempty (kind_eq_two_iff.mpr hwide)
  have hj : calls[j].span.start = calls[j].span.stop :=
    not_not.mp fun hwide => hempty (hkind.trans (kind_eq_two_iff.mpr hwide))
  have hrank : calls[i].placement.rank = calls[j].placement.rank := by
    have hhoisted : calls[i].placement = .hoisted ↔ calls[j].placement = .hoisted := by
      rw [← kind_eq_zero_iff, hkind, kind_eq_zero_iff]
    cases hleft : calls[i].placement <;> cases hright : calls[j].placement <;> simp_all
  rw [Fin.lt_def]
  unfold ComesBefore at h
  omega

/-- A list in the order of three kinds is made of those of each kind. -/
theorem eq_append_filter_kind {α : Type} {kind : α → Fin 3} {items : List α}
    (hsorted : items.Pairwise fun a b => kind a ≤ kind b) :
    items = items.filter (kind · = 0) ++ (items.filter (kind · = 1) ++ items.filter (kind · = 2)) := by
  induction items with
  | nil => rfl
  | cons item rest ih =>
    obtain ⟨hitem, hrest⟩ := List.pairwise_cons.mp hsorted
    have hnone (k : Fin 3) (hk : k < kind item) : rest.filter (kind · = k) = [] := by
      refine List.filter_eq_nil_iff.mpr fun other hother => ?_
      have hle := hitem other hother
      simp only [decide_eq_true_eq]
      omega
    have hwhole := ih hrest
    match hkind : kind item with
    | 0 => simpa [hkind] using hwhole
    | 1 =>
      rw [hnone 0 (by rw [hkind]; decide), List.nil_append] at hwhole
      simpa [hkind, hnone 0 (by rw [hkind]; decide)] using hwhole
    | 2 =>
      rw [hnone 0 (by rw [hkind]; decide), hnone 1 (by rw [hkind]; decide), List.nil_append,
        List.nil_append] at hwhole
      simpa [hkind, hnone 0 (by rw [hkind]; decide), hnone 1 (by rw [hkind]; decide)] using hwhole

theorem length_le_one {α : Type} {items : List α} (h : items.Pairwise fun _ _ => False) :
    items.length ≤ 1 := by
  match items with
  | [] => exact Nat.zero_le 1
  | [_] => exact Nat.le_refl 1
  | _ :: _ :: _ => exact ((List.pairwise_cons.mp h).1 _ List.mem_cons_self).elim

/-- What is taken at one offset: prepended texts, then texts that stand there, each in the order of
the calls, then the range that starts there, if there is one. -/
structure PlacedAt (calls : List EditCall) (offset : Nat)
    (prepended inserted ranges : List (Fin calls.length)) : Prop where
  /-- The first texts are the prepended ones. -/
  hoisted : ∀ i ∈ prepended, calls[i].placement = .hoisted
  /-- Prepended texts keep the order of the calls. -/
  hoistedInOrder : prepended.Pairwise (· < ·)
  /-- The texts behind them have an empty range. -/
  empty : ∀ i ∈ inserted, calls[i].placement = .inline ∧ calls[i].span.stop = offset
  /-- They keep the order of the calls, too. -/
  emptyInOrder : inserted.Pairwise (· < ·)
  /-- What comes last reaches over a range. -/
  wide : ∀ i ∈ ranges, offset < calls[i].span.stop
  /-- No two such ranges are taken at one offset. -/
  single : ranges.length ≤ 1

theorem exists_placedAt (hforward : ∀ i : Fin calls.length, calls[i].span.start ≤ calls[i].span.stop)
    (offset : Nat) : ∃ prepended inserted ranges,
      (taken source calls).filter (fun i => calls[i].span.start = offset) =
          prepended ++ (inserted ++ ranges) ∧
      PlacedAt calls offset prepended inserted ranges := by
  set found := (taken source calls).filter fun i => calls[i].span.start = offset with hfound
  have hstart (i : Fin calls.length) (hi : i ∈ found) : calls[i].span.start = offset := by
    simpa using (List.mem_filter.mp hi).2
  have hsublist : found.Sublist (taken source calls) := List.filter_sublist
  have hordered : found.Pairwise (ComesBefore calls) := (pairwise_taken source calls).sublist hsublist
  have happart := (pairwise_apart_taken source calls).sublist hsublist
  have hkinds : found.Pairwise fun i j => calls[i].kind ≤ calls[j].kind :=
    hordered.imp_of_mem fun hi hj h => h.kind_le ((hstart _ hi).trans (hstart _ hj).symm) (hforward _)
  have hmem (k : Fin 3) (i : Fin calls.length) (hi : i ∈ found.filter fun i => calls[i].kind = k) :
      i ∈ found ∧ calls[i].kind = k := by
    simpa using hi
  have hlt (k : Fin 3) (hk : k ≠ 2) : (found.filter fun i => calls[i].kind = k).Pairwise (· < ·) := by
    refine (hordered.sublist List.filter_sublist).imp_of_mem fun {i j} hi hj h => ?_
    obtain ⟨hi, hki⟩ := hmem k i hi
    obtain ⟨hj, hkj⟩ := hmem k j hj
    exact h.lt_of_kind ((hstart i hi).trans (hstart j hj).symm) (hki.trans hkj.symm) (hki ▸ hk)
  have hwide (i : Fin calls.length) (hi : i ∈ found.filter fun i => calls[i].kind = 2) :
      offset < calls[i].span.stop := by
    obtain ⟨hi, hki⟩ := hmem 2 i hi
    have hne := kind_eq_two_iff.mp hki
    have hle := hforward i
    have hoffset := hstart i hi
    omega
  refine ⟨_, _, _, eq_append_filter_kind hkinds,
    fun i hi => kind_eq_zero_iff.mp (hmem 0 i hi).2, hlt 0 (by decide), fun i hi => ?_,
    hlt 1 (by decide), hwide, ?_⟩
  · obtain ⟨hi, hki⟩ := hmem 1 i hi
    obtain ⟨hinline, hempty⟩ := kind_eq_one_iff.mp hki
    exact ⟨hinline, hempty.symm.trans (hstart i hi)⟩
  · -- Of two ranges that start together the second would start inside the first.
    refine length_le_one ((happart.sublist List.filter_sublist).imp_of_mem fun {i j} hi hj hle => ?_)
    have hinside := hwide i hi
    have hoffset := hstart j (hmem 2 j hj).1
    omega

/-! ### Calls in another order -/

/-- The calls of one range and placement, in order. -/
def alike (calls : List EditCall) (span : Span) (placement : Placement) : List EditCall :=
  calls.filter fun call => call.span = span && call.placement = placement

/-- Calls in another order in which those of one range and placement keep theirs. -/
structure Reordered (first second : List EditCall) : Prop where
  /-- The calls are the same. -/
  perm : first.Perm second
  /-- Calls of one range and placement stand in the same order. -/
  alike : ∀ span placement, EditCall.alike first span placement = EditCall.alike second span placement

theorem alike_append (first second : List EditCall) (span : Span) (placement : Placement) :
    alike (first ++ second) span placement = alike first span placement ++ alike second span placement :=
  List.filter_append ..

/-- Calls of different ranges or placements record edits that may be recorded in either order. -/
theorem interchangeable_edit {first second : EditCall}
    (h : first.span ≠ second.span ∨ first.placement ≠ second.placement) :
    (first.edit source).Interchangeable (second.edit source) := by
  rcases h with hspan | hplacement
  · exact .of_span hspan
  · refine .of_rank fun hrank => hplacement ?_
    cases hfirst : first.placement <;> cases hsecond : second.placement <;> simp_all [edit, Placement.rank]

/-- Calls in another order record edits that are rendered in the same order. -/
theorem sameOrder_of_alike {first second : List EditCall}
    (h : ∀ span placement, alike first span placement = alike second span placement) :
    SameOrder (first.map (edit source)) (second.map (edit source)) := by
  induction first generalizing second with
  | nil =>
    cases second with
    | nil => exact SameOrder.refl _
    | cons call rest =>
      have hnone := h call.span call.placement
      simp [alike] at hnone
  | cons call rest ih =>
    obtain ⟨before, after, rfl, hbefore, -, hafter⟩ := List.filter_eq_cons_iff.mp
      ((h call.span call.placement).symm.trans (List.filter_cons_of_pos (by simp)))
    have hother (other : EditCall) (hmem : other ∈ before) :
        call.span ≠ other.span ∨ call.placement ≠ other.placement := by
      have hne := hbefore other hmem
      rw [Bool.and_eq_true, decide_eq_true_eq, decide_eq_true_eq] at hne
      exact (not_and_or.mp hne).imp Ne.symm Ne.symm
    have hrest : SameOrder (rest.map (edit source)) ((before ++ after).map (edit source)) := by
      refine ih fun span placement => ?_
      have hkey := h span placement
      rw [alike_append] at hkey ⊢
      by_cases hcall : call.span = span ∧ call.placement = placement
      · obtain ⟨rfl, rfl⟩ := hcall
        have hnone : alike before call.span call.placement = [] := List.filter_eq_nil_iff.mpr hbefore
        rw [hnone, List.nil_append]
        exact hafter.symm
      · have hskip (others : List EditCall) :
            alike (call :: others) span placement = alike others span placement :=
          List.filter_cons_of_neg (by simpa using hcall)
        rwa [hskip, hskip] at hkey
    have hswap : SameOrder (call.edit source :: before.map (edit source))
        (before.map (edit source) ++ [call.edit source]) := by
      refine SameOrder.swap_cons fun edit hedit => ?_
      obtain ⟨other, hmem, rfl⟩ := List.mem_map.mp hedit
      exact interchangeable_edit (hother other hmem)
    have hmoved := hswap.append (SameOrder.refl (after.map (edit source)))
    rw [List.map_append] at hrest
    rw [List.map_cons, List.map_append, List.map_cons]
    rw [List.cons_append, List.append_assoc, List.singleton_append] at hmoved
    exact (SameOrder.cons _ hrest).trans hmoved

theorem render_eq (source : List Char) (calls : List EditCall) :
    (performAll source calls).render =
      EditList.splice 0 source ((taken source calls).map fun i => calls[i].edit source) := by
  rw [map_edit_taken, EditList.render, performAll_eq, EditList.source_recordAll]
  rfl

/-- Calls in another order in which those of one range and placement keep theirs render the same
text. -/
theorem render_eq_of_reordered {first second : List EditCall} (h : Reordered first second) :
    (performAll source first).render = (performAll source second).render := by
  rw [performAll_eq, performAll_eq, EditList.render_recordAll_ofSource, EditList.render_recordAll_ofSource,
    ← foldr_insertEdit, ← foldr_insertEdit, sameOrder_of_alike h.alike []]

/-! ### Rendering is faithful -/

/-- What calls over a source render when those numbered `kept` take part. -/
structure RendersFaithfully (source : List Char) (calls : List EditCall)
    (kept : List (Fin calls.length)) : Prop where
  /-- The rendered text is the source with the ranges of the kept calls replaced by their texts;
  everything between the ranges is copied once and in order. -/
  replaced : EditList.Interleaves 0 (kept.map fun i => calls[i].edit source) source
    (performAll source calls).render
  /-- The kept calls are rendered in order. -/
  ordered : kept.Pairwise (ComesBefore calls)
  /-- Their ranges do not overlap. -/
  apart : kept.Pairwise fun i j => calls[i].span.stop ≤ calls[j].span.start
  /-- A call is dropped exactly if it starts before the end of a kept one that comes before it. -/
  dropped : ∀ i, i ∉ kept ↔
    ∃ j ∈ kept, ComesBefore calls j i ∧ calls[i].span.start < calls[j].span.stop
  /-- Nothing is dropped if no range starts strictly inside another and no two that are not empty
  start together. -/
  complete :
    (∀ i j : Fin calls.length,
      ¬ (calls[j].span.start < calls[i].span.start ∧ calls[i].span.start < calls[j].span.stop)) →
    (∀ i j : Fin calls.length, i ≠ j → calls[i].span.start = calls[j].span.start →
      calls[i].span.start < calls[i].span.stop → ¬ calls[j].span.start < calls[j].span.stop) →
    ∀ i, i ∈ kept
  /-- At one offset the prepended texts come first, then what has an empty range, then the range
  that starts there. -/
  placed : ∀ offset, ∃ prepended inserted ranges,
    kept.filter (fun i => calls[i].span.start = offset) = prepended ++ (inserted ++ ranges) ∧
      PlacedAt calls offset prepended inserted ranges
  /-- Any other order of the calls renders the same text if calls of one range and placement keep
  theirs. -/
  reordered : ∀ others, Reordered calls others →
    (performAll source others).render = (performAll source calls).render
  /-- If each kept call removes its range or has a line break neither in its text nor in its range,
  the rendered text has the line breaks of the source. -/
  lines : (∀ i ∈ kept, calls[i].isRemove = true ∨
      (lineBreaks (calls[i].text source) = [] ∧ lineBreaks (slice source calls[i].span) = [])) →
    lineBreaks (performAll source calls).render = lineBreaks source

theorem keepsLines_edit {call : EditCall} (h : call.isRemove = true ∨
    (lineBreaks (call.text source) = [] ∧ lineBreaks (slice source call.span) = [])) :
    (call.edit source).KeepsLines source := by
  rcases h with hremove | ⟨htext, hrange⟩
  · cases call <;> first | exact keepsLines_removal source _ | cases hremove
  · exact htext.trans hrange.symm

/-- **Rendering is faithful.** Whatever is called with valid offsets, the rendered text is the
source with the ranges of the kept calls replaced. -/
theorem exists_rendersFaithfully (hvalid : ∀ call ∈ calls, call.Valid source) :
    ∃ kept, RendersFaithfully source calls kept := by
  have hcall (i : Fin calls.length) : calls[i].Valid source := hvalid _ (List.getElem_mem _)
  set edits := (taken source calls).map fun i => calls[i].edit source with hedits
  have hfits (edit : Edit) (hmem : edit ∈ edits) : edit.Fits source := by
    obtain ⟨i, -, rfl⟩ := List.mem_map.mp hmem
    exact (hcall i).fits
  have horder : EditList.InOrder 0 edits := by
    rw [hedits, map_edit_taken]
    exact EditList.inOrder_keep 0 _
  refine ⟨taken source calls, ?_, pairwise_taken source calls, pairwise_apart_taken source calls,
    fun _ => notMem_taken_iff, mem_taken_of_apart, exists_placedAt fun i => (hcall i).forward,
    fun _ h => (render_eq_of_reordered h).symm, fun hkeeps => ?_⟩
  · rw [render_eq]
    exact EditList.interleaves_splice (List.nil_append source).symm hfits horder
  · rw [render_eq]
    refine EditList.lineBreaks_splice (List.nil_append source).symm hfits horder fun edit hmem => ?_
    obtain ⟨i, hi, rfl⟩ := List.mem_map.mp hmem
    exact keepsLines_edit (hkeeps i hi)

/-- Calls over two lines of text, one of which starts inside the range of another. -/
def overlappingCalls : List EditCall :=
  [insert 0 "b".toList, overwrite ⟨0, 3⟩ "c".toList, remove ⟨2, 5⟩, prepend 0 "a".toList]

/-- The removal that starts inside the overwritten range is dropped, and the prepended text comes
first. -/
theorem rendersFaithfully_overlappingCalls :
    (∀ call ∈ overlappingCalls, call.Valid "one\ntwo".toList) ∧
      (∃ kept, RendersFaithfully "one\ntwo".toList overlappingCalls kept) ∧
      (performAll "one\ntwo".toList overlappingCalls).render = "abc\ntwo".toList := by
  have hvalid : ∀ call ∈ overlappingCalls, call.Valid "one\ntwo".toList := by
    simp only [overlappingCalls, List.forall_mem_cons]
    refine ⟨?_, ?_, ?_, ?_, by simp⟩ <;> exact ⟨by decide, by decide, by decide⟩
  refine ⟨hvalid, exists_rendersFaithfully hvalid, ?_⟩
  rw [performAll_eq, EditList.render_recordAll_ofSource]
  decide

end EditCall

end ModuleLinkage.Text
