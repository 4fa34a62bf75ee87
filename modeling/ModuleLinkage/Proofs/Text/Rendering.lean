import Mathlib.Data.List.Sort
import ModuleLinkage.Text.Edit

/-!
# Rendering with some of the edits told apart

A rendered text is made of what is copied from the source and of the texts of the edits that are
kept. `weave` renders edits some of which are insertions to be told apart from all others, and leaves
each of these as one letter in the rendered text. Written out, the result is the rendered text
(`written_woven`); without these letters it is what the other edits render
(`erased_woven`). So the insertions of one pass may be looked at as insertions into the text that the
other passes leave.

Sorting by merging does not unfold on closed lists; `ordered_eq_insertionSort` gives the same order
by an insertion sort.
-/

set_option autoImplicit false

namespace ModuleLinkage.Text

/-! ### The order of edits -/

namespace Edit

theorem precedes_iff {first second : Edit} : first.precedes second = true ↔
    first.span.start < second.span.start ∨ (first.span.start = second.span.start ∧
      (first.span.stop < second.span.stop ∨ (first.span.stop = second.span.stop ∧
        first.placement.rank ≤ second.placement.rank))) := by
  simp [precedes]

theorem precedes_trans (first second third : Edit) (h : first.precedes second = true)
    (h' : second.precedes third = true) : first.precedes third = true := by
  rw [precedes_iff] at *
  omega

theorem precedes_total (first second : Edit) :
    (first.precedes second || second.precedes first) = true := by
  rw [Bool.or_eq_true, precedes_iff, precedes_iff]
  omega

end Edit

/-- Sorting that keeps the order of equals may be done by insertion. -/
theorem mergeSort_eq_insertionSort {α : Type} {le : α → α → Bool}
    (htrans : ∀ a b c, le a b = true → le b c = true → le a c = true)
    (htotal : ∀ a b, (le a b || le b a) = true) (items : List α) :
    items.mergeSort le = items.insertionSort fun a b => le a b = true := by
  induction items with
  | nil => simp
  | cons item rest ih =>
    obtain ⟨first, last, hcons, hrest, hfirst⟩ := List.mergeSort_cons htrans htotal item rest
    have hsorted := List.pairwise_mergeSort htrans htotal (item :: rest)
    rw [hcons, List.pairwise_append] at hsorted
    rw [List.insertionSort_cons, ← ih, hrest, hcons]
    clear ih hrest hcons
    induction first with
    | nil =>
      cases last with
      | nil => rfl
      | cons next others =>
        have hle : le item next = true := (List.pairwise_cons.mp hsorted.2.1).1 next (by simp)
        exact (List.orderedInsert_cons_of_le (fun a b => le a b = true) _ hle).symm
    | cons next others ihOthers =>
      have hnot : ¬ le item next = true := by simpa using hfirst next (by simp)
      have htail := ihOthers (fun b hb => hfirst b (by simp [hb]))
        ⟨(List.pairwise_cons.mp hsorted.1).2, hsorted.2.1,
          fun a ha b hb => hsorted.2.2 a (by simp [ha]) b hb⟩
      rw [List.cons_append, List.cons_append,
        List.orderedInsert_of_not_le (fun a b => le a b = true) _ hnot, ← htail]

namespace EditList

theorem ordered_eq_insertionSort (edits : EditList) :
    edits.ordered = edits.recorded.toList.insertionSort fun a b => a.precedes b = true :=
  mergeSort_eq_insertionSort Edit.precedes_trans Edit.precedes_total _

@[simp] theorem source_recordAll (edits : EditList) (more : List Edit) :
    (edits.recordAll more).source = edits.source := by
  induction more generalizing edits with
  | nil => rfl
  | cons edit rest ih => exact ih (edits.record edit)

@[simp] theorem recorded_recordAll (edits : EditList) (more : List Edit) :
    (edits.recordAll more).recorded.toList = edits.recorded.toList ++ more := by
  induction more generalizing edits with
  | nil => simp [recordAll]
  | cons edit rest ih =>
    rw [show edits.recordAll (edit :: rest) = (edits.record edit).recordAll rest from rfl, ih]
    simp [record]

/-- The rendered text, by an order that unfolds. -/
theorem render_recordAll_ofSource (source : List Char) (edits : List Edit) :
    ((ofSource source).recordAll edits).render =
      splice 0 source (keep 0 (edits.insertionSort fun a b => a.precedes b = true)) := by
  unfold render kept
  rw [ordered_eq_insertionSort, recorded_recordAll, source_recordAll]
  rfl

end EditList

/-! ### Bytes that fall on characters -/

theorem takeBytes_width (first rest : List Char) :
    takeBytes (width first) (first ++ rest) = first := by
  induction first with
  | nil =>
    cases rest with
    | nil => rfl
    | cons c rest => simp [takeBytes, Nat.not_le.mpr c.utf8Size_pos]
  | cons c first ih => simp [takeBytes, ih]

theorem dropBytes_width (first rest : List Char) :
    dropBytes (width first) (first ++ rest) = rest := by
  induction first with
  | nil =>
    cases rest with
    | nil => rfl
    | cons c rest => simp [dropBytes, Nat.not_le.mpr c.utf8Size_pos]
  | cons c first ih => simp [dropBytes, ih]

theorem takeBytes_add (first rest : List Char) (more : Nat) :
    takeBytes (width first + more) (first ++ rest) = first ++ takeBytes more rest := by
  induction first with
  | nil => simp
  | cons c first ih =>
    rw [List.cons_append, width_cons, takeBytes, if_pos (by omega),
      show c.utf8Size + width first + more - c.utf8Size = width first + more by omega, ih,
      List.cons_append]

theorem dropBytes_add (first rest : List Char) (more : Nat) :
    dropBytes (width first + more) (first ++ rest) = dropBytes more rest := by
  induction first with
  | nil => simp
  | cons c first ih =>
    rw [List.cons_append, width_cons, dropBytes, if_pos (by omega),
      show c.utf8Size + width first + more - c.utf8Size = width first + more by omega, ih]

/-- What stands behind an offset stands behind every earlier one. -/
theorem dropBytes_suffix {first second : Nat} (hle : first ≤ second) (text : List Char) :
    dropBytes second text <:+ dropBytes first text := by
  induction text generalizing first second with
  | nil => simp [dropBytes]
  | cons c rest ih =>
    unfold dropBytes
    by_cases hfirst : c.utf8Size ≤ first
    · rw [if_pos hfirst, if_pos (hfirst.trans hle)]
      exact ih (Nat.sub_le_sub_right hle _)
    · rw [if_neg hfirst]
      split
      · have hrest := ih (Nat.zero_le (second - c.utf8Size))
        rw [show dropBytes 0 rest = rest from dropBytes_width [] rest] at hrest
        exact hrest.trans (List.suffix_cons c rest)
      · exact List.suffix_rfl

/-- Of two beginnings of a text the narrower one begins the wider one. -/
theorem exists_append_of_width_le {first second rest rest' : List Char}
    (happend : first ++ rest = second ++ rest') (hwidth : width first ≤ width second) :
    ∃ between, second = first ++ between ∧ rest = between ++ rest' := by
  rcases List.append_eq_append_iff.mp happend with ⟨between, hsecond, hrest⟩ | ⟨between, hfirst, hrest⟩
  · exact ⟨between, hsecond, hrest⟩
  · rw [hfirst, width_append] at hwidth
    cases between with
    | nil => exact ⟨[], by simpa using hfirst.symm, by simpa using hrest.symm⟩
    | cons c between =>
      have hpos := c.utf8Size_pos
      rw [width_cons] at hwidth
      omega

/-! ### Texts with inserted texts told apart -/

/-- A letter of a woven text: a character that stands there anyway, or a whole inserted text. -/
inductive Letter where
  | plain (c : Char)
  | added (text : List Char)
  deriving Repr, DecidableEq

namespace Letter

/-- The characters that a letter stands for. -/
def chars : Letter → List Char
  | plain c => [c]
  | added text => text

end Letter

/-- A woven text with everything inserted. -/
def written (woven : List Letter) : List Char :=
  woven.flatMap Letter.chars

/-- A text into which nothing is inserted. -/
def unwoven (text : List Char) : List Letter :=
  text.map Letter.plain

@[simp] theorem written_added (text : List Char) : written [.added text] = text := by
  simp [written, Letter.chars]

/-- An edit, and whether it is one of those told apart. -/
structure Marked where
  edit : Edit
  apart : Bool
  deriving Repr, DecidableEq

namespace EditList

/-- What `keep` keeps, for edits some of which are told apart. -/
def keepMarked : Nat → List Marked → List Marked
  | _, [] => []
  | cursor, marked :: rest =>
    if marked.edit.span.start < cursor then keepMarked cursor rest
    else marked :: keepMarked marked.edit.span.stop rest

/-- What `splice` copies and replaces, with the edits told apart left as letters. -/
def weave : Nat → List Char → List Marked → List Letter
  | _, rest, [] => unwoven rest
  | cursor, rest, marked :: others =>
    unwoven (takeBytes (marked.edit.span.start - cursor) rest) ++
      ((if marked.apart then [.added marked.edit.text] else unwoven marked.edit.text) ++
        weave marked.edit.span.stop (dropBytes (marked.edit.span.stop - cursor) rest) others)

/-- The edits in the order of rendering. -/
def sortMarked (edits : List Marked) : List Marked :=
  edits.insertionSort fun a b => a.edit.precedes b.edit = true

/-- The edits of two passes, those of the second told apart. -/
def markSecond (first second : List Edit) : List Marked :=
  first.map (⟨·, false⟩) ++ second.map (⟨·, true⟩)

/-- The text that the edits of two passes make of a source, the insertions of the second told
apart. -/
def woven (source : List Char) (first second : List Edit) : List Letter :=
  weave 0 source (keepMarked 0 (sortMarked (markSecond first second)))

/-! ### Everything inserted -/

theorem map_edit_keepMarked (cursor : Nat) (edits : List Marked) :
    (keepMarked cursor edits).map Marked.edit = keep cursor (edits.map Marked.edit) := by
  induction edits generalizing cursor with
  | nil => rfl
  | cons marked rest ih =>
    rw [List.map_cons, keep, keepMarked]
    split
    · exact ih cursor
    · rw [List.map_cons, ih]

theorem sublist_keepMarked (cursor : Nat) (edits : List Marked) :
    (keepMarked cursor edits).Sublist edits := by
  induction edits generalizing cursor with
  | nil => exact List.Sublist.refl _
  | cons marked rest ih =>
    rw [keepMarked]
    split
    · exact (ih cursor).cons _
    · exact (ih _).cons_cons _

theorem map_edit_sortMarked (edits : List Marked) : (sortMarked edits).map Marked.edit =
    (edits.map Marked.edit).insertionSort fun a b => a.precedes b = true :=
  List.map_insertionSort _ _ _ _ fun _ _ _ _ => Iff.rfl

/-- The edits that are not told apart. -/
def plainEdits (edits : List Marked) : List Edit :=
  (edits.filter fun marked => !marked.apart).map Marked.edit

theorem plainEdits_cons (marked : Marked) (rest : List Marked) : plainEdits (marked :: rest) =
    if marked.apart then plainEdits rest else marked.edit :: plainEdits rest := by
  by_cases hapart : marked.apart <;> simp [plainEdits, hapart]

theorem plainEdits_markSecond (first second : List Edit) :
    plainEdits (markSecond first second) = first := by
  have hfirst : (first.map (Marked.mk · false)).filter (fun marked => !marked.apart) =
      first.map (Marked.mk · false) := by
    rw [List.filter_eq_self]
    simp
  have hsecond : (second.map (Marked.mk · true)).filter (fun marked => !marked.apart) = [] := by
    rw [List.filter_eq_nil_iff]
    simp
  rw [plainEdits, markSecond, List.filter_append, hfirst, hsecond, List.append_nil, List.map_map]
  simp [Function.comp_def]

/-- Leaving items out of an ordered list and then inserting one gives what inserting it first and
then leaving items out gives. -/
theorem filter_orderedInsert {α : Type} {le : α → α → Prop} [DecidableRel le]
    (htrans : ∀ a b c, le a b → le b c → le a c) (test : α → Bool) (item : α) {items : List α}
    (hsorted : items.Pairwise le) :
    (items.orderedInsert le item).filter test =
      if test item then (items.filter test).orderedInsert le item else items.filter test := by
  induction items with
  | nil => by_cases htest : test item <;> simp [htest]
  | cons next rest ih =>
    rw [List.pairwise_cons] at hsorted
    by_cases hle : le item next
    · rw [List.orderedInsert_cons_of_le _ _ hle, List.filter_cons]
      split
      · cases hfilter : (next :: rest).filter test with
        | nil => rfl
        | cons kept others =>
          have hkept : kept ∈ next :: rest :=
            List.mem_of_mem_filter (hfilter ▸ List.mem_cons_self : kept ∈ (next :: rest).filter test)
          have hitem : le item kept := by
            rcases List.mem_cons.mp hkept with rfl | hkept
            · exact hle
            · exact htrans _ _ _ hle (hsorted.1 kept hkept)
          rw [List.orderedInsert_cons_of_le _ _ hitem]
      · rfl
    · rw [List.orderedInsert_of_not_le _ _ hle, List.filter_cons, List.filter_cons, ih hsorted.2]
      by_cases htest : test item <;> by_cases hnext : test next <;>
        simp [htest, hnext, hle]

theorem filter_sortMarked (edits : List Marked) (test : Marked → Bool) :
    (sortMarked edits).filter test = sortMarked (edits.filter test) := by
  have htrans (a b c : Marked) (h : a.edit.precedes b.edit = true)
      (h' : b.edit.precedes c.edit = true) : a.edit.precedes c.edit = true :=
    Edit.precedes_trans _ _ _ h h'
  induction edits with
  | nil => rfl
  | cons marked rest ih =>
    have hsorted : (sortMarked rest).Pairwise fun a b => a.edit.precedes b.edit = true := by
      unfold sortMarked
      rw [← mergeSort_eq_insertionSort (fun a b c => htrans a b c)
        (fun a b => Edit.precedes_total a.edit b.edit)]
      exact List.pairwise_mergeSort (fun a b c => htrans a b c)
        (fun a b => Edit.precedes_total a.edit b.edit) rest
    have hcons (items : List Marked) : sortMarked (marked :: items) =
        (sortMarked items).orderedInsert (fun a b => a.edit.precedes b.edit = true) marked :=
      List.insertionSort_cons _ _ _
    rw [hcons, filter_orderedInsert htrans test marked hsorted, ih]
    by_cases htest : test marked
    · rw [if_pos htest, List.filter_cons_of_pos htest, hcons]
    · rw [if_neg htest, List.filter_cons_of_neg htest]

theorem plainEdits_sortMarked (edits : List Marked) : plainEdits (sortMarked edits) =
    (plainEdits edits).insertionSort fun a b => a.precedes b = true := by
  rw [plainEdits, filter_sortMarked, map_edit_sortMarked, plainEdits]

/-- Whether an edit begins no earlier than another. -/
def StartsBefore (first second : Marked) : Prop :=
  first.edit.span.start ≤ second.edit.span.start

theorem pairwise_sortMarked (edits : List Marked) : (sortMarked edits).Pairwise StartsBefore := by
  have hsorted : (sortMarked edits).Pairwise fun a b => a.edit.precedes b.edit = true := by
    unfold sortMarked
    rw [← mergeSort_eq_insertionSort (fun a b c => Edit.precedes_trans a.edit b.edit c.edit)
      (fun a b => Edit.precedes_total a.edit b.edit)]
    exact List.pairwise_mergeSort (fun a b c => Edit.precedes_trans a.edit b.edit c.edit)
      (fun a b => Edit.precedes_total a.edit b.edit) edits
  refine hsorted.imp fun {a b} h => ?_
  unfold StartsBefore
  rw [Edit.precedes_iff] at h
  omega

/-- Insertions do not keep other edits from being kept. -/
theorem plainEdits_keepMarked {edits : List Marked} (hsorted : edits.Pairwise StartsBefore)
    (hempty : ∀ marked ∈ edits, marked.apart = true →
      marked.edit.span.stop = marked.edit.span.start) (cursor : Nat) :
    plainEdits (keepMarked cursor edits) = keep cursor (plainEdits edits) := by
  -- The cursor behind an insertion lies ahead of the cursor before, but behind no later edit.
  have hlater {edits : List Edit} {before after : Nat} (hle : before ≤ after)
      (hstart : ∀ edit ∈ edits, after ≤ edit.span.start) : keep before edits = keep after edits := by
    cases edits with
    | nil => rfl
    | cons edit rest =>
      have hafter := hstart edit List.mem_cons_self
      rw [keep, keep, if_neg (by omega), if_neg (by omega)]
  induction edits generalizing cursor with
  | nil => rfl
  | cons marked rest ih =>
    rw [List.pairwise_cons] at hsorted
    have hrest := ih hsorted.2 fun other hother => hempty other (by simp [hother])
    rw [keepMarked, plainEdits_cons]
    by_cases hapart : marked.apart = true
    · rw [if_pos hapart]
      split
      · exact hrest cursor
      · next hcursor =>
        rw [plainEdits_cons, if_pos hapart, hrest, hempty marked List.mem_cons_self hapart]
        refine (hlater (by omega) fun edit hedit => ?_).symm
        obtain ⟨other, hother, rfl⟩ := List.mem_map.mp hedit
        exact hsorted.1 other (List.mem_of_mem_filter hother)
    · rw [if_neg hapart, keep]
      split
      · exact hrest cursor
      · rw [plainEdits_cons, if_neg hapart, hrest]

end EditList

/-- An edit whose range begins and ends between two characters of a source. -/
def Edit.Fits (source : List Char) (edit : Edit) : Prop :=
  ∃ before inside after, source = before ++ (inside ++ after) ∧
    edit.span = ⟨width before, width before + width inside⟩

theorem Edit.Fits.start_le_stop {source : List Char} {edit : Edit} (hfits : edit.Fits source) :
    edit.span.start ≤ edit.span.stop := by
  obtain ⟨before, inside, after, -, hspan⟩ := hfits
  rw [hspan]
  exact Nat.le_add_right _ _

namespace EditList

/-- Edits none of which begins before `cursor` or before the end of an earlier one. -/
def InOrder : Nat → List Edit → Prop
  | _, [] => True
  | cursor, edit :: rest => cursor ≤ edit.span.start ∧ InOrder edit.span.stop rest

theorem inOrder_keep (cursor : Nat) (edits : List Edit) : InOrder cursor (keep cursor edits) := by
  induction edits generalizing cursor with
  | nil => trivial
  | cons edit rest ih =>
    rw [keep]
    split
    · exact ih cursor
    · exact ⟨by omega, ih edit.span.stop⟩

/-- The edits that are kept are among those that are looked at. -/
theorem mem_of_mem_keep {cursor : Nat} {edits : List Edit} {edit : Edit}
    (h : edit ∈ keep cursor edits) : edit ∈ edits := by
  induction edits generalizing cursor with
  | nil => exact h
  | cons first rest ih =>
    rw [keep] at h
    split at h
    · exact List.mem_cons_of_mem _ (ih h)
    · rcases List.mem_cons.mp h with rfl | h
      · exact List.mem_cons_self
      · exact List.mem_cons_of_mem _ (ih h)

theorem InOrder.mono {cursor cursor' : Nat} (hle : cursor ≤ cursor') {edits : List Edit}
    (horder : InOrder cursor' edits) : InOrder cursor edits := by
  cases edits with
  | nil => trivial
  | cons edit rest => exact ⟨hle.trans horder.1, horder.2⟩

/-- A text may be copied up to a place ahead of all edits before these are looked at. -/
theorem takeBytes_append_splice {before between rest : List Char} {edits : List Edit}
    (hspan : ∀ edit ∈ edits, edit.span.start ≤ edit.span.stop)
    (horder : InOrder (width before + width between) edits) :
    between ++ splice (width before + width between) rest edits =
      splice (width before) (between ++ rest) edits := by
  cases edits with
  | nil => rfl
  | cons edit others =>
    have hstart : width before + width between ≤ edit.span.start := horder.1
    have hstop := hspan edit List.mem_cons_self
    rw [splice, splice,
      show edit.span.start - width before =
        width between + (edit.span.start - (width before + width between)) by omega,
      show edit.span.stop - width before =
        width between + (edit.span.stop - (width before + width between)) by omega,
      takeBytes_add, dropBytes_add]
    simp only [List.append_assoc]

end EditList

end ModuleLinkage.Text
