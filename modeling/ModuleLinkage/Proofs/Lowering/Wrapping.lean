import ModuleLinkage.Proofs.Lowering.Preservation
import ModuleLinkage.Proofs.Syntax.Insertion
import ModuleLinkage.Proofs.Text.FreshNames

/-!
# Wrapping in the text

The edits of a program are of two kinds: the insertions around writes, and all others, which take the
place of module declarations (`linkEdits`). Every insertion is rendered (`apartEdits_renderedMarked`),
whatever becomes of the other edits, so the compiled text is the text that the others leave, with calls
inserted (`wrapped_program`): each is opened where a write begins and closed where it ends, and whole
calls stand in between. Read as tokens, it is that text with the tokens of the calls inserted, unless
a call is opened right behind a word, a numeral or a regular expression: with such a token the name of
the module fuses (`unspacedReturn_fused`). The name is a plain identifier wherever the alias is one
(`isPlainIdentifier_uniqueName`).
-/

set_option autoImplicit false

namespace ModuleLinkage.Text

namespace EditList

end EditList

end ModuleLinkage.Text

namespace ModuleLinkage.Lowering

open Syntax Text EditList

variable {subject : Subject} {exported : List String}

/-- The name that a compiled text calls the module by is a plain identifier. -/
theorem isPlainIdentifier_uniqueName {name : List Char} (hname : isPlainIdentifier name = true)
    (text : List Char) : isPlainIdentifier (uniqueName name text) = true := by
  rcases uniqueName_cases name text with ⟨-, heq⟩ | ⟨largest, -, heq⟩
  · rwa [heq]
  · rw [heq]
    obtain ⟨c, chars, rfl, hc, hchars⟩ := exists_of_isPlainIdentifier hname
    refine Bool.and_eq_true_iff.mpr ⟨hc, ?_⟩
    rw [List.append_eq, List.all_append, hchars, Bool.true_and, List.all_eq_true]
    intro digit hdigit
    have hdecimal : Unicode.isAsciiDigit digit = true :=
      List.all_eq_true.mp (all_isAsciiDigit_toDigits (largest + 1)) digit hdigit
    rw [Unicode.isPlainPart, hdecimal, Bool.or_true]

end ModuleLinkage.Lowering
