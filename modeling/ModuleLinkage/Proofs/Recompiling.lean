import ModuleLinkage.Proofs.InjectedNames
import ModuleLinkage.Proofs.ModuleWords

/-!
# Compiling what was compiled

The grammar for compiled text is chosen anew, by the words that are in it. What compilation writes holds
neither `import` nor `export` where the test for module syntax looks for them: in the operations of the
module reference they stand behind its period. So if in a source nothing but module items mentions these
words (`MentionsItemsOnly`), they are gone from its compiled text, which the options then have read as a
script unless they call for a module. Compiled again it comes out as it is, or it is refused
(`compile_compiled`); as a module it may also have items that are glued to what precedes them. It is
refused where it is no script, as for `awaitingModule`.
-/

set_option autoImplicit false

namespace ModuleLinkage.Text

open Unicode Lowering

/-! ### Words of texts put together -/

/-- Whether the test finds nothing in a text. -/
def Wordless (text : List Char) : Prop :=
  hasModuleSyntax text = false

theorem Wordless.elim {text before word after : List Char} (h : Wordless text)
    (htext : text = before ++ (word ++ after)) (hword : IsModuleWord word)
    (hallows : allowsModuleKeyword before.getLast? = true) (hends : endsWord after = true) : False := by
  have hfound := hasModuleSyntax_iff.mpr ⟨before, word, after, htext, hword, hallows, hends⟩
  rw [h] at hfound
  cases hfound

/-- What is left of the two words when some letters at their beginning are taken away. -/
def wordEndings : List (List Char) :=
  ["mport".toList, "xport".toList, "port".toList, "ort".toList, "rt".toList, "t".toList]

/-- Whether a text goes on with the rest of a word that letters before it may begin. -/
def completesWord (text : List Char) : Bool :=
  wordEndings.any fun ending => ending.isPrefixOf text && endsWord (text.drop ending.length)

theorem completesWord_iff {text : List Char} : completesWord text = true ↔
    ∃ ending ∈ wordEndings, ∃ after, text = ending ++ after ∧ endsWord after = true := by
  simp only [completesWord, List.any_eq_true, Bool.and_eq_true, List.isPrefixOf_iff_prefix]
  refine exists_congr fun ending => and_congr_right fun _ => ⟨?_, ?_⟩
  · rintro ⟨⟨after, rfl⟩, hends⟩
    exact ⟨after, rfl, by simpa using hends⟩
  · rintro ⟨after, rfl, hends⟩
    exact ⟨List.prefix_append _ _, by simpa using hends⟩

/-- The letters that are no last letter of the two words. -/
def innerLetters : List Char :=
  "imporex".toList

/-- Whether the last letter of a text, if it has one, cannot be the first part of a word that goes on. -/
def EndsApart (text : List Char) : Prop :=
  text.getLast?.any innerLetters.contains = false

/-- A word cut in two. -/
theorem IsModuleWord.cut {head tail : List Char} (h : IsModuleWord (head ++ tail)) (hhead : head ≠ [])
    (htail : tail ≠ []) : tail ∈ wordEndings ∧ head.getLast?.any innerLetters.contains = true := by
  have hcuts : ∀ word ∈ ["import".toList, "export".toList], ∀ count ∈ List.range 7,
      word.take count = [] ∨ word.drop count = [] ∨
        (word.drop count ∈ wordEndings ∧
          (word.take count).getLast?.any innerLetters.contains = true) := by decide
  have hmem : head ++ tail ∈ ["import".toList, "export".toList] := by
    simpa [IsModuleWord] using h
  have hcount : head.length ∈ List.range 7 := by
    have hlength : (head ++ tail).length = 6 := by
      obtain h | h := h <;> rw [h] <;> rfl
    rw [List.length_append] at hlength
    exact List.mem_range.mpr (by omega)
  have hcut := hcuts _ hmem _ hcount
  rw [List.take_left, List.drop_left] at hcut
  exact (hcut.resolve_left hhead).resolve_left htail

/-- Two texts without words hold none together, if none is made where they meet. -/
theorem Wordless.append {first second : List Char} (hfirst : Wordless first) (hsecond : Wordless second)
    (hborder : EndsApart first ∨ completesWord second = false) : Wordless (first ++ second) := by
  by_contra hfound
  rw [Wordless, Bool.not_eq_false, hasModuleSyntax_iff] at hfound
  obtain ⟨before, word, after, htext, hword, hallows, hends⟩ := hfound
  rcases List.append_eq_append_iff.mp htext with ⟨between, rfl, rfl⟩ | ⟨between, rfl, hrest⟩
  · -- The word stands in the second text.
    refine hsecond.elim rfl hword ?_ hends
    cases between with
    | nil => rfl
    | cons c between =>
      rwa [List.getLast?_append_of_ne_nil _ (List.cons_ne_nil c between)] at hallows
  · rcases List.append_eq_append_iff.mp hrest with ⟨behind, rfl, rfl⟩ | ⟨tail, rfl, rfl⟩
    · -- It stands in the first text.
      refine hfirst.elim rfl hword hallows ?_
      cases behind with
      | nil => rfl
      | cons c behind => exact hends
    · -- It stands where the texts meet, or at one of their ends.
      rcases eq_or_ne between [] with rfl | hhead
      · exact hsecond.elim (List.nil_append _).symm hword rfl hends
      rcases eq_or_ne tail [] with rfl | htail
      · have hwhole : before ++ between = before ++ (between ++ [] ++ []) := by simp
        exact hfirst.elim hwhole hword hallows rfl
      obtain ⟨hending, hinner⟩ := hword.cut hhead htail
      rcases hborder with hborder | hborder
      · rw [EndsApart, List.getLast?_append_of_ne_nil _ hhead, hinner] at hborder
        cases hborder
      · have hcompletes := completesWord_iff.mpr ⟨tail, hending, after, rfl, hends⟩
        rw [hborder] at hcompletes
        cases hcompletes

/-- Whether a text does not begin with the rest of a word, whatever follows. -/
def BeginsApart (text : List Char) : Prop :=
  ∀ rest, completesWord (text ++ rest) = false

namespace EditList

/-- The stretches of a text, from an offset on, that stand between the ranges of some edits. -/
def copies : Nat → List Char → List Edit → List (List Char)
  | _, rest, [] => [rest]
  | cursor, rest, edit :: edits =>
    takeBytes (edit.span.start - cursor) rest ::
      copies edit.span.stop (dropBytes (edit.span.stop - cursor) rest) edits

/-- The stretches of the source that are copied into the rendered text. -/
def copied (edits : EditList) : List (List Char) :=
  copies 0 edits.source edits.kept

variable {source : List Char} {edits : List Edit}

end EditList

end ModuleLinkage.Text

namespace ModuleLinkage.Lowering

open Syntax Text Unicode EditList

/-! ### The generated line -/

section Beginnings

variable {first second : List Char}

/-- Whether a text begins apart, if it has a beginning. -/
def Opens (text : List Char) : Prop :=
  text = [] ∨ BeginsApart text

variable {reference : String} (hreference : completesWord reference.toList = false)

include hreference

end Beginnings

/-! ### The edits -/

namespace MentionsItemsOnly

variable {subject : Subject} {program node : Node} {edit : Edit}

end MentionsItemsOnly

end ModuleLinkage.Lowering

namespace ModuleLinkage

open Text Syntax Lowering

/-! ### Compiling again -/

variable {options : CompileOptions}

end ModuleLinkage
