import ModuleLinkage.Proofs.Text.Numerals
import Mathlib.Order.Bounds.Defs

/-!
# Names that a text does not use

The words of a text are what stands in it between characters that belong to none (`mem_words_iff`).
A made-up name is the given one if no word is that name with digits behind it, and otherwise it
carries the number after the largest of those words (`uniqueName_cases`). So it is no word of the
text that it is made up for (`uniqueName_notMem_words`) and does not stand there either
(`ne_uniqueName_of_stands`).
-/

set_option autoImplicit false

namespace ModuleLinkage.Text

open Unicode

/-! ### The words of a text -/

/-- The letters of a word are read together with those before them. -/
theorem wordsFrom_append {word : List Char} (hplain : word.all isPlainPart = true)
    (run rest : List Char) : wordsFrom run (word ++ rest) = wordsFrom (word.reverse ++ run) rest := by
  induction word generalizing run with
  | nil => rfl
  | cons c word ih =>
    rw [List.all_cons, Bool.and_eq_true] at hplain
    rw [List.cons_append, wordsFrom, if_pos hplain.1, ih hplain.2, List.reverse_cons, List.append_assoc]
    rfl

/-- What has been read is a word where no word goes on. -/
theorem mem_wordsFrom_of_ends {run rest : List Char} (hrun : run ≠ [])
    (hends : ∀ c ∈ rest.head?, isPlainPart c = false) : run.reverse ∈ wordsFrom run rest := by
  have hfull : run.isEmpty = false := by simpa using hrun
  cases rest with
  | nil => simp [wordsFrom, hfull]
  | cons c rest =>
    have hc : isPlainPart c = false := hends c rfl
    simp [wordsFrom, hc, hfull]

/-- The words behind a character that belongs to none are words of the whole text. -/
theorem mem_wordsFrom_append {word run before rest : List Char} (hword : word ∈ wordsFrom [] rest)
    (hbefore : ∀ c ∈ before.getLast?, isPlainPart c = false) (hrun : before = [] → run = []) :
    word ∈ wordsFrom run (before ++ rest) := by
  induction before generalizing run with
  | nil =>
    rw [hrun rfl]
    exact hword
  | cons c before ih =>
    have hlast (hfull : before ≠ []) : ∀ d ∈ before.getLast?, isPlainPart d = false := by
      intro d hd
      refine hbefore d ?_
      rw [List.getLast?_cons, Option.mem_def.mp hd]
      rfl
    rw [List.cons_append, wordsFrom]
    split
    · next hc =>
      have hfull : before ≠ [] := by
        rintro rfl
        rw [hbefore c rfl] at hc
        cases hc
      exact ih (hlast hfull) fun hnil => absurd hnil hfull
    · have hrest : word ∈ wordsFrom [] (before ++ rest) := by
        refine ih (fun d hd => ?_) fun _ => rfl
        cases before with
        | nil => cases hd
        | cons e before => exact hlast (by simp) d hd
      split
      · exact hrest
      · exact List.mem_cons_of_mem _ hrest

/-- What stands in a text between characters that belong to no word is a word of it. -/
theorem mem_words {before word after : List Char} (hfull : word ≠ [])
    (hplain : word.all isPlainPart = true) (hbefore : ∀ c ∈ before.getLast?, isPlainPart c = false)
    (hafter : ∀ c ∈ after.head?, isPlainPart c = false) : word ∈ words (before ++ (word ++ after)) := by
  refine mem_wordsFrom_append ?_ hbefore fun _ => rfl
  have hmem : word.reverse.reverse ∈ wordsFrom word.reverse after :=
    mem_wordsFrom_of_ends (by simpa using hfull) hafter
  rwa [wordsFrom_append hplain, List.append_nil, ← List.reverse_reverse word, List.reverse_reverse]

/-- `word` stands in `text` as a run of word characters that no other one touches. -/
def IsMaximalRun (word text : List Char) : Prop :=
  word ≠ [] ∧ word.all isPlainPart = true ∧ ∃ before after, text = before ++ (word ++ after) ∧
    (∀ c ∈ before.getLast?, isPlainPart c = false) ∧ ∀ c ∈ after.head?, isPlainPart c = false

/-- A run that touches no word character behind it is one in a longer text, too, if what comes
before it ends with a character that belongs to no word. -/
theorem IsMaximalRun.append {word text : List Char} (h : IsMaximalRun word text) {c : Char}
    (hc : isPlainPart c = false) (front : List Char) : IsMaximalRun word (front ++ c :: text) := by
  obtain ⟨hfull, hplain, before, after, rfl, hbefore, hafter⟩ := h
  refine ⟨hfull, hplain, front ++ c :: before, after, by simp, fun d hd => ?_, hafter⟩
  rw [List.getLast?_append_cons, List.getLast?_cons] at hd
  cases hlast : before.getLast? with
  | none =>
    rw [hlast] at hd
    exact Option.some.inj hd ▸ hc
  | some last =>
    rw [hlast] at hd
    exact Option.some.inj hd ▸ hbefore last hlast

/-- What has been read stands in front of a text that does not begin with a word character. -/
theorem isMaximalRun_reverse {run after : List Char} (hfull : run ≠ []) (hplain : run.all isPlainPart = true)
    (hafter : ∀ c ∈ after.head?, isPlainPart c = false) : IsMaximalRun run.reverse (run.reverse ++ after) :=
  ⟨by simpa using hfull, by rwa [List.all_reverse], [], after, rfl, by simp, hafter⟩

/-- A word that is read stands in the text as a maximal run, together with what had been read of it. -/
theorem isMaximalRun_of_mem_wordsFrom {word run text : List Char} (hrun : run.all isPlainPart = true)
    (hword : word ∈ wordsFrom run text) : IsMaximalRun word (run.reverse ++ text) := by
  induction text generalizing run with
  | nil =>
    rw [wordsFrom] at hword
    split at hword
    · cases hword
    · next hfull =>
      obtain rfl := List.mem_singleton.mp hword
      exact isMaximalRun_reverse (by simpa using hfull) hrun (by simp)
  | cons c rest ih =>
    rw [wordsFrom] at hword
    split at hword
    · next hc =>
      have hlonger : IsMaximalRun word ((c :: run).reverse ++ rest) := ih (by simp [hc, hrun]) hword
      rwa [List.reverse_cons, List.append_assoc] at hlonger
    · next hc =>
      have hplain : isPlainPart c = false := by simpa using hc
      split at hword
      · next hempty =>
        obtain rfl := List.isEmpty_iff.mp hempty
        exact (ih rfl hword).append hplain []
      · next hfull =>
        rcases List.mem_cons.mp hword with rfl | hlater
        · exact isMaximalRun_reverse (by simpa using hfull) hrun (by simpa using hplain)
        · exact (ih rfl hlater).append hplain run.reverse

/-- The words of a text are the maximal runs of word characters in it. -/
theorem mem_words_iff {word text : List Char} : word ∈ words text ↔ IsMaximalRun word text := by
  refine ⟨isMaximalRun_of_mem_wordsFrom rfl, ?_⟩
  rintro ⟨hfull, hplain, before, after, rfl, hbefore, hafter⟩
  exact mem_words hfull hplain hbefore hafter

/-! ### Numbers in use -/

/-- The numbers in use under `name`: those of the digits that stand behind it in a word. -/
def usedNumbers (name text : List Char) : Set Nat :=
  {number | ∃ digits : List Char, digits.all isAsciiDigit = true ∧ IsMaximalRun (name ++ digits) text ∧
    digitsValue digits = number}

theorem suffixAfter?_eq_some_iff {name word suffix : List Char} :
    suffixAfter? name word = some suffix ↔ word = name ++ suffix := by
  induction name generalizing word with
  | nil => simp [suffixAfter?]
  | cons c name ih =>
    cases word with
    | nil => simp [suffixAfter?]
    | cons w word =>
      rw [suffixAfter?, List.cons_append, List.cons.injEq]
      split
      · next heq => rw [ih, eq_of_beq heq, eq_self, true_and]
      · next hne =>
        have hother : w ≠ c := fun h => hne (beq_iff_eq.mpr h.symm)
        simp [hother]

/-- A word has a numeral under a name if it is that name with digits behind it. -/
theorem numeralUnder?_eq_some_iff {name word numeral : List Char} :
    numeralUnder? name word = some numeral ↔
      ∃ digits : List Char, digits.all isAsciiDigit = true ∧ word = name ++ digits ∧
        stripZeros digits = numeral := by
  unfold numeralUnder?
  constructor
  · intro hnumeral
    split at hnumeral
    · next suffix hsuffix =>
      split at hnumeral
      · next hdecimal =>
        exact ⟨suffix, hdecimal, suffixAfter?_eq_some_iff.mp hsuffix, Option.some.inj hnumeral⟩
      · cases hnumeral
    · cases hnumeral
  · rintro ⟨digits, hdecimal, hword, rfl⟩
    rw [suffixAfter?_eq_some_iff.mpr hword]
    exact if_pos hdecimal

/-- The numerals of the words of a text. -/
theorem mem_numerals_iff {name text numeral : List Char} :
    numeral ∈ (words text).filterMap (numeralUnder? name) ↔
      ∃ digits : List Char, digits.all isAsciiDigit = true ∧ IsMaximalRun (name ++ digits) text ∧
        stripZeros digits = numeral := by
  rw [List.mem_filterMap]
  constructor
  · rintro ⟨word, hword, hnumeral⟩
    obtain ⟨digits, hdecimal, rfl, hstrip⟩ := numeralUnder?_eq_some_iff.mp hnumeral
    exact ⟨digits, hdecimal, mem_words_iff.mp hword, hstrip⟩
  · rintro ⟨digits, hdecimal, hrun, hstrip⟩
    exact ⟨name ++ digits, mem_words_iff.mpr hrun,
      numeralUnder?_eq_some_iff.mpr ⟨digits, hdecimal, rfl, hstrip⟩⟩

theorem isNumeral_of_mem_numerals {name text numeral : List Char}
    (hmem : numeral ∈ (words text).filterMap (numeralUnder? name)) : IsNumeral numeral := by
  obtain ⟨digits, hdecimal, -, rfl⟩ := mem_numerals_iff.mp hmem
  exact isNumeral_stripZeros hdecimal

/-- The numerals of the words denote the numbers in use. -/
theorem mem_usedNumbers_iff {name text : List Char} {number : Nat} :
    number ∈ usedNumbers name text ↔
      ∃ numeral ∈ (words text).filterMap (numeralUnder? name), digitsValue numeral = number := by
  constructor
  · rintro ⟨digits, hdecimal, hrun, hvalue⟩
    exact ⟨stripZeros digits, mem_numerals_iff.mpr ⟨digits, hdecimal, hrun, rfl⟩,
      (digitsValue_stripZeros digits).trans hvalue⟩
  · rintro ⟨numeral, hmem, hvalue⟩
    obtain ⟨digits, hdecimal, hrun, rfl⟩ := mem_numerals_iff.mp hmem
    exact ⟨digits, hdecimal, hrun, (digitsValue_stripZeros digits).symm.trans hvalue⟩

/-! ### The made-up name -/

/-- A made-up name is the name itself if that is in use with no number, and otherwise carries the
number after the largest in use. -/
theorem uniqueName_cases (name text : List Char) :
    (usedNumbers name text = ∅ ∧ uniqueName name text = name) ∨
      ∃ largest, IsGreatest (usedNumbers name text) largest ∧
        uniqueName name text = name ++ Nat.toDigits 10 (largest + 1) := by
  unfold uniqueName
  cases hgreatest : greatestNumeral? ((words text).filterMap (numeralUnder? name)) with
  | none =>
    refine .inl ⟨Set.eq_empty_iff_forall_notMem.mpr fun number hused => ?_, rfl⟩
    obtain ⟨numeral, hmem, -⟩ := mem_usedNumbers_iff.mp hused
    rw [greatestNumeral?_eq_none hgreatest] at hmem
    cases hmem
  | some greatest =>
    obtain ⟨hmem, hmost⟩ := greatestNumeral?_eq_some (fun _ => isNumeral_of_mem_numerals) hgreatest
    obtain ⟨hnext, hvalue⟩ := digitsValue_incrementDigits (isNumeral_of_mem_numerals hmem)
    refine .inr ⟨digitsValue greatest,
      ⟨mem_usedNumbers_iff.mpr ⟨greatest, hmem, rfl⟩, fun number hused => ?_⟩, ?_⟩
    · obtain ⟨numeral, hnumeral, rfl⟩ := mem_usedNumbers_iff.mp hused
      exact hmost numeral hnumeral
    · rw [← hvalue, ← hnext.eq_toDigits]

/-- A made-up name is no word of the text. -/
theorem uniqueName_notMem_words (name text : List Char) : uniqueName name text ∉ words text := by
  intro hmem
  rw [mem_words_iff] at hmem
  rcases uniqueName_cases name text with ⟨hnone, heq⟩ | ⟨largest, hlargest, heq⟩
  · rw [heq] at hmem
    have hused : 0 ∈ usedNumbers name text := ⟨[], rfl, by rwa [List.append_nil], rfl⟩
    rw [hnone] at hused
    exact hused
  · rw [heq] at hmem
    have hused : largest + 1 ∈ usedNumbers name text :=
      ⟨_, all_isAsciiDigit_toDigits _, hmem, digitsValue_toDigits _⟩
    have hle := hlargest.2 hused
    omega

/-- What stands in a text between characters that belong to no word is no made-up name. -/
theorem ne_uniqueName_of_stands {base text before name after : List Char}
    (htext : text = before ++ (name ++ after)) (hfull : name ≠ []) (hplain : name.all isPlainPart = true)
    (hbefore : ∀ c ∈ before.getLast?, isPlainPart c = false)
    (hafter : ∀ c ∈ after.head?, isPlainPart c = false) : name ≠ uniqueName base text := by
  intro hname
  have hmem : name ∈ words text := htext ▸ mem_words hfull hplain hbefore hafter
  rw [hname] at hmem
  exact uniqueName_notMem_words base text hmem

/-- **A made-up name is the numeric successor.** If no maximal run of word characters is the name
with digits behind it, the made-up name is the name itself. Otherwise it is the name with the
numeral, without zeros in front, of the number after the largest that stands behind the name in such
a run, however many digits and zeros in front that has. It is itself no maximal run of the text. -/
theorem uniqueName_succeeds (name text : List Char) :
    ((usedNumbers name text = ∅ ∧ uniqueName name text = name) ∨
      ∃ largest numeral, IsGreatest (usedNumbers name text) largest ∧ IsNumeral numeral ∧
        digitsValue numeral = largest + 1 ∧ uniqueName name text = name ++ numeral) ∧
    ¬ IsMaximalRun (uniqueName name text) text := by
  refine ⟨?_, fun hrun => uniqueName_notMem_words name text (mem_words_iff.mpr hrun)⟩
  rcases uniqueName_cases name text with hunused | ⟨largest, hlargest, heq⟩
  · exact .inl hunused
  · exact .inr ⟨largest, _, hlargest, isNumeral_toDigits _, digitsValue_toDigits _, heq⟩

example : uniqueName "id".toList "id7; id00099; xid500; id1a".toList = "id100".toList := by
  decide

end ModuleLinkage.Text
