import ModuleLinkage.Text.UniqueName
import Mathlib.Data.List.Basic
import Mathlib.Tactic.Ring

/-!
# Numerals of any length

Numerals are compared and counted up as texts. What is compared has no zeros in front
(`isNumeral_stripZeros`), so a longer numeral stands for a greater number and among numerals of one
length the first different digit decides: the texts compare as the numbers do
(`compareNumerals_eq`). Adding one changes the nines at the end to zeros and the digit before them,
if there is one, to the next (`digitsValue_incrementDigits`). A numeral without zeros in front is
the only one of its number (`IsNumeral.eq_toDigits`).
-/

set_option autoImplicit false

namespace ModuleLinkage.Text

open Unicode

variable {digits left right : List Char} {digit : Char}

/-- The number that decimal digits denote; the empty text denotes zero. -/
def digitsValue (digits : List Char) : Nat :=
  Nat.ofDigitChars 10 digits 0

/-- A decimal numeral: digits, at least one, and no zero in front of others. -/
structure IsNumeral (digits : List Char) : Prop where
  /-- There is a digit. -/
  full : digits ≠ []
  /-- Nothing but digits stands in a numeral. -/
  decimal : digits.all isAsciiDigit = true
  /-- Only the numeral of zero begins with a zero. -/
  lead : digits.head? = some '0' → digits = ['0']

/-! ### Digits and their values -/

theorem isAsciiDigit_iff : isAsciiDigit digit = true ↔ 48 ≤ digit.toNat ∧ digit.toNat ≤ 57 := by
  simp [isAsciiDigit, Char.le_def, UInt32.le_iff_toNat_le]

theorem digitsValue_cons (digit : Char) (digits : List Char) :
    digitsValue (digit :: digits) = 10 ^ digits.length * (digit.toNat - 48) + digitsValue digits := by
  rw [digitsValue, Nat.ofDigitChars_cons, Nat.ofDigitChars_eq_ofDigitChars_zero]
  simp [digitsValue]

theorem digitsValue_concat (digits : List Char) (digit : Char) :
    digitsValue (digits ++ [digit]) = 10 * digitsValue digits + (digit.toNat - 48) := by
  rw [digitsValue, Nat.ofDigitChars_append, Nat.ofDigitChars_cons, Nat.ofDigitChars_nil]
  rfl

/-- Digits denote a number with no more digits than they are. -/
theorem digitsValue_lt (hdecimal : digits.all isAsciiDigit = true) :
    digitsValue digits < 10 ^ digits.length := by
  induction digits with
  | nil => decide
  | cons digit digits ih =>
    rw [List.all_cons, Bool.and_eq_true] at hdecimal
    have hdigit : digit.toNat - 48 ≤ 9 := by
      have hbounds := isAsciiDigit_iff.mp hdecimal.1
      omega
    have hrest := ih hdecimal.2
    calc digitsValue (digit :: digits)
        = 10 ^ digits.length * (digit.toNat - 48) + digitsValue digits := digitsValue_cons digit digits
      _ < 10 ^ digits.length * (digit.toNat - 48) + 10 ^ digits.length := by omega
      _ = 10 ^ digits.length * (digit.toNat - 48 + 1) := by ring
      _ ≤ 10 ^ digits.length * 10 := Nat.mul_le_mul_left _ (by omega)
      _ = 10 ^ (digit :: digits).length := by rw [List.length_cons, pow_succ]

/-- A zero in front adds nothing. -/
theorem digitsValue_dropWhile (digits : List Char) :
    digitsValue (digits.dropWhile (· == '0')) = digitsValue digits := by
  induction digits with
  | nil => rfl
  | cons digit digits ih =>
    rw [List.dropWhile_cons]
    split
    · next hzero =>
      rw [ih, digitsValue_cons, eq_of_beq hzero]
      simp
    · rfl

/-- A numeral that does not begin with a zero denotes a number with as many digits. -/
theorem pow_le_digitsValue (hdecimal : (digit :: digits).all isAsciiDigit = true) (hzero : digit ≠ '0') :
    10 ^ digits.length ≤ digitsValue (digit :: digits) := by
  rw [List.all_cons, Bool.and_eq_true] at hdecimal
  have hbounds := isAsciiDigit_iff.mp hdecimal.1
  have hne : digit.toNat ≠ 48 := fun h => hzero (Char.toNat_inj.mp h)
  calc 10 ^ digits.length
      = 10 ^ digits.length * 1 := (Nat.mul_one _).symm
    _ ≤ 10 ^ digits.length * (digit.toNat - 48) := Nat.mul_le_mul_left _ (by omega)
    _ ≤ digitsValue (digit :: digits) := by rw [digitsValue_cons]; omega

/-! ### Zeros in front -/

/-- What is left without the zeros in front is the numeral of the same number. -/
theorem isNumeral_stripZeros (hdecimal : digits.all isAsciiDigit = true) : IsNumeral (stripZeros digits) := by
  unfold stripZeros
  split
  · exact ⟨by simp, by decide, fun _ => rfl⟩
  · next hfull =>
    refine ⟨hfull, ?_, fun hlead => ?_⟩
    · exact List.all_eq_true.mpr fun digit hmem =>
        List.all_eq_true.mp hdecimal digit ((List.dropWhile_sublist _).mem hmem)
    · have hkept := List.head?_dropWhile_not (· == '0') digits
      rw [hlead] at hkept
      cases hkept

theorem digitsValue_stripZeros (digits : List Char) :
    digitsValue (stripZeros digits) = digitsValue digits := by
  rw [← digitsValue_dropWhile digits]
  unfold stripZeros
  split
  · next hzeros =>
    rw [hzeros]
    rfl
  · rfl

/-! ### Comparing -/

theorem compare_eq_compare_toNat (l r : Char) : compare l r = compare l.toNat r.toNat := by
  change compareOfLessAndEq l r = compareOfLessAndEq l.toNat r.toNat
  have hlt : l < r ↔ l.toNat < r.toNat := UInt32.lt_iff_toNat_lt
  simp only [compareOfLessAndEq, hlt, ← Char.toNat_inj]

/-- Digits of one length compare as the numbers they denote. -/
theorem compare_eq_of_length_eq (hlength : left.length = right.length)
    (hleft : left.all isAsciiDigit = true) (hright : right.all isAsciiDigit = true) :
    compare left right = compare (digitsValue left) (digitsValue right) := by
  induction left generalizing right with
  | nil =>
    cases right with
    | nil => rfl
    | cons => cases hlength
  | cons l left ih =>
    cases right with
    | nil => cases hlength
    | cons r right =>
      rw [List.length_cons, List.length_cons, Nat.add_right_cancel_iff] at hlength
      rw [List.all_cons, Bool.and_eq_true] at hleft hright
      have hl := isAsciiDigit_iff.mp hleft.1
      have hr := isAsciiDigit_iff.mp hright.1
      have hltail := digitsValue_lt hleft.2
      have hrtail := digitsValue_lt hright.2
      rw [List.compare_cons_cons, compare_eq_compare_toNat, digitsValue_cons, digitsValue_cons, ← hlength]
      rw [← hlength] at hrtail
      -- The first different digit outweighs whatever follows it.
      rcases Nat.lt_trichotomy l.toNat r.toNat with hlt | heq | hgt
      · have hweight : 10 ^ left.length * (l.toNat - 48 + 1) ≤ 10 ^ left.length * (r.toNat - 48) :=
          Nat.mul_le_mul_left _ (by omega)
        rw [Nat.mul_add, Nat.mul_one] at hweight
        rw [Nat.compare_eq_lt.mpr hlt, Nat.compare_eq_lt.mpr (by omega)]
        rfl
      · rw [heq, Nat.compare_eq_eq.mpr rfl, ih hlength hleft.2 hright.2]
        simp [Nat.compare_eq_ite_lt]
      · have hweight : 10 ^ left.length * (r.toNat - 48 + 1) ≤ 10 ^ left.length * (l.toNat - 48) :=
          Nat.mul_le_mul_left _ (by omega)
        rw [Nat.mul_add, Nat.mul_one] at hweight
        rw [Nat.compare_eq_gt.mpr hgt, Nat.compare_eq_gt.mpr (by omega)]
        rfl

/-- A longer numeral denotes a greater number. -/
theorem IsNumeral.value_lt_of_length_lt (hleft : IsNumeral left) (hright : IsNumeral right)
    (hlength : left.length < right.length) : digitsValue left < digitsValue right := by
  cases right with
  | nil => cases hlength
  | cons digit rest =>
    have hzero : digit ≠ '0' := by
      rintro rfl
      have hfull := List.length_pos_iff.mpr hleft.full
      rw [hright.lead rfl, List.length_singleton] at hlength
      omega
    calc digitsValue left
        < 10 ^ left.length := digitsValue_lt hleft.decimal
      _ ≤ 10 ^ rest.length := Nat.pow_le_pow_right (by decide) (Nat.le_of_lt_succ hlength)
      _ ≤ digitsValue (digit :: rest) := pow_le_digitsValue hright.decimal hzero

/-- Numerals compare as the numbers they denote. -/
theorem compareNumerals_eq (hleft : IsNumeral left) (hright : IsNumeral right) :
    compareNumerals left right = compare (digitsValue left) (digitsValue right) := by
  unfold compareNumerals
  rcases Nat.lt_trichotomy left.length right.length with hlt | heq | hgt
  · rw [Nat.compare_eq_lt.mpr hlt, Nat.compare_eq_lt.mpr (hleft.value_lt_of_length_lt hright hlt)]
    rfl
  · rw [Nat.compare_eq_eq.mpr heq, compare_eq_of_length_eq heq hleft.decimal hright.decimal]
    rfl
  · rw [Nat.compare_eq_gt.mpr hgt, Nat.compare_eq_gt.mpr (hright.value_lt_of_length_lt hleft hgt)]
    rfl

/-- Numerals of one number are the same. -/
theorem IsNumeral.eq_of_value_eq (hleft : IsNumeral left) (hright : IsNumeral right)
    (hvalue : digitsValue left = digitsValue right) : left = right := by
  have hcompare := compareNumerals_eq hleft hright
  rw [Nat.compare_eq_eq.mpr hvalue, compareNumerals, Ordering.then_eq_eq] at hcompare
  exact Std.LawfulEqOrd.eq_of_compare hcompare.2

/-- The greater of two numerals is one of them and denotes no smaller number than either. -/
theorem greaterNumeral_spec (hleft : IsNumeral left) (hright : IsNumeral right) :
    greaterNumeral left right ∈ [left, right] ∧ digitsValue left ≤ digitsValue (greaterNumeral left right) ∧
      digitsValue right ≤ digitsValue (greaterNumeral left right) := by
  unfold greaterNumeral
  rw [compareNumerals_eq hleft hright]
  split
  · next hgt => exact ⟨by simp, Nat.le_refl _, Nat.le_of_lt (Nat.compare_eq_gt.mp (eq_of_beq hgt))⟩
  · next hle =>
    refine ⟨by simp, Nat.le_of_not_lt fun hlt => hle ?_, Nat.le_refl _⟩
    rw [Nat.compare_eq_gt.mpr hlt]
    rfl

theorem foldl_greaterNumeral {first : List Char} {rest : List (List Char)}
    (hnumerals : ∀ numeral ∈ first :: rest, IsNumeral numeral) :
    rest.foldl greaterNumeral first ∈ first :: rest ∧
      ∀ numeral ∈ first :: rest, digitsValue numeral ≤ digitsValue (rest.foldl greaterNumeral first) := by
  induction rest generalizing first with
  | nil => exact ⟨by simp, by simp⟩
  | cons next rest ih =>
    obtain ⟨hmem, hfirst, hnext⟩ := greaterNumeral_spec (hnumerals first (by simp)) (hnumerals next (by simp))
    have hbest : greaterNumeral first next ∈ first :: next :: rest := by
      rcases List.mem_pair.mp hmem with heq | heq <;> simp [heq]
    obtain ⟨hfound, hmost⟩ := ih (List.forall_mem_cons.mpr
      ⟨hnumerals _ hbest, fun numeral hrest => hnumerals numeral (by simp [hrest])⟩)
    obtain ⟨htop, hrest⟩ := List.forall_mem_cons.mp hmost
    rw [List.foldl_cons]
    refine ⟨?_, List.forall_mem_cons.mpr
      ⟨hfirst.trans htop, List.forall_mem_cons.mpr ⟨hnext.trans htop, hrest⟩⟩⟩
    rcases List.mem_cons.mp hfound with heq | hlater
    · rw [heq]
      exact hbest
    · simp [hlater]

theorem greatestNumeral?_eq_none {numerals : List (List Char)} (hnone : greatestNumeral? numerals = none) :
    numerals = [] := by
  cases numerals with
  | nil => rfl
  | cons => cases hnone

/-- The greatest of some numerals is among them and denotes the largest number. -/
theorem greatestNumeral?_eq_some {numerals : List (List Char)} {greatest : List Char}
    (hnumerals : ∀ numeral ∈ numerals, IsNumeral numeral)
    (hgreatest : greatestNumeral? numerals = some greatest) :
    greatest ∈ numerals ∧ ∀ numeral ∈ numerals, digitsValue numeral ≤ digitsValue greatest := by
  cases numerals with
  | nil => cases hgreatest
  | cons first rest =>
    obtain rfl := Option.some.inj hgreatest
    exact foldl_greaterNumeral hnumerals

/-! ### Adding one -/

theorem toNat_ofNat_succ (hdigit : isAsciiDigit digit = true) :
    (Char.ofNat (digit.toNat + 1)).toNat = digit.toNat + 1 := by
  have hbounds := isAsciiDigit_iff.mp hdigit
  have hvalid : (digit.toNat + 1).isValidChar := .inl (by omega)
  rw [Char.ofNat, dif_pos hvalid]
  rfl

/-- Digits, read from the last to the first, change to those of the next number. -/
theorem incrementFromLast_digits (hdecimal : digits.all isAsciiDigit = true) :
    (incrementFromLast digits).all isAsciiDigit = true ∧
      digitsValue (incrementFromLast digits).reverse = digitsValue digits.reverse + 1 := by
  induction digits with
  | nil => decide
  | cons digit before ih =>
    rw [List.all_cons, Bool.and_eq_true] at hdecimal
    have hbounds := isAsciiDigit_iff.mp hdecimal.1
    rw [incrementFromLast]
    split
    · next hnine =>
      obtain ⟨hall, hvalue⟩ := ih hdecimal.2
      rw [eq_of_beq hnine, List.reverse_cons, List.reverse_cons, digitsValue_concat, digitsValue_concat, hvalue,
        List.all_cons, hall]
      exact ⟨by decide, by simp; omega⟩
    · next hother =>
      have hne : digit.toNat ≠ 57 := fun h => hother (beq_iff_eq.mpr (Char.toNat_inj.mp h))
      rw [List.reverse_cons, List.reverse_cons, digitsValue_concat, digitsValue_concat, List.all_cons,
        Bool.and_eq_true, isAsciiDigit_iff, toNat_ofNat_succ hdecimal.1]
      exact ⟨⟨by omega, hdecimal.2⟩, by omega⟩

/-- The first digit of the next number is no zero. -/
theorem getLast?_incrementFromLast (hdecimal : digits.all isAsciiDigit = true)
    (hlead : digits.getLast? = some '0' → digits = ['0']) :
    ∃ digit, (incrementFromLast digits).getLast? = some digit ∧ digit ≠ '0' := by
  induction digits with
  | nil => exact ⟨'1', rfl, by decide⟩
  | cons digit before ih =>
    rw [List.all_cons, Bool.and_eq_true] at hdecimal
    have hbounds := isAsciiDigit_iff.mp hdecimal.1
    rw [incrementFromLast]
    split
    · next hnine =>
      have hlast : before.getLast? = some '0' → before = ['0'] := by
        intro hzero
        rw [List.getLast?_cons, hzero, eq_of_beq hnine] at hlead
        cases hlead rfl
      obtain ⟨first, hfirst, hne⟩ := ih hdecimal.2 hlast
      exact ⟨first, by rw [List.getLast?_cons, hfirst]; rfl, hne⟩
    · next hother =>
      cases before with
      | nil =>
        refine ⟨_, rfl, fun hzero => ?_⟩
        have hnat := toNat_ofNat_succ hdecimal.1
        rw [List.getLast_singleton] at hzero
        rw [hzero] at hnat
        have hcode : '0'.toNat = 48 := rfl
        omega
      | cons next before =>
        rw [List.getLast?_cons_cons] at hlead ⊢
        refine ⟨_, List.getLast?_cons, fun hzero => ?_⟩
        cases hlead (by rw [List.getLast?_cons, hzero])

/-- What stands after adding one is the numeral of the next number. -/
theorem digitsValue_incrementDigits (hdigits : IsNumeral digits) :
    IsNumeral (incrementDigits digits) ∧ digitsValue (incrementDigits digits) = digitsValue digits + 1 := by
  have hdecimal : digits.reverse.all isAsciiDigit = true := by
    rw [List.all_reverse]
    exact hdigits.decimal
  have hlead : digits.reverse.getLast? = some '0' → digits.reverse = ['0'] := by
    intro hzero
    rw [List.getLast?_reverse] at hzero
    rw [hdigits.lead hzero]
    rfl
  obtain ⟨hall, hvalue⟩ := incrementFromLast_digits hdecimal
  obtain ⟨first, hfirst, hne⟩ := getLast?_incrementFromLast hdecimal hlead
  rw [← List.head?_reverse] at hfirst
  refine ⟨⟨?_, by rw [incrementDigits, List.all_reverse]; exact hall, fun hzero => ?_⟩, ?_⟩
  · intro hnil
    rw [incrementDigits] at hnil
    rw [hnil] at hfirst
    cases hfirst
  · rw [incrementDigits, hfirst] at hzero
    exact absurd (Option.some.inj hzero) hne
  · rw [incrementDigits, hvalue, List.reverse_reverse]

/-! ### The numeral of a number -/

theorem digitsValue_toDigits (number : Nat) : digitsValue (Nat.toDigits 10 number) = number :=
  Nat.ofDigitChars_ten_toDigits

theorem all_isAsciiDigit_toDigits (number : Nat) : (Nat.toDigits 10 number).all isAsciiDigit = true :=
  List.all_eq_true.mpr fun _ hdigit => Nat.isDigit_of_mem_toDigits (by decide) (by decide) hdigit

/-- Numbers are written as numerals. -/
theorem isNumeral_toDigits (number : Nat) : IsNumeral (Nat.toDigits 10 number) := by
  refine ⟨Nat.toDigits_ne_nil, all_isAsciiDigit_toDigits number, ?_⟩
  induction number using Nat.strong_induction_on with
  | _ number ih =>
    rw [Nat.toDigits_eq_if (by decide)]
    split
    · intro hzero
      rw [List.head?_cons, Option.some.injEq] at hzero
      rw [hzero]
    · next hlarge =>
      intro hzero
      rw [List.head?_append_of_ne_nil _ Nat.toDigits_ne_nil] at hzero
      have hfront := congrArg digitsValue (ih (number / 10) (by omega) hzero)
      have hnone : digitsValue ['0'] = 0 := by decide
      rw [digitsValue_toDigits, hnone] at hfront
      omega

/-- A numeral is the one that its number is written as. -/
theorem IsNumeral.eq_toDigits (hdigits : IsNumeral digits) :
    digits = Nat.toDigits 10 (digitsValue digits) :=
  hdigits.eq_of_value_eq (isNumeral_toDigits _) (digitsValue_toDigits _).symm

end ModuleLinkage.Text
