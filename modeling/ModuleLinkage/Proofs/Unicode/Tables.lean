import ModuleLinkage.Unicode.Class
import Mathlib.Data.List.Chain

/-!
# Character classes compared

A toggle table holds the points of the stretches between its changes (`contains_iff_holds`), so that one
table is part of another if every stretch of it lies in one of the other (`contains_of_covers`), and has
no point of stretches that lie between its own (`not_contains_of_covers`). What begins an identifier may
continue one (`isIdentifierPart_of_isIdentifierStart`), and what stands between tokens belongs to no word
(`separates_of_isSourceSpace`).
-/

set_option autoImplicit false

namespace ModuleLinkage.Unicode

namespace ToggleTable

variable {table : ToggleTable}

/-! ### Halving -/

/-- The changes found at or below a point end where the next change stands above it. -/
theorem countBetween_spec (point : Nat) {low high : Nat} (hle : low ≤ high) (hhigh : high ≤ table.size) :
    low ≤ table.countBetween point low high ∧ table.countBetween point low high ≤ high ∧
      (∀ i, table.countBetween point low high = i + 1 → low ≤ i →
        ∃ change, table[i]? = some change ∧ change ≤ point) ∧
      (table.countBetween point low high < high →
        ∃ change, table[table.countBetween point low high]? = some change ∧ point < change) := by
  fun_induction countBetween table point low high with
  | case1 low high hlt middle change hchange hbelow ih =>
    obtain ⟨hlow, hend, hlast, hnext⟩ := ih (by omega) hhigh
    refine ⟨by omega, hend, fun i hi hlow' => ?_, hnext⟩
    by_cases heq : i = middle
    · exact ⟨change, heq ▸ hchange, hbelow⟩
    · exact hlast i hi (by omega)
  | case2 low high hlt middle change hchange habove ih =>
    obtain ⟨hlow, hend, hlast, hnext⟩ := ih (by omega) (by omega)
    refine ⟨hlow, by omega, hlast, fun _ => ?_⟩
    by_cases heq : table.countBetween point low middle = middle
    · exact ⟨change, by rw [heq]; exact hchange, by omega⟩
    · exact hnext (by omega)
  | case3 low high hlt middle hnone =>
    rw [Array.getElem?_eq_none_iff] at hnone
    omega
  | case4 low high hlt => exact ⟨by omega, by omega, by omega, by omega⟩

/-! ### Stretches -/

/-- Whether a point lies in one of the stretches that a list of changes bounds. -/
def Holds (point : Nat) : List Nat → Prop
  | first :: last :: rest => first ≤ point ∧ point < last ∨ Holds point rest
  | _ => False

theorem holds_iff {point : Nat} {changes : List Nat} : Holds point changes ↔
    ∃ i first last, changes[2 * i]? = some first ∧ changes[2 * i + 1]? = some last ∧
      first ≤ point ∧ point < last := by
  fun_induction Holds point changes with
  | case1 first last rest ih =>
    rw [ih]
    constructor
    · rintro (⟨hfirst, hlast⟩ | ⟨i, first', last', hfirst, hlast, hle, hlt⟩)
      · exact ⟨0, first, last, rfl, rfl, hfirst, hlast⟩
      · exact ⟨i + 1, first', last', hfirst, hlast, hle, hlt⟩
    · rintro ⟨_ | i, first', last', hfirst, hlast, hle, hlt⟩
      · obtain rfl := Option.some.inj hfirst
        obtain rfl := Option.some.inj hlast
        exact .inl ⟨hle, hlt⟩
      · exact .inr ⟨i, first', last', hfirst, hlast, hle, hlt⟩
  | case2 changes hshort =>
    refine iff_of_false id ?_
    rintro ⟨i, first', last', -, hlast, -, -⟩
    match changes, hshort with
    | [], _ => simp at hlast
    | [_], _ => simp at hlast
    | _ :: _ :: _, hshort => exact hshort _ _ _ rfl

/-- The changes of a table stand in increasing order, and the last of them ends a stretch. -/
structure IsSorted (table : ToggleTable) : Prop where
  increasing : table.toList.Pairwise (· < ·)
  even : table.size % 2 = 0

/-- A table contains the points of its stretches. -/
theorem contains_iff_holds (hsorted : table.IsSorted) (c : Char) :
    table.contains c = true ↔ Holds c.toNat table.toList := by
  obtain ⟨-, hend, hlast, hnext⟩ :=
    countBetween_spec c.toNat (Nat.zero_le table.size) (Nat.le_refl _)
  have heven := hsorted.even
  rw [contains, beq_iff_eq, holds_iff]
  generalize table.countBetween c.toNat 0 table.size = count at hend hlast hnext
  simp only [Array.getElem?_toList]
  constructor
  · intro hodd
    obtain ⟨first, hfirst, hle⟩ := hlast (2 * (count / 2)) (by omega) (Nat.zero_le _)
    obtain ⟨last, hlast', hlt⟩ := hnext (by omega)
    exact ⟨count / 2, first, last, hfirst, by rwa [show 2 * (count / 2) + 1 = count by omega], hle, hlt⟩
  · rintro ⟨i, first, last, hfirst, hlast', hle, hlt⟩
    -- Changes in order of their places: none but the two of this stretch is near the point.
    have horder {j k : Nat} {x y : Nat} (hx : table[j]? = some x) (hy : table[k]? = some y)
        (hlt : x < y) : j < k := by
      obtain ⟨hj, rfl⟩ := Array.getElem?_eq_some_iff.mp hx
      obtain ⟨hk, rfl⟩ := Array.getElem?_eq_some_iff.mp hy
      by_contra hge
      rcases Nat.lt_or_eq_of_le (Nat.le_of_not_lt hge) with hkj | rfl
      · have := List.pairwise_iff_getElem.mp hsorted.increasing k j hk hj hkj
        simp only [Array.getElem_toList] at this
        omega
      · omega
    have hbelow : 2 * i < count := by
      by_contra hge
      obtain ⟨next, hnext', habove⟩ := hnext (by
        obtain ⟨hi, -⟩ := Array.getElem?_eq_some_iff.mp hfirst
        omega)
      have := horder hfirst hnext' (by omega)
      omega
    have habove : count ≤ 2 * i + 1 := by
      by_contra hlt'
      obtain ⟨previous, hprevious, hle'⟩ := hlast (count - 1) (by omega) (Nat.zero_le _)
      have := horder hprevious hlast' (by omega)
      omega
    omega

/-! ### One table in another -/

/-- What is left of a list of changes without the stretches at its head that lie between two points. -/
def dropWithin (first last : Nat) : List Nat → List Nat
  | first' :: last' :: rest =>
    if first.ble first' && last'.ble last then dropWithin first last rest else first' :: last' :: rest
  | rest => rest

/-- Whether each stretch of one list of changes lies in a stretch of another. -/
def covers : List Nat → List Nat → Bool
  | first :: last :: outer, inner => covers outer (dropWithin first last inner)
  | _, inner => inner.isEmpty

theorem holds_of_dropWithin {point first last : Nat} {inner : List Nat} (h : Holds point inner) :
    first ≤ point ∧ point < last ∨ Holds point (dropWithin first last inner) := by
  fun_induction dropWithin first last inner with
  | case1 first' last' rest hwithin ih =>
    simp only [Bool.and_eq_true, Nat.ble_eq] at hwithin
    rcases h with ⟨hle, hlt⟩ | h
    · exact .inl ⟨by omega, by omega⟩
    · exact ih h
  | case2 | case3 => exact .inr h

theorem holds_of_covers {point : Nat} {outer inner : List Nat} (hcovers : covers outer inner = true)
    (h : Holds point inner) : Holds point outer := by
  fun_induction covers outer inner with
  | case1 first last outer inner ih => exact (holds_of_dropWithin h).imp_right (ih hcovers)
  | case2 outer inner =>
    obtain rfl := List.isEmpty_iff.mp hcovers
    exact h.elim

theorem contains_of_covers {inner outer : ToggleTable} (hinner : inner.IsSorted)
    (houter : outer.IsSorted) (hcovers : covers outer.toList inner.toList = true) {c : Char}
    (hc : inner.contains c = true) : outer.contains c = true :=
  (contains_iff_holds houter c).mpr (holds_of_covers hcovers ((contains_iff_holds hinner c).mp hc))

/-! ### What a table leaves out -/

/-- The changes that bound the stretches between those of a list. -/
def complement (changes : List Nat) : List Nat :=
  0 :: (changes ++ [0x110000])

theorem not_holds_of_lt {point first : Nat} {changes : List Nat}
    (hsorted : (first :: changes).Pairwise (· < ·)) (hlt : point < first) :
    ¬ Holds point (first :: changes) := by
  rw [holds_iff]
  rintro ⟨i, change, -, hchange, -, hle, -⟩
  have hmem : change ∈ first :: changes := List.mem_of_getElem? hchange
  rcases List.mem_cons.mp hmem with rfl | hmem
  · omega
  · have := List.rel_of_pairwise_cons hsorted hmem
    omega

/-- What lies between the stretches of a sorted list lies in none of them. -/
theorem le_and_not_holds {point low high : Nat} {changes : List Nat}
    (hsorted : changes.Pairwise (· < ·)) (hlow : ∀ change ∈ changes, low ≤ change)
    (h : Holds point (low :: (changes ++ [high]))) : low ≤ point ∧ ¬ Holds point changes := by
  induction changes using List.twoStepInduction generalizing low with
  | nil | singleton =>
    obtain ⟨hle, -⟩ | h := h
    · exact ⟨hle, id⟩
    · exact h.elim
  | cons_cons first last rest ih =>
    obtain ⟨hle, hlt⟩ | h := h
    · exact ⟨hle, not_holds_of_lt hsorted hlt⟩
    · have hbehind (change : Nat) (hchange : change ∈ rest) : last ≤ change :=
        (List.rel_of_pairwise_cons hsorted.tail hchange).le
      obtain ⟨hlast, hrest⟩ := ih hsorted.tail.tail hbehind h
      refine ⟨(hlow last (by simp)).trans hlast, ?_⟩
      rintro (⟨-, hlt⟩ | h)
      · omega
      · exact hrest h

theorem not_contains_of_covers {changes : List Nat} (htable : table.IsSorted)
    (hcovers : covers (complement table.toList) changes = true) {c : Char}
    (hc : Holds c.toNat changes) : table.contains c = false := by
  obtain ⟨-, hnot⟩ := le_and_not_holds htable.increasing (fun _ _ => Nat.zero_le _)
    (holds_of_covers hcovers hc)
  exact Bool.eq_false_iff.mpr fun hcontains => hnot ((contains_iff_holds htable c).mp hcontains)

/-- Whether each number of a list is above the one before it. -/
def isIncreasing : List Nat → Bool
  | first :: second :: rest => first.blt second && isIncreasing (second :: rest)
  | _ => true

theorem isChain_of_isIncreasing {changes : List Nat} (h : isIncreasing changes = true) :
    changes.IsChain (· < ·) := by
  fun_induction isIncreasing changes with
  | case1 first second rest ih =>
    simp only [Bool.and_eq_true, Nat.blt_eq] at h
    exact .cons_cons h.1 (ih h.2)
  | case2 changes hshort =>
    match changes, hshort with
    | [], _ => exact .nil
    | [_], _ => exact .singleton _
    | _ :: _ :: _, hshort => exact absurd rfl (hshort _ _ _)

/-- A table is sorted if each change stands above the one before it. -/
theorem isSorted_of_isIncreasing (h : isIncreasing table.toList = true) (heven : table.size % 2 = 0) :
    table.IsSorted :=
  ⟨List.isChain_iff_pairwise.mp (isChain_of_isIncreasing h), heven⟩

end ToggleTable

/-! ### Identifiers -/

/-- The changes that bound what stands between tokens: white space, the zero width space, and the byte
order mark. -/
def separatorChanges : List Nat :=
  [9, 14, 32, 33, 133, 134, 160, 161, 5760, 5761, 8192, 8204, 8232, 8234, 8239, 8240, 8287, 8288,
    12288, 12289, 65279, 65280]

/-- What is computed from the tables themselves. -/
theorem tables_hold :
    (ToggleTable.isIncreasing identifierStart.toList = true ∧ identifierStart.size % 2 = 0) ∧
    (ToggleTable.isIncreasing identifierContinue.toList = true ∧ identifierContinue.size % 2 = 0) ∧
    (ToggleTable.isIncreasing wordCharacter.toList = true ∧ wordCharacter.size % 2 = 0) ∧
    ToggleTable.covers identifierContinue.toList identifierStart.toList = true ∧
    ToggleTable.covers (ToggleTable.complement identifierContinue.toList) separatorChanges = true ∧
    ToggleTable.covers (ToggleTable.complement wordCharacter.toList) separatorChanges = true := by
  decide +kernel

theorem isSorted_identifierStart : identifierStart.IsSorted :=
  ToggleTable.isSorted_of_isIncreasing tables_hold.1.1 tables_hold.1.2

theorem isSorted_identifierContinue : identifierContinue.IsSorted :=
  ToggleTable.isSorted_of_isIncreasing tables_hold.2.1.1 tables_hold.2.1.2

/-- What may begin an identifier may continue one. -/
theorem isIdentifierPart_of_isIdentifierStart {c : Char} (hc : isIdentifierStart c = true) :
    isIdentifierPart c = true := by
  unfold isIdentifierStart at hc
  unfold isIdentifierPart
  split
  · next hascii =>
    rw [if_pos hascii] at hc
    simp only [Bool.or_eq_true] at hc ⊢
    tauto
  · next hascii =>
    rw [if_neg hascii] at hc
    simp [ToggleTable.contains_of_covers isSorted_identifierStart isSorted_identifierContinue
      tables_hold.2.2.2.1 hc]

/-! ### Separators -/

/-- Whether a character belongs to no word, neither to an identifier nor for the purpose of finding
word boundaries. -/
def separates (c : Char) : Bool :=
  !isIdentifierPart c && !isWordCharacter c

theorem isSorted_wordCharacter : wordCharacter.IsSorted :=
  ToggleTable.isSorted_of_isIncreasing tables_hold.2.2.1.1 tables_hold.2.2.1.2

/-- The separators in ASCII. -/
def asciiSeparators : List Nat :=
  [9, 10, 11, 12, 13, 32]

theorem separates_asciiSeparators :
    ∀ point ∈ asciiSeparators, separates (Char.ofNat point) = true := by
  decide +kernel

/-- What stands between tokens belongs to no word. -/
theorem separates_of_holds {c : Char} (hc : ToggleTable.Holds c.toNat separatorChanges) :
    separates c = true := by
  obtain ⟨-, -, -, -, hidentifier, hword⟩ := tables_hold
  have hnoPart := ToggleTable.not_contains_of_covers isSorted_identifierContinue hidentifier hc
  have hnoWord := ToggleTable.not_contains_of_covers isSorted_wordCharacter hword hc
  simp only [separatorChanges, ToggleTable.Holds, or_false] at hc
  by_cases hascii : c.toNat < 128
  · have hpoint : c.toNat ∈ asciiSeparators := by
      simp only [asciiSeparators, List.mem_cons, List.not_mem_nil, or_false]
      omega
    have hseparates := separates_asciiSeparators _ hpoint
    rwa [Char.ofNat_toNat] at hseparates
  · -- The joiners lie behind the separators of their row.
    have hjoiner {joiner : Char} (hjoiner : joiner.toNat ∈ [8204, 8205]) : (c == joiner) = false := by
      refine beq_eq_false_iff_ne.mpr ?_
      rintro rfl
      simp only [List.mem_cons, List.not_mem_nil, or_false] at hjoiner
      omega
    unfold separates isIdentifierPart isWordCharacter
    rw [if_neg hascii, if_neg hascii, hnoPart, hnoWord, hjoiner (by decide), hjoiner (by decide)]
    rfl

/-- White space separates words. -/
theorem separates_of_isBlank {c : Char} (hc : isBlank c = true) : separates c = true :=
  separates_of_holds (ToggleTable.holds_of_covers rfl
    ((ToggleTable.contains_iff_holds (ToggleTable.isSorted_of_isIncreasing rfl rfl) c).mp hc))

theorem separates_of_isSourceSpace {c : Char} (hc : isSourceSpace c = true) : separates c = true := by
  simp only [isSourceSpace, Bool.or_eq_true, Bool.and_eq_true, beq_iff_eq] at hc
  obtain hspace | hblank := hc
  · apply separates_of_holds
    obtain ((((rfl | rfl) | rfl) | rfl) | rfl) | rfl := hspace <;>
      simp [separatorChanges, ToggleTable.Holds]
  · exact separates_of_isBlank hblank.1.1.2

theorem separates_of_isLineBreak {c : Char} (hc : isLineBreak c = true) : separates c = true := by
  simp only [isLineBreak, Bool.or_eq_true, beq_iff_eq] at hc
  apply separates_of_holds
  obtain ((rfl | rfl) | rfl) | rfl := hc <;> simp [separatorChanges, ToggleTable.Holds]

end ModuleLinkage.Unicode
