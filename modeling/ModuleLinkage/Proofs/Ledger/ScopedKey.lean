import Mathlib.Data.List.Infix
import ModuleLinkage.Ledger.Entries

/-!
# Texts of scoped keys

The key of a batch is registered with the id of its module and a colon before it
(`World.scopedKey`). Two such texts are the same if the ids and the keys are, and also if one id
continues the other one with a colon and what follows there is the beginning of the other key
(`scopedKey_eq_iff`). Where keys have no colon, the text tells the id and the key
(`clash_iff_of_plain`). The keys that lowered code uses are numbers (`scopedKey_repr_inj`).
-/

set_option autoImplicit false

namespace ModuleLinkage.Ledger

/-- Whether the key `otherKey` of a module with the id `other` has the text that `key` has for `id`. -/
def Clash (id key other otherKey : String) : Prop :=
  (other = id ∧ otherKey = key) ∨
    (∃ part, other = id ++ ":" ++ part ∧ key = part ++ ":" ++ otherKey) ∨
    ∃ part, id = other ++ ":" ++ part ∧ otherKey = part ++ ":" ++ key

theorem scopedKey_toList (id key : String) :
    (World.scopedKey id key).toList = id.toList ++ ':' :: key.toList := by
  simp [World.scopedKey, String.toList_append]

/-- Two texts with a separator in each are the same if their parts are, or if one of them has the
separator of the other in its second part. -/
theorem append_cons_eq_iff {α : Type} {first second rest rest' : List α} {separator : α} :
    first ++ separator :: rest = second ++ separator :: rest' ↔
      (second = first ∧ rest' = rest) ∨
        (∃ part, second = first ++ separator :: part ∧ rest = part ++ separator :: rest') ∨
        ∃ part, first = second ++ separator :: part ∧ rest' = part ++ separator :: rest := by
  constructor
  · intro h
    rcases List.append_eq_append_iff.mp h with ⟨middle, hsecond, hmiddle⟩ | ⟨middle, hfirst, hmiddle⟩
    · cases middle with
      | nil => exact .inl ⟨by simpa using hsecond, (List.cons.inj hmiddle).2.symm⟩
      | cons head part =>
        obtain ⟨rfl, hrest⟩ := List.cons.inj hmiddle
        exact .inr (.inl ⟨part, hsecond, hrest⟩)
    · cases middle with
      | nil => exact .inl ⟨by simpa using hfirst.symm, (List.cons.inj hmiddle).2⟩
      | cons head part =>
        obtain ⟨rfl, hrest⟩ := List.cons.inj hmiddle
        exact .inr (.inr ⟨part, hfirst, hrest⟩)
  · rintro (⟨rfl, rfl⟩ | ⟨part, rfl, rfl⟩ | ⟨part, rfl, rfl⟩) <;> simp

/-- A scoped key does not tell where the id ends. -/
theorem scopedKey_eq_iff {id key other otherKey : String} :
    World.scopedKey id key = World.scopedKey other otherKey ↔ Clash id key other otherKey := by
  have htext (first second third : String) :
      first.toList = second.toList ++ ':' :: third.toList ↔ first = second ++ ":" ++ third := by
    rw [← String.toList_inj, String.toList_append, String.toList_append, List.append_assoc]
    rfl
  rw [← String.toList_inj, scopedKey_toList, scopedKey_toList, append_cons_eq_iff]
  unfold Clash
  simp only [String.toList_inj]
  constructor
  · rintro (h | ⟨part, h⟩ | ⟨part, h⟩)
    · exact .inl h
    · rw [← String.toList_ofList (l := part), htext, htext] at h
      exact .inr (.inl ⟨_, h⟩)
    · rw [← String.toList_ofList (l := part), htext, htext] at h
      exact .inr (.inr ⟨_, h⟩)
  · rintro (h | ⟨part, h⟩ | ⟨part, h⟩)
    · exact .inl h
    · exact .inr (.inl ⟨part.toList, by rwa [htext, htext]⟩)
    · exact .inr (.inr ⟨part.toList, by rwa [htext, htext]⟩)

/-- Keys without a colon have the same text only for the same id. -/
theorem clash_iff_of_plain {id key other otherKey : String} (hkey : ':' ∉ key.toList)
    (hother : ':' ∉ otherKey.toList) :
    Clash id key other otherKey ↔ other = id ∧ otherKey = key := by
  constructor
  · rintro (h | ⟨part, -, rfl⟩ | ⟨part, -, rfl⟩)
    · exact h
    · exact absurd (by simp [String.toList_append]) hkey
    · exact absurd (by simp [String.toList_append]) hother
  · exact .inl

/-- The key of a subscription under a number tells the module and the number. -/
theorem scopedKey_repr_inj {id id' : String} {key key' : Nat}
    (h : World.scopedKey id key.repr = World.scopedKey id' key'.repr) : id = id' ∧ key = key' := by
  have hplain (number : Nat) : ':' ∉ number.repr.toList := by
    rw [Nat.toList_repr]
    intro hmem
    have hdigit := Nat.isDigit_of_mem_toDigits (by decide) (by decide) hmem
    exact absurd hdigit (by decide)
  obtain ⟨hid, hkey⟩ := (clash_iff_of_plain (hplain key) (hplain key')).mp (scopedKey_eq_iff.mp h)
  have hdecoded := congrArg (fun digits => Nat.ofDigitChars 10 digits.toList 0) hkey
  simp only [Nat.toList_repr, Nat.ofDigitChars_ten_toDigits] at hdecoded
  exact ⟨hid.symm, hdecoded.symm⟩

end ModuleLinkage.Ledger
