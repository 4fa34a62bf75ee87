import ModuleLinkage.Ledger.Value

/-!
# Sameness of values

Two values are the same exactly if they are equal. For numbers this rests on there being one value
that is no number, and on numbers being given by their bits (`sameNumber_iff`); everything else is
compared by equality already (`Value.same_iff`).
-/

set_option autoImplicit false

namespace ModuleLinkage.Ledger

/-- A number is given by its bits. -/
theorem eq_of_toBits_eq {first second : Float} (h : first.toBits = second.toBits) :
    first = second := by
  obtain ⟨⟨bits, _⟩⟩ := first
  obtain ⟨⟨bits', _⟩⟩ := second
  obtain rfl : bits = bits' := h
  rfl

/-- What is no number has an exponent of ones and a mantissa that is not zero. -/
theorem exponent_mantissa_of_unpack {bits : BitVec Float.Model.Format.binary64.numBits}
    (h : (Float.Model.UnpackedFloat.unpack Float.Model.Format.binary64 bits).isNaN = true) :
    Float.Model.UnpackedFloat.unpackExponent bits = -1 ∧
      Float.Model.UnpackedFloat.unpackMantissa bits ≠ 0 := by
  change Float.Model.UnpackedFloat.isNaN
    (if Float.Model.UnpackedFloat.unpackExponent bits = -1 then
      if Float.Model.UnpackedFloat.unpackMantissa bits = 0 then _ else _
    else if Float.Model.UnpackedFloat.unpackExponent bits = 0 then
      if _ : Float.Model.UnpackedFloat.unpackMantissa bits = 0 then _ else _
    else _) = true at h
  by_cases hexponent : Float.Model.UnpackedFloat.unpackExponent bits = -1
  · rw [if_pos hexponent] at h
    by_cases hmantissa : Float.Model.UnpackedFloat.unpackMantissa bits = 0
    · rw [if_pos hmantissa] at h
      cases h
    · exact ⟨hexponent, hmantissa⟩
  · rw [if_neg hexponent] at h
    by_cases hzero : Float.Model.UnpackedFloat.unpackExponent bits = 0
    · rw [if_pos hzero] at h
      by_cases hmantissa : Float.Model.UnpackedFloat.unpackMantissa bits = 0
      · rw [dif_pos hmantissa] at h
        cases h
      · rw [dif_neg hmantissa] at h
        cases h
    · rw [if_neg hzero] at h
      cases h

/-- There is one value that is no number. -/
theorem eq_of_isNaN {first second : Float} (hfirst : first.isNaN = true)
    (hsecond : second.isNaN = true) : first = second := by
  have hbits (value : Float) (h : value.isNaN = true) :
      value.toModel.toBits.toBitVec =
        Float.Model.UnpackedFloat.packedNaN Float.Model.Format.binary64 := by
    obtain ⟨hexponent, hmantissa⟩ := exponent_mantissa_of_unpack h
    exact value.toModel.valid.eq_packedNaN hexponent hmantissa
  apply eq_of_toBits_eq
  exact UInt64.toBitVec_inj.1 ((hbits first hfirst).trans (hbits second hsecond).symm)

theorem sameNumber_iff (first second : Float) :
    sameNumber first second = true ↔ first = second := by
  constructor
  · intro h
    simp only [sameNumber, Bool.or_eq_true, Bool.and_eq_true, beq_iff_eq] at h
    rcases h with ⟨hfirst, hsecond⟩ | h
    · exact eq_of_isNaN hfirst hsecond
    · exact eq_of_toBits_eq h
  · rintro rfl
    simp [sameNumber]

/-- Two values are the same exactly if they are equal. -/
@[simp] theorem Value.same_iff (first second : Value) :
    first.same second = true ↔ first = second := by
  cases first <;> cases second <;> simp [Value.same, sameNumber_iff]

/-- So equality of values can be decided. -/
instance : DecidableEq Value :=
  fun first second => decidable_of_iff (first.same second = true) (Value.same_iff first second)

end ModuleLinkage.Ledger
