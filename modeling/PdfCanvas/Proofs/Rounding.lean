import PdfCanvas.Proofs.Floating

/-!
# The order of rounding

A greater rational is never rounded to a smaller number, and the magnitude of a finite code is encoded as this
code. So what lies between two rationals that are read as the same number is read as this number too.
-/

namespace PdfCanvas

theorem roundEven_mono {p q : Rat} (le : p ≤ q) : roundEven p ≤ roundEven q := by
  rcases (Int.floor_mono le).eq_or_lt with same | less
  · rw [roundEven_eq, roundEven_eq, same]
    split_ifs <;> first | omega | linarith
  · have next : p ≤ (⌊p⌋ + 1 : Int) := by
      push_cast
      exact (Int.lt_floor_add_one p).le
    calc roundEven p ≤ ⌊p⌋ + 1 := roundEven_le next
      _ ≤ ⌊q⌋ := less
      _ ≤ roundEven q := roundEven_mono_of_le (Int.floor_le q)

theorem le_floorLog2 {q : Rat} {n : Int} (positive : 0 < q) (reached : 2 ^ n ≤ q) : n ≤ floorLog2 q := by
  have above := (floorLog2_bounds positive).2
  by_contra less
  exact absurd (two_zpow_le (Int.add_one_le_iff.mpr (not_le.mp less))) (not_le.mpr (reached.trans_lt above))

namespace FloatFormat

variable (format : FloatFormat)

theorem stepExponent_mono {p q : Rat} (positive : 0 < p) (le : p ≤ q) :
    format.stepExponent p ≤ format.stepExponent q := by
  have further := le_floorLog2 (positive.trans_le le) ((floorLog2_bounds positive).1.trans le)
  exact max_le_max_left _ (Int.sub_le_sub_right further _)

theorem encode_zero : format.encode 0 = 0 := if_pos rfl

theorem magnitude_zero : format.magnitude 0 = 0 := by simp [magnitude]

/-- A greater rational is not encoded below a smaller one. -/
theorem encode_mono {p q : Rat} (nonneg : 0 ≤ p) (le : p ≤ q) : format.encode p ≤ format.encode q := by
  rcases nonneg.eq_or_lt with rfl | positive
  · rw [encode_zero]
    exact Nat.zero_le _
  · obtain ⟨_, mostP, _⟩ := format.steps_bounds positive
    obtain ⟨_, _, normalQ⟩ := format.steps_bounds (positive.trans_le le)
    rw [encode_of_pos positive, encode_of_pos (positive.trans_le le)]
    refine min_le_min_left _ ?_
    rcases (format.stepExponent_mono positive le).eq_or_lt with same | less
    · have step := two_zpow_pos (format.stepExponent q)
      have further := roundEven_mono (div_le_div_of_nonneg_right le step.le)
      rw [same]
      omega
    · -- The steps of the greater one are wider, and so many of them reach beyond all narrower steps.
      have least : format.leastExponent ≤ format.stepExponent p := le_max_left _ _
      obtain ⟨k, wider⟩ : ∃ k : Nat, (format.stepExponent q - format.leastExponent).toNat =
          (format.stepExponent p - format.leastExponent).toNat + 1 + k := ⟨_, by
        rw [Nat.add_sub_of_le]
        omega⟩
      rw [wider, Nat.add_mul, Nat.add_mul, Nat.one_mul]
      have many := normalQ.resolve_left (by omega)
      have most : (roundEven (p / 2 ^ format.stepExponent p)).toNat ≤ 2 * format.fractions := by omega
      omega

variable {format}

theorem stepExponent_of_steps {k steps : Nat} (some : 0 < steps) (most : steps < 2 * format.fractions)
    (normal : k = 0 ∨ format.fractions ≤ steps) :
    format.stepExponent (steps * (2 : Rat) ^ (format.leastExponent + k)) = format.leastExponent + k := by
  have step := two_zpow_pos (format.leastExponent + k)
  have positive : 0 < steps * (2 : Rat) ^ (format.leastExponent + k) :=
    mul_pos (by exact_mod_cast some) step
  have above : (steps : Rat) * 2 ^ (format.leastExponent + k) <
      2 ^ (format.fractionBits + 1 + (format.leastExponent + k) : Int) := by
    rw [two_zpow_add (format.fractionBits + 1), two_zpow_add format.fractionBits, zpow_one, ← cast_fractions]
    refine mul_lt_mul_of_pos_right ?_ step
    rw [mul_comm]
    exact_mod_cast most
  have less := floorLog2_lt positive above
  have lower : format.leastExponent + k ≤ format.stepExponent (steps * 2 ^ (format.leastExponent + k)) := by
    rcases normal with rfl | normal
    · rw [Nat.cast_zero, add_zero]
      exact le_max_left _ _
    · have reached : (2 : Rat) ^ (format.fractionBits + (format.leastExponent + k) : Int) ≤
          steps * 2 ^ (format.leastExponent + k) := by
        rw [two_zpow_add format.fractionBits, ← cast_fractions]
        exact mul_le_mul_of_nonneg_right (by exact_mod_cast normal) step.le
      have reachedLog := le_floorLog2 positive reached
      exact le_max_of_le_right (by omega)
  refine le_antisymm (max_le (by omega) (by omega)) lower

/-- A finite number is read back from its own magnitude. -/
theorem encode_magnitude {code : Nat} (finite : code < format.infinityCode) :
    format.encode (format.magnitude code) = code := by
  obtain ⟨k, steps, rfl, most, normal⟩ := format.exists_steps code
  rw [magnitude_steps most.le normal]
  rcases Nat.eq_zero_or_pos steps with rfl | some
  · obtain rfl : k = 0 := normal.resolve_right (by have := format.fractions_pos; omega)
    simp [encode_zero]
  · have step := two_zpow_pos (format.leastExponent + k)
    have exponent := stepExponent_of_steps some most normal
    have counted : (steps : Rat) * 2 ^ (format.leastExponent + k) / 2 ^ (format.leastExponent + k) =
        (steps : Int) := by
      rw [mul_div_cancel_right₀ _ step.ne', Int.cast_natCast]
    rw [encode_of_pos (mul_pos (by exact_mod_cast some) step), exponent, counted, roundEven_intCast,
      add_sub_cancel_left, Int.toNat_natCast, Int.toNat_natCast]
    exact min_eq_right finite.le

theorem le_of_magnitude_le {code other : Nat} (finite : code < format.infinityCode)
    (otherFinite : other < format.infinityCode) (le : format.magnitude code ≤ format.magnitude other) :
    code ≤ other := by
  have encoded := format.encode_mono (format.magnitude_nonneg code) le
  rwa [encode_magnitude finite, encode_magnitude otherFinite] at encoded

/-- What lies between a magnitude and something that is read as its code is read as this code too. -/
theorem encode_of_between {code : Nat} (finite : code < format.infinityCode) {p q : Rat} (nonneg : 0 ≤ p)
    (readsBack : format.encode q = code)
    (between : format.magnitude code ≤ p ∧ p ≤ q ∨ q ≤ p ∧ p ≤ format.magnitude code) (nonnegQ : 0 ≤ q) :
    format.encode p = code := by
  have own := encode_magnitude finite
  rcases between with ⟨above, below⟩ | ⟨above, below⟩
  · have low := format.encode_mono (format.magnitude_nonneg code) above
    have high := format.encode_mono nonneg below
    omega
  · have low := format.encode_mono nonnegQ above
    have high := format.encode_mono nonneg below
    omega

end FloatFormat

end PdfCanvas
