import PdfCanvas.Proofs.Decimal.Operands

/-!
# The order of operands

Of two numbers the greater one is not printed as the smaller numeral, though one may be printed as a numeral that
is read back and the other as its rounded exact value. A point of the grid that is read as a smaller number is
smaller than the exact value of a greater one, and a grid point below a value is not above the rounded value.
-/

namespace PdfCanvas

namespace FloatFormat

variable {format : FloatFormat} {places code other : Nat}

theorem lt_of_encode_lt {p q : Rat} (nonneg : 0 ≤ q) (less : format.encode p < format.encode q) : p < q := by
  by_contra notLess
  exact absurd (format.encode_mono nonneg (not_lt.mp notLess)) (Nat.not_le.mpr less)

/-- Of two codes the greater one is not printed as the smaller magnitude. -/
theorem Prints.mono {p q : Rat} (finite : other < format.infinityCode) (less : code < other)
    (first : format.Prints places code p) (second : format.Prints places other q) : p ≤ q := by
  have scale : 0 < (10 : Rat) ^ places := pow_pos (by norm_num) places
  have point (n : Nat) : (0 : Rat) ≤ n / (10 : Rat) ^ places := div_nonneg (Nat.cast_nonneg n) scale.le
  have ownCode := encode_magnitude (less.trans finite)
  have ownOther := encode_magnitude finite
  cases first with
  | @short units readsBack =>
    cases second with
    | @short units' readsBack' =>
      rw [← readsBack, ← readsBack'] at less
      exact (lt_of_encode_lt (point _) less).le
    | rounded =>
      rw [← readsBack, ← ownOther] at less
      have below := (lt_of_encode_lt (format.magnitude_nonneg _) less).le
      rw [div_le_iff₀ scale] at below
      have rounded : (units : Int) ≤ roundEven (format.magnitude other * (10 : Rat) ^ places) :=
        roundEven_mono_of_le below
      exact div_le_div_of_nonneg_right (by exact_mod_cast rounded) scale.le
  | rounded =>
    cases second with
    | @short units readsBack =>
      rw [← ownCode, ← readsBack] at less
      have above := (lt_of_encode_lt (point _) less).le
      rw [le_div_iff₀ scale] at above
      have rounded : roundEven (format.magnitude code * (10 : Rat) ^ places) ≤ (units : Int) :=
        roundEven_le above
      exact div_le_div_of_nonneg_right (by exact_mod_cast rounded) scale.le
    | rounded =>
      have scaled := mul_le_mul_of_nonneg_right (format.magnitude_mono less.le) scale.le
      have rounded := roundEven_mono scaled
      exact div_le_div_of_nonneg_right (by exact_mod_cast rounded) scale.le

theorem Prints.eq_or_le {p q : Rat} (finite : code < format.infinityCode)
    (otherFinite : other < format.infinityCode) (le : format.magnitude code ≤ format.magnitude other)
    (first : format.Prints places code p) (second : format.Prints places other q) : code = other ∨ p ≤ q := by
  have codes := le_of_magnitude_le finite otherFinite le
  exact codes.eq_or_lt.imp_right fun less => first.mono otherFinite less second

theorem eq_zero_of_magnitude_le (finite : code < format.infinityCode) (none : format.magnitude code ≤ 0) :
    code = 0 := by
  rw [← format.magnitude_zero] at none
  exact Nat.le_zero.mp (le_of_magnitude_le finite (Nat.zero_lt_of_lt finite) none)

end FloatFormat

namespace Floating

variable {format : FloatFormat}

theorem exists_signed {x : Floating format} {value : Rat} (isValue : x.toRat? = some value) :
    ∃ negative code, x = signed negative code ∧ code.val < format.infinityCode ∧
      value = if negative then -format.magnitude code.val else format.magnitude code.val := by
  cases x with
  | nan => cases isValue
  | signed negative code =>
    rw [toRat?] at isValue
    split at isValue
    next finite => exact ⟨negative, code, rfl, finite, (Option.some.inj isValue).symm⟩
    next => cases isValue

/-- Numbers are printed in their order: the numeral of a number that is not greater does not denote a greater
rational. -/
theorem operands_keep_order {x y : Single} {a b : Rat} (isX : x.toRat? = some a) (isY : y.toRat? = some b)
    (le : a ≤ b) (places : Nat) : ∃ first second, x.operand? places = some first ∧ y.operand? places = some second ∧
      first.toRat ≤ second.toRat := by
  obtain ⟨s, i, rfl, finiteX, rfl⟩ := exists_signed isX
  obtain ⟨t, j, rfl, finiteY, rfl⟩ := exists_signed isY
  obtain ⟨d, printedX, signX, _, _, printsX⟩ := exists_operand s finiteX places
  obtain ⟨e, printedY, signY, _, _, printsY⟩ := exists_operand t finiteY places
  refine ⟨_, _, printedX, printedY, ?_⟩
  by_cases same : (signed s i).operand? places = (signed t j).operand? places
  · rw [printedX, printedY, Option.some.injEq] at same
    rw [same]
  -- What is printed alike is settled, so in each case below the two codes differ.
  rw [d.toRat_unsignedZero, e.toRat_unsignedZero, Decimal.toRat, Decimal.toRat, signX, signY]
  have nonnegX := d.magnitude_nonneg
  have nonnegY := e.magnitude_nonneg
  cases s with
  | false =>
    cases t with
    | false =>
      simp only [Bool.false_eq_true, if_false] at le ⊢
      exact (printsX.eq_or_le finiteX finiteY le printsY).resolve_left fun equal => same (by rw [Fin.ext equal])
    | true =>
      -- Only of two zeros can the one with the sign be the greater.
      simp only [Bool.false_eq_true, if_false, if_true] at le
      have zeroX := FloatFormat.eq_zero_of_magnitude_le finiteX
        (by linarith [FloatFormat.single.magnitude_nonneg j.val])
      have zeroY := FloatFormat.eq_zero_of_magnitude_le finiteY
        (by linarith [FloatFormat.single.magnitude_nonneg i.val])
      obtain rfl : i = 0 := Fin.ext zeroX
      obtain rfl : j = 0 := Fin.ext zeroY
      exact absurd ((operand?_zero finiteX _ _).trans (operand?_zero finiteY _ _).symm) same
  | true =>
    cases t with
    | false =>
      simp only [Bool.false_eq_true, if_false, if_true] at le ⊢
      linarith
    | true =>
      simp only [if_true, neg_le_neg_iff] at le ⊢
      exact (printsY.eq_or_le finiteY finiteX le printsX).resolve_left fun equal => same (by rw [Fin.ext equal])

theorem tenth_and_next_keep_order :
    (ofBits 0x3DCCCCCD : Single).toRat? = some (13421773 / 134217728) ∧
    (ofBits 0x3DCCCCCE : Single).toRat? = some (13421774 / 134217728) ∧
    ∃ first second, (ofBits 0x3DCCCCCD : Single).operand? 3 = some first ∧
      (ofBits 0x3DCCCCCE : Single).operand? 3 = some second ∧ first.toRat ≤ second.toRat := by
  have tenth : (ofBits 0x3DCCCCCD : Single).toRat? = some (13421773 / 134217728) := by decide +kernel
  have next : (ofBits 0x3DCCCCCE : Single).toRat? = some (13421774 / 134217728) := by decide +kernel
  exact ⟨tenth, next, operands_keep_order tenth next (by norm_num) 3⟩

end Floating

end PdfCanvas
