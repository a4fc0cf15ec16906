import Mathlib.Data.Nat.Prime.Basic
import PdfCanvas.Decimal
import PdfCanvas.Proofs.Rounding

/-!
# The shortest numeral

The numbers that are read as a given one lie next to each other, so a decimal grid that holds any of them
holds one of the two neighbours of the exact value. That is why trying the two neighbours on one grid after
the other ends with a numeral that has as few places as any that is read back.
-/

namespace PdfCanvas

theorem ten_zpow_pos (n : Int) : 0 < (10 : Rat) ^ n := zpow_pos (by norm_num) n

namespace Floating

variable {format : FloatFormat} {code : Nat}

/-! ## One grid -/

theorem encode_gridPoint {places : Int} {units : Nat} (found : gridPoint? format code places = some units) :
    format.encode (units / (10 : Rat) ^ places) = code := by
  unfold gridPoint? at found
  dsimp only at found
  split at found
  next first second =>
    simp only [decide_eq_true_eq] at first second
    split at found
    · cases found
      exact first
    · cases found
      exact second
  next first _ =>
    cases found
    simpa using first
  next _ second =>
    cases found
    simpa using second
  next => cases found

/-- A grid that holds a point which reads back as a finite number is not passed over. -/
theorem gridPoint?_ne_none {places : Int} {units : Nat} (finite : code < format.infinityCode)
    (readsBack : format.encode (units / (10 : Rat) ^ places) = code) : gridPoint? format code places ≠ none := by
  have scale := ten_zpow_pos places
  have point (n : Nat) : (0 : Rat) ≤ n / (10 : Rat) ^ places := div_nonneg (Nat.cast_nonneg n) scale.le
  set scaled := format.magnitude code * (10 : Rat) ^ places with isScaled
  have nonneg : 0 ≤ scaled := mul_nonneg (format.magnitude_nonneg code) scale.le
  have neighbour : format.encode (⌊scaled⌋₊ / (10 : Rat) ^ places) = code ∨
      format.encode ((⌊scaled⌋₊ + 1 : Nat) / (10 : Rat) ^ places) = code := by
    rcases Nat.lt_or_ge ⌊scaled⌋₊ units with above | below
    · right
      refine FloatFormat.encode_of_between finite (point _) readsBack (.inl ⟨?_, ?_⟩) (point _)
      · rw [le_div_iff₀ scale, ← isScaled]
        exact_mod_cast (Nat.lt_floor_add_one scaled).le
      · exact div_le_div_of_nonneg_right (by exact_mod_cast above) scale.le
    · left
      refine FloatFormat.encode_of_between finite (point _) readsBack (.inr ⟨?_, ?_⟩) (point _)
      · exact div_le_div_of_nonneg_right (by exact_mod_cast below) scale.le
      · rw [div_le_iff₀ scale, ← isScaled]
        exact Nat.floor_le nonneg
  intro missed
  unfold gridPoint? at missed
  dsimp only at missed
  split at missed
  next => split at missed <;> cases missed
  next => cases missed
  next => cases missed
  next first second =>
    simp only [decide_eq_false_iff_not] at first second
    exact neighbour.elim first second

/-! ## The search -/

theorem den_magnitude (format : FloatFormat) (code : Nat) : ∃ n, (format.magnitude code).den = 2 ^ n := by
  obtain ⟨k, steps, rfl, most, normal⟩ := format.exists_steps code
  rw [FloatFormat.magnitude_steps most.le normal]
  rcases Int.eq_nat_or_neg (format.leastExponent + k) with ⟨n, whole | fraction⟩
  · refine ⟨0, ?_⟩
    rw [whole, two_zpow_natCast, ← Nat.cast_mul, Rat.den_natCast, Nat.pow_zero]
  · rw [fraction, zpow_neg, ← div_eq_mul_inv, two_zpow_natCast]
    have divides := Rat.den_dvd steps (2 ^ n : Nat)
    rw [Rat.divInt_eq_div, Int.cast_natCast, Int.cast_natCast] at divides
    obtain ⟨exponent, _, power⟩ := (Nat.dvd_prime_pow Nat.prime_two).mp (Int.natCast_dvd_natCast.mp divides)
    exact ⟨exponent, power⟩

/-- With as many places as the denominator has factors of two, a magnitude is a whole number of units. -/
theorem exists_exact (format : FloatFormat) (code : Nat) :
    ∃ units : Nat, format.magnitude code * (10 : Rat) ^ ((format.magnitude code).den.log2 : Int) = units := by
  obtain ⟨n, power⟩ := den_magnitude format code
  set value := format.magnitude code with isValue
  have whole : ((value.num.natAbs : Int) : Rat) = value.num := by
    rw [Int.natAbs_of_nonneg (Rat.num_nonneg.mpr (format.magnitude_nonneg code))]
  refine ⟨value.num.natAbs * 5 ^ n, ?_⟩
  rw [power, Nat.log2_two_pow, zpow_natCast]
  have two : (value.den : Rat) = 2 ^ n := by exact_mod_cast power
  calc value * 10 ^ n = value * value.den * 5 ^ n := by
        rw [two, mul_assoc, ← mul_pow]
        norm_num
    _ = (value.num.natAbs * 5 ^ n : Nat) := by
        rw [Rat.mul_den_eq_num, Nat.cast_mul, ← Int.cast_natCast value.num.natAbs, whole, Nat.cast_pow,
          Nat.cast_ofNat]

/-- A search through the numbers from zero on ends at the first that has a result. -/
theorem least_of_findSome?_range {α : Type} {f : Nat → Option α} {n : Nat} {result : α}
    (searched : (List.range n).findSome? f = some result) : ∃ i, f i = some result ∧ ∀ j < i, f j = none := by
  obtain ⟨front, i, back, range, found, missed⟩ := List.findSome?_eq_some_iff.mp searched
  refine ⟨i, found, fun j before => ?_⟩
  have sorted : (List.range n).Pairwise (· < ·) := List.pairwise_lt_range
  rw [range, List.pairwise_append, List.pairwise_cons] at sorted
  have inside : i < n := List.mem_range.mp (range ▸ List.mem_append_right front List.mem_cons_self)
  have member : j ∈ front ++ i :: back := range ▸ List.mem_range.mpr (before.trans inside)
  rcases List.mem_append.mp member with tried | later
  · exact missed j tried
  · rcases List.mem_cons.mp later with rfl | behind
    · exact absurd before (Nat.lt_irrefl j)
    · exact absurd (sorted.2.1.1 j behind) (Nat.lt_asymm before)

theorem encode_shortestUnits (finite : code < format.infinityCode) :
    format.encode ((shortestUnits format code).1 / (10 : Rat) ^ (shortestUnits format code).2) = code := by
  unfold shortestUnits
  dsimp only
  split
  next found searched =>
    obtain ⟨step, _, attempt⟩ := List.exists_of_findSome?_eq_some searched
    obtain ⟨units, isPoint, rfl⟩ := Option.map_eq_some_iff.mp attempt
    exact encode_gridPoint isPoint
  next =>
    obtain ⟨units, exact⟩ := exists_exact format code
    have floor : (Rat.floor (units : Rat)).toNat = units := by
      change ⌊(units : Rat)⌋.toNat = units
      rw [Int.floor_natCast, Int.toNat_natCast]
    rw [exact, floor, ← exact, mul_div_cancel_right₀ _ (ten_zpow_pos _).ne',
      FloatFormat.encode_magnitude finite]

/-- No point of a grid with fewer places reads back. -/
theorem encode_ne_of_lt_shortestUnits (finite : code < format.infinityCode) {coarser : Nat}
    (fewer : coarser < (shortestUnits format code).2) (units : Nat) :
    format.encode (units / (10 : Rat) ^ coarser) ≠ code := by
  intro readsBack
  rw [← zpow_natCast] at readsBack
  have onGrid := gridPoint?_ne_none finite readsBack
  unfold shortestUnits at fewer
  dsimp only at fewer
  set coarsest := (Nat.toDigits 10 (format.magnitude code).ceil.toNat).length
  have missed (step : Nat) (attempt : (gridPoint? format code (step - coarsest)).map
      (·, (step - coarsest : Int)) = none) : step ≠ coarser + coarsest := by
    rintro rfl
    rw [Nat.cast_add, add_sub_cancel_right, Option.map_eq_none_iff] at attempt
    exact onGrid attempt
  split at fewer
  next found searched =>
    obtain ⟨step, attempt, first⟩ := least_of_findSome?_range searched
    obtain ⟨_, _, rfl⟩ := Option.map_eq_some_iff.mp attempt
    exact missed _ (first _ (by omega)) rfl
  next searched =>
    refine missed _ (List.findSome?_eq_none_iff.mp searched _ (List.mem_range.mpr ?_)) rfl
    omega

end Floating

/-! ## The numeral -/

namespace Decimal

/-- The fraction of a numeral does not end with a zero. -/
def IsTrimmed (d : Decimal) : Prop := 0 < d.places → d.units % 10 ≠ 0

/-- A numeral is read as a code, and none with fewer places is. -/
structure IsShortest (d : Decimal) (format : FloatFormat) (code : Nat) : Prop where
  readsBack : format.encode d.magnitude = code
  least : ∀ coarser < d.places, ∀ units : Nat, format.encode (units / (10 : Rat) ^ coarser) ≠ code

variable {format : FloatFormat} {code : Nat} {d : Decimal}

theorem magnitude_nonneg (d : Decimal) : 0 ≤ d.magnitude :=
  div_nonneg (Nat.cast_nonneg _) (pow_nonneg (by norm_num) _)

/-- A zero at the end of the fraction counts for nothing. -/
theorem magnitude_succ (negative : Bool) {units : Nat} (places : Nat) (zero : units % 10 = 0) :
    magnitude ⟨negative, units, places + 1⟩ = magnitude ⟨negative, units / 10, places⟩ := by
  have whole : (units : Rat) = (units / 10 : Nat) * 10 := by
    exact_mod_cast (Nat.div_mul_cancel (Nat.dvd_of_mod_eq_zero zero)).symm
  rw [magnitude, magnitude, whole, pow_succ, mul_div_mul_right _ _ (by norm_num)]

theorem IsShortest.isTrimmed (shortest : d.IsShortest format code) : d.IsTrimmed := by
  obtain ⟨negative, units, places⟩ := d
  intro hasPlaces zero
  obtain ⟨fewer, rfl⟩ := Nat.exists_eq_add_one_of_ne_zero hasPlaces.ne'
  have readsBack := shortest.readsBack
  rw [magnitude_succ negative fewer zero] at readsBack
  exact shortest.least fewer (Nat.lt_add_one fewer) _ readsBack

theorem magnitude_ofUnits (negative : Bool) (units : Nat) (places : Int) :
    (ofUnits negative units places).magnitude = units / (10 : Rat) ^ places := by
  rw [ofUnits, magnitude]
  rcases Int.eq_nat_or_neg places with ⟨n, rfl | rfl⟩
  · rw [Int.toNat_natCast, Int.toNat_neg_natCast, zpow_natCast, Nat.pow_eq, Nat.pow_zero, Nat.mul_one]
  · rw [Int.neg_neg, Int.toNat_natCast, Int.toNat_neg_natCast, zpow_neg, zpow_natCast, div_inv_eq_mul,
      Nat.pow_eq, pow_zero, div_one]
    push_cast
    rfl

end Decimal

namespace Floating

variable {format : FloatFormat} {code : Fin (format.infinityCode + 1)}

theorem exists_shortest (negative : Bool) (finite : code.val < format.infinityCode) :
    ∃ d, (signed negative code).shortest? = some d ∧ d.negative = negative ∧
      d.IsShortest format code.val := by
  rw [shortest?, if_pos finite]
  split
  next zero =>
    rw [zero]
    refine ⟨_, rfl, rfl, ?_, fun _ fewer => absurd fewer (Nat.not_lt_zero _)⟩
    rw [Decimal.magnitude, Nat.cast_zero, zero_div, FloatFormat.encode_zero]
  next =>
    refine ⟨_, rfl, rfl, ?_, fun coarser fewer units => ?_⟩
    · rw [Decimal.magnitude_ofUnits]
      exact encode_shortestUnits finite
    · exact encode_ne_of_lt_shortestUnits finite (Int.lt_toNat.mp fewer) units

end Floating

end PdfCanvas
