import Mathlib.Algebra.Order.Field.Rat
import Mathlib.Data.Rat.Floor
import Mathlib.Tactic.FieldSimp
import Mathlib.Tactic.Linarith
import Mathlib.Tactic.Positivity
import Mathlib.Tactic.Ring
import PdfCanvas.Floating

/-!
# Rounding errors

A rational is counted in steps of a power of two and rounded to a whole number of them, so it is off by half a
step at most, and not at all if it is a whole number of steps. The finite numbers with the positive sign are
looked at as the rationals that they are; a sum, a product or a quotient of them is the rounded one of these
rationals.
-/

namespace PdfCanvas

/-! ## Rounding to integers -/

theorem roundEven_eq (q : Rat) : roundEven q =
    if q - ⌊q⌋ < 1 / 2 then ⌊q⌋
    else if 1 / 2 < q - ⌊q⌋ then ⌊q⌋ + 1
    else if ⌊q⌋ % 2 = 0 then ⌊q⌋ else ⌊q⌋ + 1 :=
  rfl

theorem abs_roundEven_sub_le (q : Rat) : |(roundEven q : Rat) - q| ≤ 1 / 2 := by
  have low := Int.floor_le q
  have high := Int.lt_floor_add_one q
  rw [roundEven_eq, abs_le]
  split_ifs <;> push_cast <;> constructor <;> linarith

theorem roundEven_intCast (z : Int) : roundEven z = z := by
  rw [roundEven_eq, Int.floor_intCast, if_pos (by norm_num)]

theorem roundEven_mono_of_le {q : Rat} {z : Int} (least : (z : Rat) ≤ q) : z ≤ roundEven q := by
  have floor : z ≤ ⌊q⌋ := Int.le_floor.mpr least
  rw [roundEven_eq]
  split_ifs <;> omega

theorem roundEven_le {q : Rat} {z : Int} (most : q ≤ z) : roundEven q ≤ z := by
  have near := abs_le.mp (abs_roundEven_sub_le q)
  have less : (roundEven q : Rat) < z + 1 := by linarith
  exact Int.lt_add_one_iff.mp (by exact_mod_cast less)

/-- What is less than a half away from an integer is rounded to it. -/
theorem roundAway_eq {q : Rat} {n : Nat} (nonneg : 0 ≤ q) (near : |q - n| < 1 / 2) :
    roundAway q = n := by
  rw [roundAway, if_pos nonneg]
  obtain ⟨low, high⟩ := abs_lt.mp near
  show ⌊q + 1 / 2⌋ = (n : Int)
  rw [Int.floor_eq_iff, Int.cast_natCast]
  constructor <;> linarith

/-! ## Exponents -/

theorem two_zpow_pos (n : Int) : 0 < (2 : Rat) ^ n := zpow_pos (by norm_num) n

theorem two_zpow_le {m n : Int} (le : m ≤ n) : (2 : Rat) ^ m ≤ 2 ^ n :=
  zpow_le_zpow_right₀ (by norm_num) le

theorem two_zpow_add (m n : Int) : (2 : Rat) ^ (m + n) = 2 ^ m * 2 ^ n := zpow_add₀ (by norm_num) m n

theorem two_zpow_natCast (n : Nat) : (2 : Rat) ^ (n : Int) = (2 ^ n : Nat) := by
  rw [zpow_natCast, Nat.cast_pow, Nat.cast_ofNat]

theorem log2_bounds {n : Nat} (positive : n ≠ 0) :
    (2 : Rat) ^ (n.log2 : Int) ≤ n ∧ (n : Rat) < 2 ^ (n.log2 + 1 : Int) := by
  have high : n < 2 ^ (n.log2 + 1) := Nat.lt_log2_self
  have split : (2 : Rat) ^ (n.log2 + 1 : Int) = (2 ^ (n.log2 + 1) : Nat) := two_zpow_natCast _
  rw [two_zpow_natCast, split]
  exact ⟨by exact_mod_cast Nat.log2_self_le positive, by exact_mod_cast high⟩

theorem floorLog2_bounds {q : Rat} (positive : 0 < q) :
    (2 : Rat) ^ floorLog2 q ≤ q ∧ q < 2 ^ (floorLog2 q + 1) := by
  have num : q.num.natAbs ≠ 0 := Int.natAbs_ne_zero.mpr (Rat.num_pos.mpr positive).ne'
  have den : (0 : Rat) < q.den := by exact_mod_cast q.den_pos
  have quotient : q = q.num.natAbs / q.den := by
    have whole : ((q.num.natAbs : Int) : Rat) = q.num := by
      rw [Int.natAbs_of_nonneg (Rat.num_nonneg.mpr positive.le)]
    rw [← Int.cast_natCast, whole, Rat.num_div_den]
  obtain ⟨lowNum, highNum⟩ := log2_bounds num
  obtain ⟨lowDen, highDen⟩ := log2_bounds q.den_ne_zero
  set guess : Int := (q.num.natAbs.log2 : Int) - q.den.log2 with isGuess
  have upper : q < 2 ^ (guess + 1) := by
    have split : (2 : Rat) ^ (q.num.natAbs.log2 + 1 : Int) = 2 ^ (guess + 1) * 2 ^ (q.den.log2 : Int) := by
      rw [← two_zpow_add, isGuess]
      congr 1
      ring
    have wide := mul_le_mul_of_nonneg_left lowDen (two_zpow_pos (guess + 1)).le
    rw [quotient, div_lt_iff₀ den]
    linarith
  have lower : (2 : Rat) ^ (guess - 1) ≤ q := by
    have split : (2 : Rat) ^ (q.num.natAbs.log2 : Int) =
        2 ^ (guess - 1) * 2 ^ (q.den.log2 + 1 : Int) := by
      rw [← two_zpow_add, isGuess]
      congr 1
      ring
    have narrow := mul_le_mul_of_nonneg_left highDen.le (two_zpow_pos (guess - 1)).le
    rw [quotient, le_div_iff₀ den]
    linarith
  rw [floorLog2, ← isGuess]
  split
  next reached => exact ⟨reached, upper⟩
  next notReached =>
    rw [Int.sub_add_cancel]
    exact ⟨lower, not_le.mp notReached⟩

theorem floorLog2_lt {q : Rat} {n : Int} (positive : 0 < q) (below : q < 2 ^ n) : floorLog2 q < n := by
  have reached := (floorLog2_bounds positive).1.trans_lt below
  by_contra more
  exact absurd (two_zpow_le (not_lt.mp more)) (not_le.mpr reached)

/-! ## Codes -/

namespace FloatFormat

variable (format : FloatFormat)

theorem fractions_pos : 0 < format.fractions := by
  rw [fractions, Nat.one_shiftLeft]
  exact Nat.two_pow_pos _

theorem cast_fractions : (format.fractions : Rat) = 2 ^ (format.fractionBits : Int) := by
  rw [two_zpow_natCast, fractions, Nat.one_shiftLeft]

variable {format}

/-- The magnitude of a code of so many steps, which a step more or less in the exponent does not change. -/
theorem magnitude_steps {k steps : Nat} (most : steps ≤ 2 * format.fractions)
    (normal : k = 0 ∨ format.fractions ≤ steps) :
    format.magnitude (k * format.fractions + steps) = steps * (2 : Rat) ^ (format.leastExponent + k) := by
  have positive := format.fractions_pos
  rw [magnitude, Nat.add_comm, Nat.add_mul_div_right _ _ positive, Nat.add_mul_mod_self_right]
  rcases Nat.lt_or_ge steps format.fractions with less | more
  · obtain rfl : k = 0 := normal.resolve_right (Nat.not_le.mpr less)
    rw [Nat.div_eq_of_lt less, Nat.mod_eq_of_lt less, if_pos rfl, Nat.cast_zero, add_zero]
  · rcases Nat.lt_or_ge steps (2 * format.fractions) with below | above
    · have one : steps / format.fractions = 1 := by
        rw [Nat.div_eq_iff positive]
        omega
      have rest : format.fractions + steps % format.fractions = steps := by
        have whole := Nat.div_add_mod steps format.fractions
        rwa [one, Nat.mul_one] at whole
      rw [one, if_neg (by omega), rest]
      congr 2
      push_cast
      ring
    · -- one step more has led to the next exponent
      obtain rfl : steps = 2 * format.fractions := Nat.le_antisymm most above
      rw [Nat.mul_div_cancel _ positive, Nat.mul_mod_left, if_neg (by omega), Nat.add_zero]
      have next : format.leastExponent + (2 + k : Nat) - 1 = format.leastExponent + k + 1 := by
        push_cast
        ring
      rw [next, two_zpow_add _ 1]
      push_cast
      ring

theorem magnitude_nonneg (code : Nat) : 0 ≤ format.magnitude code := by
  rw [magnitude]
  split <;> exact mul_nonneg (Nat.cast_nonneg _) (two_zpow_pos _).le

/-- Every code is that of some steps of its exponent. -/
theorem exists_steps (code : Nat) : ∃ k steps, code = k * format.fractions + steps ∧
    steps < 2 * format.fractions ∧ (k = 0 ∨ format.fractions ≤ steps) := by
  have positive := format.fractions_pos
  rcases Nat.lt_or_ge code (2 * format.fractions) with less | more
  · exact ⟨0, code, by omega, less, .inl rfl⟩
  · have split := Nat.div_add_mod code format.fractions
    have rest := Nat.mod_lt code positive
    have one : 1 ≤ code / format.fractions := by
      rw [Nat.le_div_iff_mul_le positive]
      omega
    obtain ⟨k, isNext⟩ : ∃ k, code / format.fractions = k + 1 := ⟨_, (Nat.sub_add_cancel one).symm⟩
    refine ⟨k, format.fractions + code % format.fractions, ?_, by omega, .inr (by omega)⟩
    rw [isNext, Nat.mul_add_one, Nat.mul_comm] at split
    omega

/-- Magnitudes are ordered as their codes. -/
theorem magnitude_mono {code other : Nat} (le : code ≤ other) :
    format.magnitude code ≤ format.magnitude other := by
  induction other, le using Nat.le_induction with
  | base => exact le_rfl
  | succ other _ inductionHypothesis =>
    refine inductionHypothesis.trans ?_
    obtain ⟨k, steps, rfl, most, normal⟩ := format.exists_steps other
    rw [Nat.add_assoc, magnitude_steps most.le normal, magnitude_steps most (by omega)]
    have step := (two_zpow_pos (format.leastExponent + k)).le
    exact mul_le_mul_of_nonneg_right (by push_cast; linarith) step

/-- The exponent of the steps in which a rational is counted. -/
def stepExponent (format : FloatFormat) (q : Rat) : Int :=
  max format.leastExponent (floorLog2 q - format.fractionBits)

variable {q : Rat}

theorem steps_bounds (positive : 0 < q) :
    0 ≤ roundEven (q / 2 ^ format.stepExponent q) ∧
      roundEven (q / 2 ^ format.stepExponent q) ≤ 2 * format.fractions ∧
        (format.stepExponent q = format.leastExponent ∨
          (format.fractions : Int) ≤ roundEven (q / 2 ^ format.stepExponent q)) := by
  obtain ⟨low, high⟩ := floorLog2_bounds positive
  have step := two_zpow_pos (format.stepExponent q)
  refine ⟨?_, ?_, ?_⟩
  · exact roundEven_mono_of_le (by rw [Int.cast_zero]; exact (div_pos positive step).le)
  · apply roundEven_le
    have wide : (2 : Rat) ^ (floorLog2 q + 1) ≤ 2 ^ (format.fractionBits + 1 + format.stepExponent q) := by
      apply two_zpow_le
      rw [stepExponent]
      omega
    rw [two_zpow_add, two_zpow_add _ (format.stepExponent q), two_zpow_add _ 1, zpow_one,
      ← cast_fractions] at wide
    rw [two_zpow_add, zpow_one] at high
    rw [div_le_iff₀ step]
    push_cast
    linarith
  · rcases le_total (floorLog2 q - format.fractionBits) format.leastExponent with least | normal
    · exact .inl (max_eq_left least)
    · right
      apply roundEven_mono_of_le
      have exponent : format.stepExponent q = floorLog2 q - format.fractionBits := max_eq_right normal
      have whole : format.fractionBits + (floorLog2 q - format.fractionBits) = floorLog2 q := by ring
      rw [Int.cast_natCast, cast_fractions, le_div_iff₀ step, ← two_zpow_add, exponent, whole]
      exact low

theorem encode_of_pos (positive : 0 < q) : format.encode q = min format.infinityCode
    ((format.stepExponent q - format.leastExponent).toNat * format.fractions +
      (roundEven (q / 2 ^ format.stepExponent q)).toNat) :=
  if_neg positive.ne'

/-- A rational is encoded as so many steps, if it is not beyond the finite numbers. -/
theorem magnitude_encode (positive : 0 < q) (finite : format.encode q < format.infinityCode) :
    format.magnitude (format.encode q) =
      roundEven (q / 2 ^ format.stepExponent q) * (2 : Rat) ^ format.stepExponent q := by
  obtain ⟨nonneg, most, normal⟩ := format.steps_bounds positive
  have code : format.encode q =
      (format.stepExponent q - format.leastExponent).toNat * format.fractions +
        (roundEven (q / 2 ^ format.stepExponent q)).toNat := by
    rw [encode_of_pos positive] at finite ⊢
    exact min_eq_right (by omega)
  have least : format.leastExponent ≤ format.stepExponent q := le_max_left _ _
  have exponent : format.leastExponent + (format.stepExponent q - format.leastExponent).toNat =
      format.stepExponent q := by omega
  rw [code, magnitude_steps (by omega) (by omega), exponent]
  congr 1
  exact_mod_cast congrArg (Int.cast : Int → Rat) (Int.toNat_of_nonneg nonneg)

variable {n : Int}

theorem stepExponent_le (positive : 0 < q) (below : q < 2 ^ n)
    (normal : format.leastExponent + format.fractionBits < n) :
    format.stepExponent q ≤ n - 1 - format.fractionBits := by
  have less := floorLog2_lt positive below
  exact max_le (by omega) (by omega)

theorem encode_lt_infinityCode (positive : 0 < q) (below : q < 2 ^ n)
    (normal : format.leastExponent + format.fractionBits < n)
    (finite : n + 2 < format.leastExponent + format.fractionBits + (1 <<< format.exponentBits : Nat)) :
    format.encode q < format.infinityCode := by
  obtain ⟨_, most, _⟩ := format.steps_bounds positive
  have step := stepExponent_le positive below normal
  have exponents : (format.stepExponent q - format.leastExponent).toNat + 3 ≤
      1 <<< format.exponentBits - 1 := by omega
  have codes := Nat.mul_le_mul_right format.fractions exponents
  have positive := format.fractions_pos
  rw [encode_of_pos ‹0 < q›, infinityCode]
  rw [Nat.add_mul] at codes
  omega

/-- Rounding is off by half a step at most. -/
theorem abs_magnitude_encode_sub_le (positive : 0 < q) (below : q < 2 ^ n)
    (normal : format.leastExponent + format.fractionBits < n)
    (finite : format.encode q < format.infinityCode) :
    |format.magnitude (format.encode q) - q| ≤ 2 ^ (n - 2 - format.fractionBits) := by
  have step := two_zpow_pos (format.stepExponent q)
  have error : |format.magnitude (format.encode q) - q| =
      |(roundEven (q / 2 ^ format.stepExponent q) : Rat) - q / 2 ^ format.stepExponent q| *
        2 ^ format.stepExponent q := by
    rw [magnitude_encode positive finite, ← abs_of_pos step, ← abs_mul, abs_of_pos step, sub_mul,
      div_mul_cancel₀ _ step.ne']
  have wide : (2 : Rat) ^ format.stepExponent q ≤ 2 ^ (n - 2 - format.fractionBits + 1) :=
    two_zpow_le ((stepExponent_le positive below normal).trans (by omega))
  rw [two_zpow_add, zpow_one] at wide
  have half := mul_le_mul_of_nonneg_right (abs_roundEven_sub_le (q / 2 ^ format.stepExponent q)) step.le
  rw [error]
  linarith

/-- A whole number of steps is encoded exactly. -/
theorem magnitude_encode_of_steps (positive : 0 < q) (finite : format.encode q < format.infinityCode)
    {steps : Int} (whole : q = steps * (2 : Rat) ^ format.stepExponent q) :
    format.magnitude (format.encode q) = q := by
  have step := two_zpow_pos (format.stepExponent q)
  have counted : q / 2 ^ format.stepExponent q = steps := by
    rw [div_eq_iff step.ne']
    exact whole
  rw [magnitude_encode positive finite, counted, roundEven_intCast]
  exact whole.symm

end FloatFormat

/-! ## Numbers -/

namespace Floating

variable {format : FloatFormat} {x y : Floating format} {a b : Rat}

/-- The rational that a finite number with the positive sign is. -/
def IsValue (x : Floating format) (value : Rat) : Prop :=
  ∃ code, x = .signed false code ∧ code.val < format.infinityCode ∧ format.magnitude code.val = value

theorem IsValue.toRat? (isValue : x.IsValue a) : x.toRat? = some a := by
  obtain ⟨code, rfl, finite, rfl⟩ := isValue
  exact if_pos finite

theorem IsValue.nonneg (isValue : x.IsValue a) : 0 ≤ a := by
  obtain ⟨code, _, _, rfl⟩ := isValue
  exact format.magnitude_nonneg _

theorem ofRat_of_nonneg {q : Rat} (nonneg : 0 ≤ q) : (ofRat q : Floating format) = ofMagnitude false q := by
  rw [ofRat, decide_eq_false (not_lt.mpr nonneg), Rat.abs_of_nonneg nonneg]

theorem add_eq (first : x.IsValue a) (second : y.IsValue b) : x + y = ofMagnitude false (a + b) := by
  have nonneg := add_nonneg first.nonneg second.nonneg
  have values := And.intro first.toRat? second.toRat?
  obtain ⟨i, rfl, _, _⟩ := first
  obtain ⟨j, rfl, _, _⟩ := second
  show add _ _ = _
  simp only [add, values.1, values.2]
  split
  next zero =>
    rw [zero]
    rfl
  next => exact ofRat_of_nonneg nonneg

theorem mul_eq (first : x.IsValue a) (second : y.IsValue b) : x * y = ofMagnitude false (a * b) := by
  have nonneg := mul_nonneg first.nonneg second.nonneg
  have values := And.intro first.toRat? second.toRat?
  obtain ⟨i, rfl, _, _⟩ := first
  obtain ⟨j, rfl, _, _⟩ := second
  show mul _ _ = _
  simp only [mul, values.1, values.2]
  rw [Rat.abs_of_nonneg nonneg]
  rfl

theorem div_eq (first : x.IsValue a) (second : y.IsValue b) (some : b ≠ 0) :
    x / y = ofMagnitude false (a / b) := by
  have nonneg := div_nonneg first.nonneg second.nonneg
  have values := And.intro first.toRat? second.toRat?
  obtain ⟨i, rfl, _, _⟩ := first
  obtain ⟨j, rfl, _, isValue⟩ := second
  have notZero : j ≠ 0 := by
    rintro rfl
    apply some
    rw [← isValue]
    simp [FloatFormat.magnitude]
  show div _ _ = _
  simp only [div, values.1, values.2, if_neg notZero]
  rw [Rat.abs_of_nonneg nonneg]
  rfl

/-- Below a power of two that is within the format, rounding gives a finite number. -/
theorem isValue_ofMagnitude {q : Rat} (nonneg : 0 ≤ q) {n : Int} (below : q < 2 ^ n)
    (normal : format.leastExponent + format.fractionBits < n)
    (finite : n + 2 < format.leastExponent + format.fractionBits + (1 <<< format.exponentBits : Nat)) :
    (ofMagnitude false q : Floating format).IsValue (format.magnitude (format.encode q)) ∧
      |format.magnitude (format.encode q) - q| ≤ 2 ^ (n - 2 - format.fractionBits) := by
  rcases nonneg.eq_or_lt with rfl | positive
  · have fractions := format.fractions_pos
    have exponents : 0 < 1 <<< format.exponentBits - 1 := by omega
    have zero : format.magnitude (format.encode 0) = 0 := by simp [FloatFormat.encode, FloatFormat.magnitude]
    refine ⟨⟨_, rfl, ?_, rfl⟩, ?_⟩
    · exact Nat.mul_pos exponents fractions
    · rw [zero, sub_zero, abs_zero]
      exact (two_zpow_pos _).le
  · have isFinite := FloatFormat.encode_lt_infinityCode positive below normal finite
    exact ⟨⟨_, rfl, isFinite, rfl⟩, FloatFormat.abs_magnitude_encode_sub_le positive below normal isFinite⟩

/-- Rounding to the 32 bit format keeps 24 bits. -/
theorem isValue_single {q : Rat} (nonneg : 0 ≤ q) {n : Int} (below : q < 2 ^ n) (normal : -126 < n)
    (finite : n < 128) :
    ∃ value, (ofMagnitude false q : Single).IsValue value ∧ |value - q| ≤ 2 ^ (n - 25) := by
  have least : FloatFormat.single.leastExponent + FloatFormat.single.fractionBits = -126 := by decide
  have exponents : ((1 <<< FloatFormat.single.exponentBits : Nat) : Int) = 256 := by decide
  have half : n - 25 = n - 2 - FloatFormat.single.fractionBits := by
    show n - 25 = n - 2 - 23
    omega
  have rounded : (ofMagnitude false q : Single).IsValue _ ∧ _ :=
    isValue_ofMagnitude nonneg below (by omega) (by omega)
  exact ⟨_, rounded.1, half ▸ rounded.2⟩

/-- Integers of 24 bits are numbers of the 32 bit format. -/
theorem isValue_ofMagnitude_natCast {n : Nat} (small : n < 2 ^ 24) :
    (ofMagnitude false (n : Rat) : Single).IsValue n := by
  have below : (n : Rat) < 2 ^ (24 : Int) := by
    rw [show (24 : Int) = (24 : Nat) from rfl, two_zpow_natCast]
    exact_mod_cast small
  rcases Nat.eq_zero_or_pos n with rfl | some
  · exact ⟨0, by rw [Nat.cast_zero]; rfl, by decide, by simp [FloatFormat.magnitude]⟩
  · have positive : (0 : Rat) < n := by exact_mod_cast some
    have least : FloatFormat.single.leastExponent = -149 := by decide
    have bits : FloatFormat.single.fractionBits = 23 := rfl
    have exponents : ((1 <<< FloatFormat.single.exponentBits : Nat) : Int) = 256 := by decide
    have finite : FloatFormat.single.encode n < FloatFormat.single.infinityCode :=
      FloatFormat.encode_lt_infinityCode positive below (by omega) (by omega)
    have step : FloatFormat.single.stepExponent n ≤ 24 - 1 - FloatFormat.single.fractionBits :=
      FloatFormat.stepExponent_le positive below (by omega)
    have whole : (n : Rat) = ((n * 2 ^ (-FloatFormat.single.stepExponent n).toNat : Nat) : Int) *
        (2 : Rat) ^ FloatFormat.single.stepExponent n := by
      have power : (2 : Rat) ^ (-FloatFormat.single.stepExponent n).toNat =
          2 ^ (-FloatFormat.single.stepExponent n) := by
        rw [← zpow_natCast, Int.toNat_of_nonneg (by omega)]
      push_cast
      rw [power, mul_assoc, ← two_zpow_add, Int.add_left_neg, zpow_zero, mul_one]
    exact ⟨_, rfl, finite, FloatFormat.magnitude_encode_of_steps positive finite whole⟩

theorem isValue_ofNat {n : Nat} (small : n < 2 ^ 24) : (ofNat n : Single).IsValue n := by
  rw [ofNat, ofRat_of_nonneg (Nat.cast_nonneg n)]
  exact isValue_ofMagnitude_natCast small

theorem isValue_zero : (zero : Single).IsValue 0 := by
  have zero := isValue_ofMagnitude_natCast (n := 0) (by decide)
  rwa [Nat.cast_zero] at zero

theorem isValue_one : (one : Single).IsValue 1 := by
  have one := isValue_ofNat (n := 1) (by decide)
  rwa [ofNat, Nat.cast_one] at one

/-- A number is held at one from above. -/
theorem clamp_unit {x : Single} (isValue : x.IsValue a) :
    x.clamp zero one = x ∨ x.clamp zero one = one ∧ 1 ≤ a := by
  obtain ⟨code, rfl, _, rfl⟩ := isValue
  have notBelow : (signed false code : Single).lt zero = false := by
    simp [lt, rank?, zero]
  rw [clamp, notBelow, if_neg Bool.false_ne_true]
  split
  next above =>
    right
    obtain ⟨oneCode, isOne, _, magnitude⟩ := isValue_one
    refine ⟨rfl, ?_⟩
    rw [isOne] at above
    simp only [lt, rank?, Bool.false_eq_true, if_false, decide_eq_true_eq, Int.ofNat_lt] at above
    rw [← magnitude]
    exact FloatFormat.magnitude_mono above.le
  next => exact .inl rfl

/-- Taking away zero rounds once more, which changes nothing; but zero is taken away as a negative zero. -/
theorem sub_zero_eq {x : Single} (isValue : x.IsValue a) : x - zero = ofMagnitude false a := by
  have nonneg := isValue.nonneg
  have value := isValue.toRat?
  have nothing : (signed true 0 : Single).toRat? = some 0 := by decide +kernel
  obtain ⟨code, rfl, _, _⟩ := isValue
  show add (signed false code) (signed true 0) = _
  simp only [add, value, nothing, add_zero]
  split
  next none =>
    rw [none]
    rfl
  next => exact ofRat_of_nonneg nonneg

theorem roundNat_eq_min {x : Single} (isValue : x.IsValue a) (limit : Nat) {n : Nat}
    (near : |a - n| < 1 / 2) : x.roundNat limit = min limit n := by
  have value := isValue.toRat?
  have nonneg := isValue.nonneg
  obtain ⟨code, rfl, _, _⟩ := isValue
  simp only [roundNat, value, roundAway_eq nonneg near, Int.toNat_natCast]

theorem roundNat_of_isValue {x : Single} (isValue : x.IsValue a) (limit : Nat) {n : Nat} (most : n ≤ limit)
    (near : |a - n| < 1 / 2) : x.roundNat limit = n := by
  rw [roundNat_eq_min isValue limit near, Nat.min_eq_right most]

end Floating

end PdfCanvas
