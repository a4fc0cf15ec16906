import PdfCanvas.Image.Samples
import PdfCanvas.Proofs.Floating

/-!
# Channels

A sample is scaled to the range from zero to one, and from there to eight bits, with three roundings on the
way. Together they are off by far less than what separates any sample of at most sixteen bits from the middle
between two channels. An index is scaled to the range of all samples, and there the roundings are off by far less
than a half.
-/

namespace PdfCanvas

/-- The integer nearest to a rational; there is no other that is as near. -/
def IsNearest (n : Nat) (q : Rat) : Prop := ∀ m : Int, m ≠ n → |q - n| < |q - m|

theorem isNearest_of_near {n : Nat} {q : Rat} (near : |q - n| < 1 / 2) : IsNearest n q := by
  intro m other
  have apart : (1 : Rat) ≤ |(m : Rat) - n| := by
    have apart : 1 ≤ |m - n| := Int.one_le_abs (sub_ne_zero.mpr other)
    exact_mod_cast apart
  have path := abs_sub_le (m : Rat) q n
  rw [abs_sub_comm (m : Rat) q] at path
  linarith

namespace Samples

open Floating

variable {most sample : Nat}

/-- The quotient by the greatest sample. -/
theorem isValue_quotient {x : Single} (isSample : x.IsValue sample) (positive : 0 < most)
    (within : sample ≤ most) (small : most < 2 ^ 16) :
    ∃ value, (x / ofNat most : Single).IsValue value ∧ |value - sample / most| ≤ 2 ^ (-24 : Int) := by
  have positive : (0 : Rat) < most := by exact_mod_cast positive
  have nonneg : (0 : Rat) ≤ sample / most := div_nonneg (Nat.cast_nonneg _) positive.le
  have part : (sample / most : Rat) ≤ 1 := (div_le_one positive).mpr (by exact_mod_cast within)
  have below : (sample / most : Rat) < 2 ^ (1 : Int) := by
    norm_num
    linarith
  obtain ⟨quotient, isQuotient, error⟩ := isValue_single nonneg below (by decide) (by decide)
  rw [← div_eq isSample (isValue_ofNat (by omega)) positive.ne'] at isQuotient
  exact ⟨quotient, isQuotient, error⟩

/-- The part of the range from zero to one that a sample is of the greatest one. -/
theorem isValue_mapToRange (positive : 0 < most) (within : sample ≤ most) (small : most < 2 ^ 16) :
    ∃ value, (mapToRange most sample (zero, one)).IsValue value ∧
      |value - sample / most| ≤ 2 ^ (-23 : Int) := by
  have isSample : (ofNat sample : Single).IsValue sample := isValue_ofNat (by omega)
  have unit : (one - zero : Single) = one := by decide +kernel
  have product : (ofNat sample * (one - zero) : Single).IsValue sample := by
    rw [unit, mul_eq isSample isValue_one, mul_one]
    exact isValue_ofMagnitude_natCast (by omega)
  obtain ⟨quotient, isQuotient, errorQuotient⟩ := isValue_quotient product positive within small
  have positive : (0 : Rat) < most := by exact_mod_cast positive
  have part : (sample / most : Rat) ≤ 1 := (div_le_one positive).mpr (by exact_mod_cast within)
  have step : (2 : Rat) ^ (-24 : Int) = 1 / 16777216 := by norm_num
  rw [step, abs_le] at errorQuotient
  have belowSum : 0 + quotient < 2 ^ (1 : Int) := by
    norm_num
    linarith
  obtain ⟨sum, isSum, errorSum⟩ := isValue_single (add_nonneg le_rfl isQuotient.nonneg) belowSum
    (by decide) (by decide)
  rw [← add_eq isValue_zero isQuotient] at isSum
  rw [(by norm_num : (2 : Rat) ^ (1 - 25 : Int) = 1 / 16777216), zero_add, abs_le] at errorSum
  refine ⟨sum, isSum, ?_⟩
  norm_num
  rw [abs_le]
  constructor <;> linarith

/-- The channel of a sample in the range from zero to one. -/
def scaled (most sample : Nat) : UInt8 :=
  ColorSpace.channel (ColorSpace.component [mapToRange most sample (zero, one)] 0)

/-- An integer is the channel of a part of one already if it is only a little nearer than a half, as the
part itself may be off. -/
theorem channel_of_near {x : Single} {value part : Rat} {n : Nat} (isValue : x.IsValue value)
    (error : |value - part| ≤ 2 ^ (-23 : Int)) (most : part ≤ 1)
    (near : |255 * part - n| < 1 / 2 - 1 / 1000) (isByte : n ≤ 255) :
    ColorSpace.channel (x.clamp zero one) = n.toUInt8 := by
  rw [(by norm_num : (2 : Rat) ^ (-23 : Int) = 1 / 8388608), abs_le] at error
  -- where the value is held at one, so is the part, up to the same error
  obtain ⟨held, isHeld, errorHeld⟩ : ∃ held,
      (x.clamp zero one).IsValue held ∧ |held - part| ≤ 1 / 8388608 := by
    rcases clamp_unit isValue with kept | ⟨cut, above⟩
    · rw [kept]
      exact ⟨value, isValue, abs_le.mpr error⟩
    · rw [cut]
      exact ⟨1, isValue_one, abs_le.mpr ⟨by linarith, by linarith⟩⟩
  rw [abs_le] at errorHeld
  have nonneg := mul_nonneg isHeld.nonneg (Nat.cast_nonneg 255)
  have below : held * (255 : Nat) < 2 ^ (8 : Int) := by
    norm_num
    linarith
  obtain ⟨product, isProduct, errorProduct⟩ := isValue_single nonneg below (by decide) (by decide)
  rw [← mul_eq isHeld (isValue_ofNat (by decide))] at isProduct
  rw [(by norm_num : (2 : Rat) ^ (8 - 25 : Int) = 1 / 131072), abs_le] at errorProduct
  have nearProduct : |product - n| < 1 / 2 := by
    rw [abs_lt] at near
    push_cast at errorProduct
    rw [abs_lt]
    constructor <;> linarith
  show (roundNat 255 (x.clamp zero one * ofNat 255)).toUInt8 = _
  rw [roundNat_of_isValue isProduct 255 isByte nearProduct]

/-- Scaling is off by so little that an integer is the channel already if it is only a little nearer than a
half. -/
theorem scaled_eq {n : Nat} (positive : 0 < most) (within : sample ≤ most) (small : most < 2 ^ 16)
    (near : |255 * sample / most - (n : Rat)| < 1 / 2 - 1 / 1000) (isByte : n ≤ 255) :
    scaled most sample = n.toUInt8 ∧ IsNearest (scaled most sample).toNat (255 * sample / most) := by
  obtain ⟨value, isValue, error⟩ := isValue_mapToRange positive within small
  have positive : (0 : Rat) < most := by exact_mod_cast positive
  have part : (sample / most : Rat) ≤ 1 := (div_le_one positive).mpr (by exact_mod_cast within)
  have isChannel : scaled most sample = n.toUInt8 :=
    channel_of_near isValue error part (by rwa [← mul_div_assoc]) isByte
  have same : n.toUInt8.toNat = n := Nat.mod_eq_of_lt (Nat.lt_succ_of_le isByte)
  refine ⟨isChannel, ?_⟩
  rw [isChannel, same]
  exact isNearest_of_near (near.trans (by norm_num))

/-- Samples whose greatest one divides 255 are multiplied by the quotient. -/
theorem scaled_of_factor {factor : Nat} (whole : most * factor = 255) (within : sample ≤ most) :
    scaled most sample = (factor * sample).toUInt8 ∧
      IsNearest (scaled most sample).toNat (255 * sample / most) := by
  have positive : 0 < most := by
    apply Nat.pos_of_ne_zero
    rintro rfl
    omega
  have factorPositive : 0 < factor := by
    apply Nat.pos_of_ne_zero
    rintro rfl
    omega
  have small : most ≤ 255 := whole ▸ Nat.le_mul_of_pos_right most factorPositive
  have isByte : factor * sample ≤ 255 := by
    rw [← whole, Nat.mul_comm most]
    exact Nat.mul_le_mul_left factor within
  have exact : (255 * sample / most : Rat) = (factor * sample : Nat) := by
    have some : (most : Rat) ≠ 0 := by exact_mod_cast positive.ne'
    have whole : (most : Rat) * factor = 255 := by exact_mod_cast whole
    rw [div_eq_iff some, ← whole]
    push_cast
    ring
  apply scaled_eq positive within (by omega) _ isByte
  rw [exact, sub_self, abs_zero]
  norm_num

/-- Samples of sixteen bits are divided by 257. -/
theorem scaled_of_word (within : sample ≤ 65535) :
    scaled 65535 sample = ((sample + 128) / 257).toUInt8 ∧
      IsNearest (scaled 65535 sample).toNat (255 * sample / (65535 : Nat)) := by
  have low : 257 * ((sample + 128) / 257) ≤ sample + 128 := Nat.mul_div_le _ _
  have high : sample + 128 < 257 * ((sample + 128) / 257) + 257 := Nat.lt_mul_div_succ _ (by decide)
  have low : (257 : Rat) * ((sample + 128) / 257 : Nat) ≤ sample + 128 := by exact_mod_cast low
  have high : (sample : Rat) + 128 ≤ 257 * ((sample + 128) / 257 : Nat) + 256 := by
    exact_mod_cast Nat.lt_succ_iff.mp high
  apply scaled_eq (by decide) within (by decide) _ (by omega)
  rw [abs_lt]
  push_cast at low high ⊢
  constructor <;> linarith

/-- The channel of a sample of a depth that images have is nearest to it in the range of eight bits. -/
theorem scaled_isNearest {bits : Nat} (depth : bits ∈ [1, 2, 4, 8, 16]) (within : sample < 2 ^ bits) :
    IsNearest (scaled (2 ^ bits - 1) sample).toNat (255 * sample / (2 ^ bits - 1 : Nat)) := by
  have most : sample ≤ 2 ^ bits - 1 := Nat.le_sub_one_of_lt within
  simp only [List.mem_cons, List.not_mem_nil, or_false] at depth
  rcases depth with rfl | rfl | rfl | rfl | rfl
  · exact (scaled_of_factor (by decide : (2 ^ 1 - 1) * 255 = 255) most).2
  · exact (scaled_of_factor (by decide : (2 ^ 2 - 1) * 85 = 255) most).2
  · exact (scaled_of_factor (by decide : (2 ^ 4 - 1) * 17 = 255) most).2
  · exact (scaled_of_factor (by decide : (2 ^ 8 - 1) * 1 = 255) most).2
  · exact (scaled_of_word most).2

/-! ## Entries of a table -/

/-- A byte that is read as a part of one is the channel of that part. -/
theorem channel_of_part (byte : UInt8) :
    ColorSpace.channel ((ofNat byte.toNat / ofNat 255 : Single).clamp zero one) = byte := by
  have isByte : byte.toNat ≤ 255 := Nat.le_of_lt_succ byte.toNat_lt
  obtain ⟨value, isValue, error⟩ :=
    isValue_quotient (isValue_ofNat (by omega)) (by decide) isByte (by decide)
  have part : (byte.toNat / (255 : Nat) : Rat) ≤ 1 :=
    (div_le_one (by norm_num)).mpr (by exact_mod_cast isByte)
  have exact : 255 * (byte.toNat / (255 : Nat) : Rat) = byte.toNat := by
    push_cast
    ring
  have near : |255 * (byte.toNat / (255 : Nat) : Rat) - byte.toNat| < 1 / 2 - 1 / 1000 := by
    rw [exact, sub_self, abs_zero]
    norm_num
  rw [channel_of_near isValue (error.trans (two_zpow_le (by decide))) part near isByte]
  exact UInt8.ofNat_toNat

/-- A product with the greatest sample is a number of the format, or the greatest sample is large. -/
theorem isValue_product {x y : Single} (isSample : x.IsValue sample) (isMost : y.IsValue most)
    (within : sample ≤ most) (small : most < 2 ^ 16) :
    ∃ product, (x * y).IsValue product ∧ |product - sample * most| ≤ (most / 32 : Rat) := by
  rw [mul_eq isSample isMost]
  by_cases exact : sample * most < 2 ^ 24
  · have isProduct := isValue_ofMagnitude_natCast exact
    push_cast at isProduct
    refine ⟨_, isProduct, ?_⟩
    rw [sub_self, abs_zero]
    exact div_nonneg (Nat.cast_nonneg most) (by norm_num)
  · have large : 4096 ≤ most := by
      by_contra less
      have square := Nat.mul_le_mul within (Nat.le_refl most)
      have bound := Nat.mul_le_mul (by omega : most ≤ 4095) (by omega : most ≤ 4095)
      omega
    have bound : sample * most ≤ 65535 * 65535 := Nat.mul_le_mul (by omega) (by omega)
    have below : (sample * most : Rat) < 2 ^ (32 : Int) := by
      have bound : (sample * most : Rat) ≤ 65535 * 65535 := by exact_mod_cast bound
      norm_num
      linarith
    obtain ⟨product, isProduct, error⟩ := isValue_single
      (mul_nonneg (Nat.cast_nonneg sample) (Nat.cast_nonneg most)) below (by decide) (by decide)
    refine ⟨product, isProduct, error.trans ?_⟩
    have large : (4096 : Rat) ≤ most := by exact_mod_cast large
    norm_num
    linarith

/-- A sample that is mapped to the range of all samples is found again by rounding. -/
theorem roundNat_mapToRange (positive : 0 < most) (within : sample ≤ most) (small : most < 2 ^ 16)
    (limit : Nat) : (mapToRange most sample (zero, ofNat most)).roundNat limit = min limit sample := by
  have isMost : (ofNat most : Single).IsValue most := isValue_ofNat (by omega)
  have width : (ofNat most - zero : Single).IsValue most := by
    rw [sub_zero_eq isMost]
    exact isValue_ofMagnitude_natCast (by omega)
  obtain ⟨product, isProduct, errorProduct⟩ :=
    isValue_product (isValue_ofNat (by omega)) width within small
  have positive : (0 : Rat) < most := by exact_mod_cast positive
  have bound : (sample : Rat) < 2 ^ 16 := by exact_mod_cast within.trans_lt small
  have errorPart : |product / most - sample| ≤ 1 / 32 := by
    have divided : product / most - sample = (product - sample * most) / most := by
      field_simp
    rw [divided, abs_div, abs_of_pos positive, div_le_iff₀ positive]
    linarith
  rw [abs_le] at errorPart
  have belowPart : product / most < 2 ^ (17 : Int) := by
    norm_num
    linarith
  have step : (2 : Rat) ^ (17 - 25 : Int) = 1 / 256 := by norm_num
  obtain ⟨quotient, isQuotient, errorQuotient⟩ :=
    isValue_single (div_nonneg isProduct.nonneg positive.le) belowPart (by decide) (by decide)
  rw [← div_eq isProduct isMost positive.ne'] at isQuotient
  rw [step, abs_le] at errorQuotient
  have belowSum : 0 + quotient < 2 ^ (17 : Int) := by
    norm_num
    linarith
  obtain ⟨sum, isSum, errorSum⟩ := isValue_single (add_nonneg le_rfl isQuotient.nonneg) belowSum
    (by decide) (by decide)
  rw [← add_eq isValue_zero isQuotient] at isSum
  rw [step, zero_add, abs_le] at errorSum
  apply roundNat_eq_min isSum
  rw [abs_lt]
  constructor <;> linarith

end Samples

end PdfCanvas
