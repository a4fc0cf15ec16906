import Mathlib.Algebra.Order.Floor.Div
import Mathlib.GroupTheory.GroupAction.Ring
import PdfCanvas.Proofs.Bits

/-!
# Fields of bits

Numbers packed into bytes are fields of so many bits, the most significant bit first, wherever in a byte they
begin. A field that lies in one byte is cut out of it by a shift, and one of two bytes is put together from
them.
-/

namespace PdfCanvas

theorem bytesOfBits_eq (bits : Nat) : bytesOfBits bits = bits ⌈/⌉ 8 := by
  rw [bytesOfBits, Nat.ceilDiv_eq_add_pred_div]
  split <;> omega

theorem le_bytesOfBits (bits : Nat) : bits ≤ bytesOfBits bits * 8 := by
  unfold bytesOfBits
  split <;> omega

namespace Bytes

/-- A bit of data, the most significant of each byte first; behind the data there are zeros. -/
def bitAt (data : Bytes) (index : Nat) : Bool :=
  (data[index / 8]?.getD 0).toNat.testBit (7 - index % 8)

/-- The number of `count` bits of data from a bit on, the most significant first. -/
def field (data : Bytes) (start : Nat) : (count : Nat) → Nat
  | 0 => 0
  | count + 1 => 2 * field data start count + (bitAt data (start + count)).toNat

theorem field_lt (data : Bytes) (start count : Nat) : field data start count < 2 ^ count := by
  induction count with
  | zero => exact Nat.one_pos
  | succ count inductionHypothesis =>
    have := (bitAt data (start + count)).toNat_lt
    rw [field, Nat.pow_succ]
    omega

theorem testBit_field (data : Bytes) (start : Nat) {count index : Nat} (inside : index < count) :
    (field data start count).testBit index = bitAt data (start + (count - 1 - index)) := by
  induction count generalizing index with
  | zero => cases inside
  | succ count inductionHypothesis =>
    rw [field]
    cases index with
    | zero =>
      rw [Nat.add_sub_cancel, Nat.sub_zero]
      cases bitAt data (start + count) <;> simp
    | succ index =>
      have := (bitAt data (start + count)).toNat_lt
      have half : (2 * field data start count + (bitAt data (start + count)).toNat) / 2 =
          field data start count := by omega
      rw [Nat.testBit_succ, half, inductionHypothesis (Nat.lt_of_succ_lt_succ inside)]
      congr 1
      omega

/-- A number is a field if its bits are those of the field. -/
theorem field_eq_of_bits {data : Bytes} {start count value : Nat} (small : value < 2 ^ count)
    (same : ∀ index < count, bitAt data (start + index) = value.testBit (count - 1 - index)) :
    field data start count = value := by
  apply Nat.eq_of_testBit_eq
  intro index
  by_cases inside : index < count
  · rw [testBit_field data start inside, same _ (by omega)]
    congr 1
    omega
  · have wide : 2 ^ count ≤ 2 ^ index := Nat.pow_le_pow_right Nat.two_pos (Nat.le_of_not_lt inside)
    rw [Nat.testBit_lt_two_pow (Nat.lt_of_lt_of_le (field_lt data start count) wide),
      Nat.testBit_lt_two_pow (Nat.lt_of_lt_of_le small wide)]

/-- Fields of the same bits are equal. -/
theorem field_congr {data other : Bytes} {start startOther count : Nat}
    (same : ∀ index < count, bitAt data (start + index) = bitAt other (startOther + index)) :
    field data start count = field other startOther count := by
  induction count with
  | zero => rfl
  | succ count inductionHypothesis =>
    rw [field, field, inductionHypothesis fun index inside => same index (by omega),
      same count (by omega)]

/-- A bit is found from any byte before it. -/
theorem bitAt_from_byte (data : Bytes) (index place : Nat) :
    bitAt data (8 * index + place) =
      (data[index + place / 8]?.getD 0).toNat.testBit (7 - place % 8) := by
  have byte : (8 * index + place) / 8 = index + place / 8 := by omega
  have bit : (8 * index + place) % 8 = place % 8 := by omega
  rw [bitAt, byte, bit]

/-- A field within a byte is cut out of it. -/
theorem field_in_byte (data : Bytes) (index : Nat) {place count : Nat} (inside : place + count ≤ 8) :
    field data (8 * index + place) count =
      ((data[index]?.getD 0).toNat >>> (8 - (place + count))) % 2 ^ count := by
  apply field_eq_of_bits (Nat.mod_lt _ (Nat.two_pow_pos count))
  intro bit less
  rw [Nat.add_assoc, bitAt_from_byte, Nat.div_eq_of_lt (by omega), Nat.mod_eq_of_lt (by omega),
    Nat.add_zero, Nat.testBit_mod_two_pow, Nat.testBit_shiftRight, decide_eq_true (by omega),
    Bool.true_and]
  congr 1
  omega

theorem field_byte (data : Bytes) (index : Nat) :
    field data (8 * index) 8 = (data[index]?.getD 0).toNat := by
  have whole := field_in_byte data index (by decide : 0 + 8 ≤ 8)
  rwa [Nat.add_zero, Nat.zero_add, Nat.sub_self, Nat.shiftRight_zero,
    Nat.mod_eq_of_lt (UInt8.toNat_lt _)] at whole

theorem field_add (data : Bytes) (start first second : Nat) :
    field data start (first + second) =
      2 ^ second * field data start first + field data (start + first) second := by
  induction second with
  | zero => simp [field]
  | succ second inductionHypothesis =>
    rw [← Nat.add_assoc, field, field, inductionHypothesis, Nat.pow_succ, Nat.add_assoc start]
    grind

theorem field_word (data : Bytes) (index : Nat) :
    field data (8 * index) 16 =
      256 * (data[index]?.getD 0).toNat + (data[index + 1]?.getD 0).toNat := by
  rw [field_add data (8 * index) 8 8, ← Nat.mul_add_one, field_byte, field_byte]
  rfl

end Bytes

end PdfCanvas
