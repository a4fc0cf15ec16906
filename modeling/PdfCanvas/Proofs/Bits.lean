import Mathlib.Algebra.Order.Ring.Nat
import PdfCanvas.Filter.Bits

/-!
# Bytes and their bits

Bytes laid out as bits, the least significant first, are found again where as many bits are read as they
have.
-/

namespace PdfCanvas

theorem forall_byte {p : UInt8 → Prop} (checked : ∀ n < 256, p (UInt8.ofNat n)) (byte : UInt8) :
    p byte := by
  have found := checked byte.toNat byte.toNat_lt
  rwa [UInt8.ofNat_toNat] at found

namespace Bits

theorem split?_of_length {count : Nat} {front : Bits} (whole : front.length = count) (rest : Bits) :
    (front ++ rest).split? count = some (front, rest) := by
  induction front generalizing count with
  | nil =>
    subst whole
    rfl
  | cons bit front inductionHypothesis =>
    cases count with
    | zero => cases whole
    | succ count =>
      rw [List.cons_append, split?, inductionHypothesis (Nat.succ.inj whole)]
      rfl

theorem split?_of_short {count : Nat} {bits : Bits} (short : bits.length < count) :
    bits.split? count = none := by
  induction bits generalizing count with
  | nil =>
    cases count with
    | zero => cases short
    | succ count => rfl
  | cons bit bits inductionHypothesis =>
    cases count with
    | zero => cases short
    | succ count =>
      rw [split?, inductionHypothesis (Nat.lt_of_succ_lt_succ short)]
      rfl

theorem of_split? {count : Nat} {bits front rest : Bits} (cut : bits.split? count = some (front, rest)) :
    bits = front ++ rest ∧ front.length = count := by
  induction count generalizing bits front with
  | zero =>
    cases cut
    exact ⟨rfl, rfl⟩
  | succ count inductionHypothesis =>
    cases bits with
    | nil => cases cut
    | cons bit bits =>
      rw [split?, Option.map_eq_some_iff] at cut
      obtain ⟨⟨others, _⟩, cutOthers, made⟩ := cut
      cases made
      obtain ⟨rfl, rfl⟩ := inductionHypothesis cutOthers
      exact ⟨rfl, rfl⟩

theorem toNat_append (front back : Bits) :
    toNat (front ++ back) = toNat front + toNat back <<< front.length := by
  induction front with
  | nil => simp [toNat]
  | cons bit front inductionHypothesis =>
    rw [List.cons_append, toNat, toNat, inductionHypothesis, List.length_cons, Nat.shiftLeft_succ]
    omega

theorem testBit_toNat (bits : Bits) (index : Nat) :
    (toNat bits).testBit index = bits[index]?.getD false := by
  induction bits generalizing index with
  | nil => simp [toNat]
  | cons bit rest inductionHypothesis =>
    rw [toNat, Nat.add_comm]
    cases index with
    | zero => cases bit <;> simp
    | succ index =>
      rw [List.getElem?_cons_succ, ← inductionHypothesis, Nat.testBit_succ]
      congr 1
      have := bit.toNat_lt
      omega

theorem toNat_lt (bits : Bits) : toNat bits < 2 ^ bits.length := by
  induction bits with
  | nil => exact Nat.one_pos
  | cons bit rest inductionHypothesis =>
    have := bit.toNat_lt
    rw [toNat, List.length_cons, Nat.pow_succ]
    omega

theorem length_ofNat (count value : Nat) : (ofNat count value).length = count := by
  induction count generalizing value with
  | zero => rfl
  | succ count inductionHypothesis => rw [ofNat, List.length_cons, inductionHypothesis]

theorem getElem?_ofNat (count value index : Nat) :
    (ofNat count value)[index]? = if index < count then some (value.testBit index) else none := by
  induction count generalizing value index with
  | zero => simp [ofNat]
  | succ count inductionHypothesis =>
    cases index with
    | zero => simp [ofNat, Nat.testBit_zero]
    | succ index =>
      rw [ofNat, List.getElem?_cons_succ, inductionHypothesis]
      simp [Nat.testBit_succ]

theorem toNat_ofNat {count value : Nat} (small : value < 2 ^ count) : toNat (ofNat count value) = value := by
  apply Nat.eq_of_testBit_eq
  intro index
  rw [testBit_toNat, getElem?_ofNat]
  split
  next => rfl
  next behind =>
    rw [Nat.testBit_lt_two_pow (Nat.lt_of_lt_of_le small
      (Nat.pow_le_pow_right (by decide) (Nat.le_of_not_lt behind)))]
    rfl

theorem ofNat_toNat (bits : Bits) : ofNat bits.length (toNat bits) = bits := by
  apply List.ext_getElem?
  intro index
  rw [getElem?_ofNat, testBit_toNat]
  split
  next inside => rw [List.getElem?_eq_getElem inside, Option.getD_some]
  next behind => rw [List.getElem?_eq_none (Nat.le_of_not_lt behind)]

@[simp]
theorem length_ofByte (byte : UInt8) : (ofByte byte).length = 8 := by
  simp [ofByte]

theorem toNat_ofByte : ∀ byte : UInt8, toNat (ofByte byte) = byte.toNat :=
  forall_byte (by decide +kernel)

theorem toNat_ofByte_append (byte : UInt8) (rest : Bits) :
    toNat (ofByte byte ++ rest) = byte.toNat + 256 * toNat rest := by
  rw [toNat_append, toNat_ofByte, length_ofByte, Nat.shiftLeft_eq, Nat.mul_comm]

theorem lowFirst_cons (byte : UInt8) (rest : Bytes) :
    lowFirst (byte :: rest) = ofByte byte ++ lowFirst rest :=
  List.flatMap_cons

theorem lowFirst_append (front back : Bytes) :
    lowFirst (front ++ back) = lowFirst front ++ lowFirst back :=
  List.flatMap_append

theorem length_lowFirst (bytes : Bytes) : (lowFirst bytes).length = 8 * bytes.length := by
  induction bytes with
  | nil => rfl
  | cons byte rest inductionHypothesis =>
    rw [lowFirst_cons, List.length_append, length_ofByte, inductionHypothesis, List.length_cons]
    omega

theorem toBytes_lowFirst (bytes : Bytes) : toBytes (lowFirst bytes) = bytes := by
  induction bytes with
  | nil => rfl
  | cons byte rest inductionHypothesis =>
    show (toNat (ofByte byte)).toUInt8 :: toBytes (lowFirst rest) = byte :: rest
    rw [toNat_ofByte, inductionHypothesis]
    congr
    exact UInt8.ofNat_toNat

theorem length_highFirst (bytes : Bytes) : (highFirst bytes).length = 8 * bytes.length := by
  simp [highFirst, List.length_flatMap, List.map_const', Nat.mul_comm]

theorem highFirst_append (front back : Bytes) :
    highFirst (front ++ back) = highFirst front ++ highFirst back :=
  List.flatMap_append

/-- Whole bytes that follow do not change how far it is to the next byte. -/
theorem drop_to_byte {more : Bits} (bytes : more.length % 8 = 0) (bits : Bits) :
    (bits ++ more).drop ((bits ++ more).length % 8) = bits.drop (bits.length % 8) ++ more := by
  have distance : (bits ++ more).length % 8 = bits.length % 8 := by
    rw [List.length_append]
    omega
  rw [distance, List.drop_append_of_le_length (Nat.mod_le _ _)]

end Bits

end PdfCanvas
