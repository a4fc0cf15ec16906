import PdfCanvas.Proofs.Image.Samples

/-!
# Packing samples

Samples of a depth that images have are packed row by row, their most significant bit first, and zeros
complete the last byte of a row. Unpacking reads every sample where it was packed, whatever stands in the bits
between the rows and behind them; of another depth no sample is read.
-/

namespace PdfCanvas

namespace Bits

/-- Bytes whose bits are given, the most significant of each first; zeros complete the last one. -/
def toBytesHighFirst (bits : Bits) : Bytes :=
  (wholePieces 8 (bits ++ List.replicate 7 false)).map fun piece => (toNat piece.reverse).toUInt8

theorem length_toBytesHighFirst (bits : Bits) :
    (toBytesHighFirst bits).length = bytesOfBits bits.length := by
  rw [toBytesHighFirst, List.length_map, length_wholePieces (by decide), List.length_append,
    List.length_replicate, bytesOfBits]
  split <;> omega

theorem testBit_byteOfPiece {piece : Bits} (whole : piece.length = 8) {place : Nat} (inside : place < 8) :
    (toNat piece.reverse).toUInt8.toNat.testBit (7 - place) = piece[place]?.getD false := by
  have small : toNat piece.reverse < 256 := by
    have less := toNat_lt piece.reverse
    rwa [List.length_reverse, whole] at less
  have kept : (toNat piece.reverse).toUInt8.toNat = toNat piece.reverse := Nat.mod_eq_of_lt small
  rw [kept, testBit_toNat, List.getElem?_reverse (by omega), whole]
  congr 2
  omega

/-- The bits of the bytes are those that were given, and zeros behind them. -/
theorem bitAt_toBytesHighFirst (bits : Bits) (index : Nat) :
    (toBytesHighFirst bits).bitAt index = bits[index]?.getD false := by
  have filled : (bits ++ List.replicate 7 false)[index]?.getD false = bits[index]?.getD false := by
    by_cases inside : index < bits.length
    · rw [List.getElem?_append_left inside]
    · rw [List.getElem?_append_right (by omega), List.getElem?_replicate,
        List.getElem?_eq_none (Nat.le_of_not_lt inside)]
      split <;> rfl
  rw [Bytes.bitAt, ← filled, toBytesHighFirst, wholePieces_eq (by decide) rfl, List.map_map,
    List.getElem?_map]
  by_cases inside : index / 8 < (bits ++ List.replicate 7 false).length / 8
  · have whole : (((bits ++ List.replicate 7 false).drop (8 * (index / 8))).take 8).length = 8 := by
      rw [List.length_take, List.length_drop]
      omega
    have place : index % 8 < 8 := Nat.mod_lt index (by decide)
    rw [List.getElem?_range inside, Option.map_some, Option.getD_some, Function.comp_apply,
      testBit_byteOfPiece whole place, List.getElem?_take_of_lt place, List.getElem?_drop,
      Nat.div_add_mod]
  · -- behind the bytes there are only bits behind the given ones
    rw [List.getElem?_eq_none (by rw [List.length_range]; omega), filled,
      List.getElem?_eq_none (by rw [List.length_append, List.length_replicate] at inside; omega)]
    simp

end Bits

namespace Samples

/-- The bytes of a row of samples, the most significant bit of each first. -/
def packRow (bits : Nat) (row : List Nat) : Bytes :=
  Bits.toBytesHighFirst (row.flatMap fun sample => (Bits.ofNat bits sample).reverse)

/-- The bytes of samples, row by row. -/
def pack (layout : SampleLayout) (samples : List Nat) : Bytes :=
  (wholePieces (layout.width * layout.components) samples).flatMap (packRow layout.bits)

section

variable (bits : Nat) (row : List Nat)

theorem even_bits : ∀ digits ∈ row.map fun sample => (Bits.ofNat bits sample).reverse,
    digits.length = bits := by
  intro digits member
  obtain ⟨sample, _, rfl⟩ := List.mem_map.mp member
  rw [List.length_reverse, Bits.length_ofNat]

theorem length_packRow : (packRow bits row).length = bytesOfBits (row.length * bits) := by
  rw [packRow, Bits.length_toBytesHighFirst, List.flatMap_def,
    length_flatten_of_length (even_bits bits row), List.length_map, Nat.mul_comm]

/-- A sample is found in the row where it was packed. -/
theorem field_packRow {bits : Nat} {row : List Nat} {x sample : Nat} (there : row[x]? = some sample)
    (small : sample < 2 ^ bits) : (packRow bits row).field (bits * x) bits = sample := by
  apply Bytes.field_eq_of_bits small
  intro index inside
  rw [packRow, Bits.bitAt_toBytesHighFirst, List.flatMap_def,
    getElem?_flatten_of_length (even_bits bits row) inside, List.getElem?_map, there, Option.map_some,
    Option.bind_some, List.getElem?_reverse (by rwa [Bits.length_ofNat]), Bits.length_ofNat,
    Bits.getElem?_ofNat, if_pos (by omega), Option.getD_some]

end

section

variable {layout : SampleLayout} {samples : List Nat}

/-- A sample is found in the packed data in its row. -/
theorem field_pack {x y sample : Nat} (positive : 0 < layout.width * layout.components)
    (inside : x < layout.width * layout.components)
    (there : samples[layout.width * layout.components * y + x]? = some sample)
    (whole : y < samples.length / (layout.width * layout.components))
    (small : sample < 2 ^ layout.bits) :
    (pack layout samples).field
      (8 * (bytesOfBits (layout.width * layout.components * layout.bits) * y) + layout.bits * x)
        layout.bits = sample := by
  have even : ∀ row ∈ (wholePieces (layout.width * layout.components) samples).map (packRow layout.bits),
      row.length = bytesOfBits (layout.width * layout.components * layout.bits) := by
    intro row member
    obtain ⟨piece, cut, rfl⟩ := List.mem_map.mp member
    rw [length_packRow, length_of_mem_wholePieces positive cut]
  have inRow : ((samples.drop (layout.width * layout.components * y)).take
      (layout.width * layout.components))[x]? = some sample := by
    rw [List.getElem?_take_of_lt inside, List.getElem?_drop, there]
  have covered := le_bytesOfBits (layout.width * layout.components * layout.bits)
  have within := Nat.mul_le_mul_left layout.bits (Nat.succ_le_of_lt inside)
  rw [Nat.mul_succ, Nat.mul_comm layout.bits (_ * _)] at within
  refine Eq.trans ?_ (field_packRow inRow small)
  apply Bytes.field_congr
  intro index less
  rw [Nat.add_assoc, Bytes.bitAt_from_byte, Bytes.bitAt, pack, List.flatMap_def,
    getElem?_flatten_of_length even (by omega), List.getElem?_map, getElem?_wholePieces positive whole]
  rfl

/-- Samples that were packed are unpacked. -/
theorem unpack_pack {limits : DecodeLimits} {size : Nat} (depth : layout.bits ∈ [1, 2, 4, 8, 16])
    (positive : 0 < layout.width * layout.components) (fits : layout.checkSize limits = .ok size)
    (length : samples.length = layout.width * layout.components * layout.height)
    (small : ∀ sample ∈ samples, sample < 2 ^ layout.bits) :
    unpack (pack layout samples) layout limits = .ok samples := by
  obtain ⟨unpacked, made⟩ := unpack_eq_ok depth positive fits (pack layout samples)
  rw [made]
  congr 1
  have same : unpacked.length = samples.length := (length_unpack made).trans length.symm
  apply List.ext_getElem same
  intro index inside insideSamples
  have below : index / (layout.width * layout.components) < layout.height :=
    Nat.div_lt_of_lt_mul (length ▸ insideSamples)
  have inRow := Nat.mod_lt index positive
  have there : samples[layout.width * layout.components * (index / (layout.width * layout.components)) +
      index % (layout.width * layout.components)]? = some samples[index] := by
    rw [Nat.div_add_mod, List.getElem?_eq_getElem insideSamples]
  have whole : index / (layout.width * layout.components) <
      samples.length / (layout.width * layout.components) := by
    rwa [length, Nat.mul_div_cancel_left _ positive]
  have read := getElem?_unpack made inRow below
  rw [Nat.div_add_mod, field_pack positive inRow there whole (small _ (List.getElem_mem insideSamples)),
    List.getElem?_eq_getElem inside] at read
  exact Option.some.inj read

end

/-- Unpacking reads each sample from its own bits, in rows that start on a byte, and gives back the samples
that were packed; a depth that images do not have is refused. -/
theorem samples_are_fields (data : Bytes) (layout : SampleLayout) (limits : DecodeLimits) :
    (layout.bits ∉ [1, 2, 4, 8, 16] →
      unpack data layout limits = .error (.format (.sampleDepth layout.bits))) ∧
    (layout.bits ∈ [1, 2, 4, 8, 16] → 0 < layout.width → 0 < layout.height → 0 < layout.components →
      ∀ size, layout.checkSize limits = .ok size →
        (∃ samples, unpack data layout limits = .ok samples ∧
          samples.length = layout.width * layout.height * layout.components ∧
          ∀ y < layout.height, ∀ i < layout.width * layout.components,
            samples[y * (layout.width * layout.components) + i]? =
              some (data.field
                (y * (8 * (layout.width * layout.components * layout.bits ⌈/⌉ 8)) + i * layout.bits)
                layout.bits)) ∧
        ∀ samples : List Nat, samples.length = layout.width * layout.height * layout.components →
          (∀ sample ∈ samples, sample < 2 ^ layout.bits) →
            unpack (pack layout samples) layout limits = .ok samples) := by
  constructor
  · intro unknown
    rw [unpack, if_pos unknown]
    rfl
  · intro depth width _ components size fits
    have positive := Nat.mul_pos width components
    constructor
    · obtain ⟨samples, made⟩ := unpack_eq_ok depth positive fits data
      refine ⟨samples, made, ?_, ?_⟩
      · rw [length_unpack made, Nat.mul_right_comm]
      · intro y below i inside
        have row : y * (8 * (layout.width * layout.components * layout.bits ⌈/⌉ 8)) =
            8 * (bytesOfBits (layout.width * layout.components * layout.bits) * y) := by
          rw [bytesOfBits_eq, Nat.mul_comm y, Nat.mul_assoc]
        rw [Nat.mul_comm y, getElem?_unpack made inside below, row, Nat.mul_comm i]
    · intro samples length small
      exact unpack_pack depth positive fits (length.trans (Nat.mul_right_comm _ _ _)) small

/-- Rows of three bits each; the fourth bit of the first row is not looked at. -/
theorem rows_of_three_bits_are_fields :
    (∃ samples, unpack [0xB0, 0x40] ⟨3, 2, 1, 1⟩ .standard = .ok samples ∧ samples.length = 6 ∧
      ∀ y < 2, ∀ i < 3, samples[y * 3 + i]? = some (Bytes.field [0xB0, 0x40] (y * 8 + i) 1)) ∧
    unpack (pack ⟨3, 2, 1, 1⟩ [1, 0, 1, 0, 1, 0]) ⟨3, 2, 1, 1⟩ .standard = .ok [1, 0, 1, 0, 1, 0] ∧
    unpack [0xB0, 0x40] ⟨3, 2, 1, 3⟩ .standard = .error (.format (.sampleDepth 3)) := by
  have fits : SampleLayout.checkSize ⟨3, 2, 1, 1⟩ .standard = .ok 2 := rfl
  obtain ⟨⟨samples, made, length, fields⟩, packed⟩ :=
    (samples_are_fields [0xB0, 0x40] ⟨3, 2, 1, 1⟩ .standard).2 (by decide) (by decide) (by decide)
      (by decide) 2 fits
  refine ⟨⟨samples, made, length, ?_⟩, packed _ rfl (by decide), ?_⟩
  · intro y below i inside
    have row : 3 ⌈/⌉ 8 = 1 := Nat.ceilDiv_eq_add_pred_div 3 8
    simpa [row] using fields y below i inside
  · exact (samples_are_fields [0xB0, 0x40] ⟨3, 2, 1, 3⟩ .standard).1 (by decide)

end Samples

end PdfCanvas
