import PdfCanvas.Filter.Deflate

/-!
# Steps of deflating and inflating

What the splitting into items does at one position, what inflating does with one item, and what is left to
compute of code lengths once the symbols that occur are sorted.
-/

namespace PdfCanvas

namespace PrefixCode

/-- Optimal lengths are found by sorting what occurs. -/
theorem optimalLengths_of_ascending {limit count : Nat} {frequencies : List Nat}
    (size : frequencies.length = count) (occurring ascending : List (Nat × Nat))
    (occur : (frequencies.zipIdx.filter fun (frequency, _) => 0 < frequency) = occurring)
    (sorted : (occurring.mergeSort fun a b => a.1 ≤ b.1) = ascending)
    {lengths : List (Nat × Nat)} (within : (ascending.map (·.2)).zip (lengthsWithin limit
      (Subtree.joinAll (ascending.map fun (frequency, _) => ⟨frequency, [0]⟩))) = lengths) :
    optimalLengths limit frequencies =
      (List.range count).map fun symbol => (lengths.lookup symbol).getD 0 := by
  subst size occur sorted within
  rfl

end PrefixCode

namespace Deflate

theorem length_frequencies (count : Nat) (symbols : List Nat) :
    (frequencies count symbols).length = count := by
  have size (found : Array Nat) :
      (symbols.foldl (fun found symbol => found.modify symbol (· + 1)) found).size = found.size := by
    induction symbols generalizing found with
    | nil => rfl
    | cons symbol symbols inductionHypothesis =>
      rw [List.foldl_cons, inductionHypothesis, Array.size_modify]
  rw [frequencies, Array.length_toList, size, Array.size_replicate]

namespace Chains

/-- A literal is made where there is no copy and none was put off. -/
theorem itemsFrom_of_none {c : Chains} {position : Nat} (inside : position < c.data.size)
    (noCopy : c.copy? position 2 = none) (fuel : Nat) :
    c.itemsFrom (fuel + 1) position none =
      .literal (c.byte position) :: c.itemsFrom fuel (position + 1) none := by
  rw [itemsFrom, if_neg (Nat.not_le.mpr inside)]
  exact noCopy

theorem itemsFrom_of_long {c : Chains} {position length distance : Nat}
    (inside : position < c.data.size) (copied : c.copy? position 2 = some (length, distance))
    (long : 128 ≤ length) (fuel : Nat) :
    c.itemsFrom (fuel + 1) position none =
      .copy length distance :: c.itemsFrom fuel (position + length) none := by
  rw [itemsFrom.eq_def]
  simp only [Option.map_none, Option.getD_none, copied, if_neg (Nat.not_le.mpr inside),
    if_neg (Nat.not_lt.mpr long)]
  rfl

theorem itemsFrom_of_end {c : Chains} {position : Nat} (atEnd : c.data.size ≤ position) (fuel : Nat)
    (putOff : Option (Nat × Nat)) : c.itemsFrom fuel position putOff = [] := by
  cases fuel with
  | zero => rfl
  | succ fuel => exact if_pos atEnd

theorem items_pair (a b : UInt8) : (ofBytes [a, b]).items = [.literal a, .literal b] := by
  have size : (ofBytes [a, b]).data.size = 2 := rfl
  have first : (ofBytes [a, b]).copy? 0 2 = none := by simp [copy?, size]
  have second : (ofBytes [a, b]).copy? 1 2 = none := by simp [copy?, size]
  rw [items, size, itemsFrom_of_none (by omega) first, itemsFrom_of_none (by omega) second,
    itemsFrom_of_end (by omega)]
  rfl

end Chains

end Deflate

namespace Inflate

theorem inflateItems_of_literal {codes : Codes} {bits rest : Bits} {byte : UInt8}
    (read : readItem codes bits = .ok (.literal byte, rest)) (fuel : Nat) (output : Array UInt8) :
    inflateItems codes (fuel + 1) bits output = inflateItems codes fuel rest (output.push byte) := by
  rw [inflateItems, read]

theorem inflateItems_of_copy {codes : Codes} {bits rest : Bits} {length distance : Nat}
    (read : readItem codes bits = .ok (.copy length distance, rest)) (fuel : Nat)
    {output : Array UInt8} (reached : distance ≤ output.size) :
    inflateItems codes (fuel + 1) bits output =
      inflateItems codes fuel rest (copy output distance length) := by
  rw [inflateItems, read]
  exact if_neg (Nat.not_lt.mpr reached)

theorem inflateBlock_of_codes {bits rest : Bits} {codes : Codes}
    (read : readCodes bits = .ok (codes, rest)) (output : Array UInt8) :
    inflateBlock (true :: false :: true :: bits) output =
      (true, inflateItems codes (rest.length + 1) rest output) := by
  have last : readNat 1 (true :: false :: true :: bits) = .ok (1, false :: true :: bits) := rfl
  have kind : readNat 2 (false :: true :: bits) = .ok (2, bits) := rfl
  rw [inflateBlock, last]
  simp [kind, read]

end Inflate

namespace Flate

theorem inflateWrapped_of_inflate {method flags : UInt8} {data : Bytes} {output : Array UInt8}
    {bits : Bits} (header : isHeader method flags = true)
    (inflated : Inflate.inflate (Bits.lowFirst data) = ⟨output, .ok bits⟩) :
    inflateWrapped (method :: flags :: data) = ⟨output, verify output bits⟩ := by
  rw [inflateWrapped, if_pos header, inflated]

theorem decode_of_wrapped {data : Bytes} {output : Array UInt8} {rest : Bits}
    (unwrapped : inflateWrapped data = ⟨output, .ok rest⟩) : decode data = .ok output.toList := by
  rw [decode, kept, unwrapped]

end Flate

namespace Deflate

theorem encode_save :
    encode [0x71, 0x0A] = [0x78, 0x9C, 0x2B, 0xE4, 0x02, 0x00, 0x00, 0xEE, 0x00, 0x7C] := by
  have items : (Chains.ofBytes [0x71, 0x0A]).items ++ [.endOfBlock] =
      [.literal 0x71, .literal 0x0A, .endOfBlock] := by
    rw [Chains.items_pair]
    rfl
  have block : fixedBlock [.literal 0x71, .literal 0x0A, .endOfBlock] =
      (Bits.lowFirst [0x2B, 0xE4, 0x02, 0x00]).take 26 := by decide +kernel
  have completed : Bits.toBytes ((Bits.lowFirst [0x2B, 0xE4, 0x02, 0x00]).take 26) =
      [0x2B, 0xE4, 0x02, 0x00] := by decide
  rw [encode, items, if_pos (by decide), block, completed]
  rfl

set_option maxRecDepth 8000 in
theorem decode_encode_save : Flate.decode (encode [0x71, 0x0A]) = .ok [0x71, 0x0A] := by
  rw [encode_save]
  rfl

end Deflate

end PdfCanvas
