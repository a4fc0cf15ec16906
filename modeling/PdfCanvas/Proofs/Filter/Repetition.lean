import PdfCanvas.Proofs.Filter.Deflate

/-!
# Deflating repetitions

Two bytes that alternate are found in their chains two positions back, so that they are deflated to copies
of the greatest length. That is where data shrink most.
-/

namespace PdfCanvas

/-- So many bytes, `a` and `b` by turns. -/
def alternating (a b : UInt8) : (count : Nat) → Bytes
  | 0 => []
  | count + 1 => a :: alternating b a count

theorem length_alternating (a b : UInt8) (count : Nat) : (alternating a b count).length = count := by
  induction count generalizing a b with
  | zero => rfl
  | succ count inductionHypothesis => rw [alternating, List.length_cons, inductionHypothesis]

theorem getElem?_alternating (a b : UInt8) (count position : Nat) :
    (alternating a b count)[position]? =
      if position < count then some (if position % 2 = 0 then a else b) else none := by
  induction count generalizing a b position with
  | zero => rfl
  | succ count inductionHypothesis =>
    cases position with
    | zero => rfl
    | succ position =>
      rw [alternating, List.getElem?_cons_succ, inductionHypothesis]
      grind

theorem alternating_succ (a b : UInt8) (count : Nat) :
    alternating a b (count + 1) = alternating a b count ++ [if count % 2 = 0 then a else b] := by
  induction count generalizing a b with
  | zero => rfl
  | succ count inductionHypothesis =>
    rw [alternating, inductionHypothesis, alternating, List.cons_append]
    grind

theorem flatten_replicate_pair (a b : UInt8) (count : Nat) :
    (List.replicate count [a, b]).flatten = alternating a b (2 * count) := by
  induction count with
  | zero => rfl
  | succ count inductionHypothesis =>
    rw [List.replicate_succ, List.flatten_cons, inductionHypothesis]
    rfl

namespace Deflate.Chains

theorem hash_lt (a b c : UInt8) : hash a b c < 32768 := Nat.mod_lt _ (by decide)

/-- Before each position the chain leads two positions back, but not below the first one. -/
theorem link_alternating {a b : UInt8} (distinct : hash a b a ≠ hash b a b) {position : Nat}
    {latest : Array Nat} (size : latest.size = 32768)
    (same : latest[hash a b a]?.getD 0 = position - 2)
    (other : latest[hash b a b]?.getD 0 = position - 1) (earlier : Array Nat) (count : Nat) :
    link position latest earlier (alternating a b count) =
      earlier ++ ((List.range' position (count - 2)).map (· - 2)).toArray := by
  induction count generalizing a b position latest earlier with
  | zero => simp [alternating, link]
  | succ count inductionHypothesis =>
    match count with
    | 0 => simp [alternating, link]
    | 1 => simp [alternating, link]
    | count + 2 =>
      -- the next position begins with the other byte, so both hashes change places
      change link (position + 1) (latest.setIfInBounds (hash a b a) position)
        (earlier.push (latest[hash a b a]?.getD 0)) (alternating b a (count + 2)) = _
      have inBounds : hash a b a < latest.size := size ▸ hash_lt a b a
      rw [inductionHypothesis distinct.symm (by simp [size]), same]
      · simp [List.range'_succ]
      · rw [Array.getElem?_setIfInBounds_ne distinct, other]
        rfl
      · simp [inBounds]

theorem earlier_alternating {a b : UInt8} (distinct : hash a b a ≠ hash b a b)
    {count position : Nat} (inside : position + 2 < count) :
    (ofBytes (alternating a b count)).earlier[position]?.getD 0 = position - 2 := by
  have unset (h : Nat) : (Array.replicate 32768 0)[h]?.getD 0 = 0 := by
    rw [Array.getElem?_replicate]
    split <;> rfl
  have linked : link 0 (Array.replicate 32768 0) #[] (alternating a b count) = _ :=
    link_alternating distinct Array.size_replicate (unset _) (unset _) #[] count
  change (link 0 _ #[] _)[position]?.getD 0 = _
  rw [linked]
  simp [show position < count - 2 by omega]

theorem data_alternating (a b : UInt8) (count position : Nat) :
    (ofBytes (alternating a b count)).data[position]? =
      if position < count then some (if position % 2 = 0 then a else b) else none := by
  rw [← getElem?_alternating]
  exact List.getElem?_toArray

theorem commonLength_alternating (a b : UInt8) {count limit p q : Nat} (parity : p % 2 = q % 2)
    (insideP : p + limit ≤ count) (insideQ : q + limit ≤ count) :
    (ofBytes (alternating a b count)).commonLength limit p q = limit := by
  induction limit generalizing p q with
  | zero => rfl
  | succ limit inductionHypothesis =>
    rw [commonLength, data_alternating, data_alternating,
      inductionHypothesis (by omega) (by omega) (by omega)]
    grind

section

variable {a b : UInt8} {count : Nat}

/-- The first three positions begin no copy: their chains are at an end. -/
theorem copy?_alternating_front (distinct : hash a b a ≠ hash b a b) {position : Nat}
    (front : position < 3) (inside : position + 2 < count) :
    (ofBytes (alternating a b count)).copy? position 2 = none := by
  have before := earlier_alternating distinct inside
  have ended : position - 2 = 0 := by omega
  rw [ended] at before
  simp [copy?, search, probe, before]

/-- Where enough bytes follow, the greatest copy is made from two positions back. -/
theorem copy?_alternating (distinct : hash a b a ≠ hash b a b) {position : Nat}
    (behindFront : 3 ≤ position) (inside : position + 258 ≤ count) (near : count ≤ 32768) :
    (ofBytes (alternating a b count)).copy? position 2 = some (258, 2) := by
  have size : (ofBytes (alternating a b count)).data.size = count := by
    simp [ofBytes, length_alternating]
  have before : (ofBytes (alternating a b count)).earlier[position]?.getD 0 = position - 2 :=
    earlier_alternating distinct (by omega)
  have back : position - (position - 2) = 2 := by omega
  have reached : ¬ (((position - 2) % 65536 = 0) ∨ min position (32768 - 258) < 2) := by omega
  have agree : (ofBytes (alternating a b count)).commonLength 2 (position - 2 + 2 - 1)
      (position + 2 - 1) = 2 := commonLength_alternating a b (by omega) (by omega) (by omega)
  have longest : (ofBytes (alternating a b count)).commonLength 258 (position - 2) position = 258 :=
    commonLength_alternating a b (by omega) (by omega) (by omega)
  have probed : (ofBytes (alternating a b count)).probe position (min position (32768 - 258)) 2 3
      position = .candidate (position - 2) := by
    rw [probe, before, back, if_neg reached]
    exact if_pos agree
  have found (rounds : Nat) : (ofBytes (alternating a b count)).search position
      (min position (32768 - 258)) 258 (rounds + 1) position (2, 0) = (258, 2) := by
    rw [search, probed]
    simp only [longest, back]
    rfl
  have most : min 258 (count - position) = 258 := by omega
  -- the copy is kept: it is not empty, not short and far away, and not from the first position
  have elsewhere : ¬ (2 = 0 ∨ (258 = 3 ∧ 8192 ≤ 2) ∨ 2 = position % 32768) := by omega
  rw [copy?, size, most]
  simp only [show (2 : Nat) < 32 by decide, show ¬ (258 : Nat) ≤ 2 by decide, if_true, if_false, found]
  rw [if_neg elsewhere]

theorem copy?_alternating_last :
    (ofBytes (alternating a b (count + 1))).copy? count 2 = none := by
  have size : (ofBytes (alternating a b (count + 1))).data.size = count + 1 := by
    simp [ofBytes, length_alternating]
  simp [copy?, size]

theorem byte_alternating {position : Nat} (inside : position < count) :
    (ofBytes (alternating a b count)).byte position = if position % 2 = 0 then a else b := by
  rw [byte, data_alternating, if_pos inside]
  rfl

theorem itemsFrom_alternating (distinct : hash a b a ≠ hash b a b) {position fuel : Nat}
    (copies : Nat) (behindFront : 3 ≤ position) (whole : position + 258 * copies + 1 = count)
    (near : count ≤ 32768) (enough : copies + 2 ≤ fuel) :
    (ofBytes (alternating a b count)).itemsFrom fuel position none =
      List.replicate copies (.copy 258 2) ++
        [.literal ((ofBytes (alternating a b count)).byte (count - 1))] := by
  have size : (ofBytes (alternating a b count)).data.size = count := by
    simp [ofBytes, length_alternating]
  induction copies generalizing position fuel with
  | zero =>
    obtain ⟨fuel, rfl⟩ : ∃ rest, fuel = rest + 2 := ⟨fuel - 2, by omega⟩
    obtain rfl : position + 1 = count := by omega
    rw [itemsFrom_of_none (by omega) copy?_alternating_last, itemsFrom_of_end (by omega)]
    rfl
  | succ copies inductionHypothesis =>
    obtain ⟨fuel, rfl⟩ : ∃ rest, fuel = rest + 1 := ⟨fuel - 1, by omega⟩
    rw [itemsFrom_of_long (by omega) (copy?_alternating distinct behindFront (by omega) near)
      (by decide), inductionHypothesis (by omega) (by omega) (by omega)]
    rfl

/-- Three bytes by themselves, then copies of the greatest length, and the last byte. -/
theorem items_alternating (distinct : hash a b a ≠ hash b a b) {copies : Nat}
    (near : 258 * copies + 262 ≤ 32768) :
    (ofBytes (alternating a b (258 * copies + 262))).items =
      [.literal a, .literal b, .literal a] ++ List.replicate (copies + 1) (.copy 258 2) ++
        [.literal b] := by
  have size : (ofBytes (alternating a b (258 * copies + 262))).data.size = 258 * copies + 262 := by
    simp [ofBytes, length_alternating]
  rw [items, size, itemsFrom_of_none (by omega) (copy?_alternating_front distinct (by decide) (by omega)),
    itemsFrom_of_none (by omega) (copy?_alternating_front distinct (by decide) (by omega)),
    itemsFrom_of_none (by omega) (copy?_alternating_front distinct (by decide) (by omega)),
    itemsFrom_alternating distinct (copies + 1) (by omega) (by omega) near (by omega),
    byte_alternating (by omega), byte_alternating (by omega), byte_alternating (by omega),
    byte_alternating (by omega), if_neg (show ¬ (258 * copies + 262 - 1) % 2 = 0 by omega)]
  rfl

end

end Deflate.Chains

namespace Inflate

/-- A copy from two positions back goes on by turns. -/
theorem copy_alternating (a b : UInt8) {count : Nat} (behindFront : 2 ≤ count) (length : Nat) :
    copy (alternating a b count).toArray 2 length = (alternating a b (count + length)).toArray := by
  induction length generalizing count with
  | zero => rfl
  | succ length inductionHypothesis =>
    have parity : (count - 2) % 2 = count % 2 := by omega
    rw [copy, List.size_toArray, length_alternating, List.getElem?_toArray, getElem?_alternating,
      if_pos (by omega), parity, Option.getD_some, List.push_toArray, ← alternating_succ,
      inductionHypothesis (by omega), Nat.add_right_comm, Nat.add_assoc]

theorem inflateItems_alternating {codes : Codes} {front : Bits} {length : Nat}
    (read : ∀ rest, readItem codes (front ++ rest) = .ok (.copy length 2, rest)) (a b : UInt8)
    {count : Nat} (behindFront : 2 ≤ count) (copies fuel : Nat) (rest : Bits) :
    inflateItems codes (fuel + copies) ((List.replicate copies front).flatten ++ rest)
        (alternating a b count).toArray =
      inflateItems codes fuel rest (alternating a b (count + length * copies)).toArray := by
  induction copies generalizing count with
  | zero => rfl
  | succ copies inductionHypothesis =>
    have reached : 2 ≤ (alternating a b count).toArray.size := by
      rwa [List.size_toArray, length_alternating]
    rw [List.replicate_succ, List.flatten_cons, List.append_assoc, ← Nat.add_assoc,
      inflateItems_of_copy (read _) _ reached, copy_alternating a b behindFront,
      inductionHypothesis (by omega), Nat.mul_add_one, Nat.add_right_comm, Nat.add_assoc]

end Inflate

namespace Flate

/-- The first sum is linear in the number of pairs, the second one quadratic. -/
theorem checksums_alternating (a b : UInt8) (pairs : Nat) :
    checksums (alternating a b (2 * pairs)).toArray =
      ((1 + pairs * (a.toNat + b.toNat)) % 65521,
        (2 * pairs + pairs * pairs * (a.toNat + b.toNat) + pairs * a.toNat) % 65521) := by
  unfold checksums
  rw [List.foldl_toArray]
  induction pairs with
  | zero => simp [alternating]
  | succ pairs inductionHypothesis =>
    have parity : 2 * pairs % 2 = 0 := by omega
    have parityNext : ¬ (2 * pairs + 1) % 2 = 0 := by omega
    rw [show 2 * (pairs + 1) = 2 * pairs + 1 + 1 by omega, alternating_succ, alternating_succ,
      if_pos parity, if_neg parityNext, List.foldl_append, List.foldl_append, inductionHypothesis]
    simp only [List.foldl_cons, List.foldl_nil, Prod.mk.injEq, Nat.add_mul, Nat.mul_add, Nat.mul_one,
      Nat.one_mul]
    omega

end Flate

namespace Deflate

/-! ## Fills in a row -/

open Inflate (Item Codes)

/-- The bytes of 1421 fills. -/
def manyFills : Bytes := alternating 0x66 0x0A (2 * 1421)

def fillItems : List Item :=
  [.literal 0x66, .literal 0x0A, .literal 0x66] ++ List.replicate 11 (.copy 258 2) ++
    [.literal 0x0A, .endOfBlock]

theorem items_manyFills : (Chains.ofBytes manyFills).items ++ [.endOfBlock] = fillItems := by
  have distinct : hash 0x66 0x0A 0x66 ≠ hash 0x0A 0x66 0x0A := by decide
  have length : 2 * 1421 = 258 * 10 + 262 := by decide
  rw [manyFills, length, Chains.items_alternating distinct (by decide)]
  rfl

/-- The lengths of the codes for literals and lengths. -/
def fillLengths : List Nat :=
  (List.range 286).map fun symbol =>
    ([(256, 3), (10, 3), (102, 2), (285, 1)].lookup symbol).getD 0

theorem fillLengths_eq :
    PrefixCode.optimalLengths 15 (frequencies 286 (fillItems.map literalSymbol)) = fillLengths :=
  PrefixCode.optimalLengths_of_ascending (length_frequencies _ _)
    [(2, 10), (2, 102), (1, 256), (11, 285)] [(1, 256), (2, 10), (2, 102), (11, 285)]
    (by decide +kernel) (by simp [List.mergeSort, List.MergeSort.Internal.splitInTwo])
    (by decide +kernel)

def fillDistances : List Nat :=
  (List.range 30).map fun symbol => ([(1, 1)].lookup symbol).getD 0

theorem fillDistances_eq :
    PrefixCode.optimalLengths 15 (frequencies 30 (fillItems.filterMap distanceSymbol?)) =
      fillDistances :=
  PrefixCode.optimalLengths_of_ascending (length_frequencies _ _)
    [(11, 1)] [(11, 1)] (by decide +kernel) (List.mergeSort_singleton _) (by decide +kernel)

/-- The symbols that describe both codes. -/
def fillSymbols : List LengthSymbol :=
  [⟨17, 3, 7⟩, .single 3, ⟨18, 7, 80⟩, .single 2, ⟨18, 7, 127⟩, ⟨18, 7, 4⟩, .single 3, ⟨18, 7, 17⟩,
    .single 1, .single 0, .single 1]

theorem fillSymbols_eq :
    LengthSymbol.ofLengths 0 (trimmed 257 fillLengths ++ trimmed 1 fillDistances) = fillSymbols := by
  decide +kernel

theorem fillSymbolLengths_eq :
    PrefixCode.optimalLengths 7 (frequencies 19 (fillSymbols.map (·.symbol))) =
      (List.range 19).map fun symbol =>
        ([(0, 3), (2, 3), (17, 3), (1, 3), (3, 2), (18, 2)].lookup symbol).getD 0 :=
  PrefixCode.optimalLengths_of_ascending (length_frequencies _ _)
    [(1, 0), (2, 1), (1, 2), (2, 3), (1, 17), (4, 18)]
    [(1, 0), (1, 2), (1, 17), (2, 1), (2, 3), (4, 18)]
    (by decide +kernel) (by simp [List.mergeSort, List.MergeSort.Internal.splitInTwo])
    (by decide +kernel)

/-- The bytes of the block; four bits are left in the last one. -/
def fillBlock : Bytes :=
  [0xED, 0xC1, 0x31, 0x0D, 0x00, 0x00, 0x00, 0xC2, 0xB0, 0x1F, 0xA1, 0xF3, 0x2F, 0x01, 0x23, 0x4D,
    0x5B, 0x00, 0x00, 0xC0, 0x0E]

theorem describedBlock_fillItems :
    describedBlock fillItems = (Bits.lowFirst fillBlock).take 164 := by
  simp only [describedBlock, describe, fillLengths_eq, fillDistances_eq, fillSymbols_eq,
    fillSymbolLengths_eq]
  decide +kernel

def fillChecksum : Bytes := [0xE5, 0x8B, 0x6D, 0xCF]

theorem checksum_manyFills : Flate.checksum manyFills.toArray = fillChecksum := by
  rw [Flate.checksum, manyFills, Flate.checksums_alternating]
  decide +kernel

/-- Nearly three thousand bytes are deflated to twenty-seven. -/
theorem encode_manyFills : encode manyFills = 0x78 :: 0x9C :: (fillBlock ++ fillChecksum) := by
  have long : ¬ manyFills.length < 48 := by
    rw [manyFills, length_alternating]
    decide
  have completed : Bits.toBytes ((Bits.lowFirst fillBlock).take 164) = fillBlock := by decide +kernel
  rw [encode, items_manyFills, if_neg long, describedBlock_fillItems, completed, checksum_manyFills]
  rfl

/-- The codes that the block describes. -/
def fillCodes : Codes :=
  ⟨.node (.leaf 285) (.node (.leaf 102) (.node (.leaf 10) (.leaf 256))), .node (.leaf 1) .gap⟩

def fillRest : Bits := List.replicate 4 false ++ Bits.lowFirst fillChecksum

/-- The bits of the items: three literals, the copies, a literal and the end. -/
def fillItemBits : Bits :=
  [true, false] ++ ([true, true, false] ++ ([true, false] ++
    ((List.replicate 11 [false, false]).flatten ++ ([true, true, false] ++
      ([true, true, true] ++ fillRest)))))

set_option maxRecDepth 8000 in
theorem readCodes_fills :
    Inflate.readCodes ((Bits.lowFirst (fillBlock ++ fillChecksum)).drop 3) =
      .ok (fillCodes, fillItemBits) := by
  rfl

theorem inflateItems_fills (fuel : Nat) :
    Inflate.inflateItems fillCodes (fuel + 16) fillItemBits #[] =
      ⟨manyFills.toArray, .ok fillRest⟩ := by
  have readF (rest : Bits) :
      Inflate.readItem fillCodes ([true, false] ++ rest) = .ok (.literal 0x66, rest) := rfl
  have readNewline (rest : Bits) :
      Inflate.readItem fillCodes ([true, true, false] ++ rest) = .ok (.literal 0x0A, rest) := rfl
  have readCopy (rest : Bits) :
      Inflate.readItem fillCodes ([false, false] ++ rest) = .ok (.copy 258 2, rest) := rfl
  have front : ((#[].push 0x66).push 0x0A).push 0x66 = (alternating 0x66 0x0A 3).toArray := rfl
  have copies : fuel + 13 = fuel + 2 + 11 := rfl
  have whole : (alternating 0x66 0x0A (3 + 258 * 11)).toArray.push 0x0A = manyFills.toArray := by
    have length : 2 * 1421 = 3 + 258 * 11 + 1 := by decide
    rw [manyFills, length, alternating_succ _ _ (3 + 258 * 11), if_neg (by decide), List.push_toArray]
  rw [fillItemBits, Inflate.inflateItems_of_literal (readF _),
    Inflate.inflateItems_of_literal (readNewline _), Inflate.inflateItems_of_literal (readF _), front,
    copies, Inflate.inflateItems_alternating readCopy _ _ (by decide),
    Inflate.inflateItems_of_literal (readNewline _), whole]
  rfl

theorem decode_encode_manyFills : Flate.decode (encode manyFills) = .ok manyFills := by
  have header : Flate.isHeader 0x78 0x9C = true := by decide
  have front : (Bits.lowFirst (fillBlock ++ fillChecksum)).take 3 = [true, false, true] := by decide
  have block : Bits.lowFirst (fillBlock ++ fillChecksum) =
      true :: false :: true :: (Bits.lowFirst (fillBlock ++ fillChecksum)).drop 3 :=
    (List.take_append_drop 3 _).symm.trans (congrArg (· ++ _) front)
  have fuel : fillItemBits.length + 1 = 56 + 16 := by decide
  have inflated : Inflate.inflate (Bits.lowFirst (fillBlock ++ fillChecksum)) =
      ⟨manyFills.toArray, .ok fillRest⟩ := by
    rw [Inflate.inflate, Inflate.inflateBlocks, block, Inflate.inflateBlock_of_codes readCodes_fills,
      fuel, inflateItems_fills]
  have verified : Flate.verify manyFills.toArray fillRest = .ok [] := by
    rw [Flate.verify, checksum_manyFills]
    rfl
  have unwrapped := Flate.inflateWrapped_of_inflate header inflated
  rw [verified] at unwrapped
  rw [encode_manyFills]
  exact Flate.decode_of_wrapped unwrapped

end Deflate

end PdfCanvas
