import PdfCanvas.Proofs.Bits
import PdfCanvas.Proofs.Filter.Inflate

/-!
# Truncated data

The front of wrapped data is inflated to a front of the bytes that all of them are inflated to. But if that
is not a single byte, the data are tried without a wrapper, and its header is taken for the beginning of a
stored block. If the length of that block happens to be followed by its complement, bytes of the data
themselves are given back.
-/

namespace PdfCanvas

namespace Inflate

/-! ## Stored blocks -/

theorem readNat_byte (byte : UInt8) (rest : Bytes) :
    readNat 8 (Bits.lowFirst (byte :: rest)) = .ok (byte.toNat, Bits.lowFirst rest) := by
  rw [readNat, Bits.lowFirst_cons, Bits.split?_of_length (Bits.length_ofByte byte)]
  dsimp only
  rw [Bits.toNat_ofByte]

theorem readNat_pair (low high : UInt8) (rest : Bytes) :
    readNat 16 (Bits.lowFirst (low :: high :: rest)) =
      .ok (low.toNat + 256 * high.toNat, Bits.lowFirst rest) := by
  have both : (Bits.ofByte low ++ Bits.ofByte high).length = 16 := by simp
  rw [readNat, Bits.lowFirst_cons, Bits.lowFirst_cons, ← List.append_assoc,
    Bits.split?_of_length both]
  dsimp only
  rw [Bits.toNat_ofByte_append, Bits.toNat_ofByte]

theorem readNat_short {bytes : Bytes} (short : bytes.length < 2) :
    readNat 16 (Bits.lowFirst bytes) = .error .truncated := by
  have less : (Bits.lowFirst bytes).length < 16 := by
    rw [Bits.length_lowFirst]
    omega
  rw [readNat, Bits.split?_of_short less]

theorem inflateBytes_lowFirst (bytes rest : Bytes) (output : Array UInt8) :
    inflateBytes bytes.length (Bits.lowFirst (bytes ++ rest)) output =
      ⟨output ++ bytes, .ok (Bits.lowFirst rest)⟩ := by
  induction bytes generalizing output with
  | nil => simp [inflateBytes]
  | cons byte bytes inductionHypothesis =>
    have same : byte.toNat.toUInt8 = byte := UInt8.ofNat_toNat
    rw [List.length_cons, List.cons_append, inflateBytes, readNat_byte]
    dsimp only
    rw [inductionHypothesis, same]
    simp

/-- Two bytes are a length, and two more its complement. -/
def IsStoredLength (low high notLow notHigh : UInt8) : Prop :=
  low.toNat + notLow.toNat = 255 ∧ high.toNat + notHigh.toNat = 255

instance (low high notLow notHigh : UInt8) : Decidable (IsStoredLength low high notLow notHigh) :=
  inferInstanceAs (Decidable (_ ∧ _))

theorem readStoredLength_pairs (low high notLow notHigh : UInt8) (rest : Bytes) :
    readStoredLength (Bits.lowFirst (low :: high :: notLow :: notHigh :: rest)) =
      if IsStoredLength low high notLow notHigh then
        .ok (low.toNat + 256 * high.toNat, Bits.lowFirst rest)
      else .error .invalid := by
  have complementary : low.toNat + 256 * high.toNat + (notLow.toNat + 256 * notHigh.toNat) = 0xFFFF ↔
      IsStoredLength low high notLow notHigh := by
    have := low.toNat_lt
    have := notLow.toNat_lt
    unfold IsStoredLength
    omega
  simp only [readStoredLength, readNat_pair, bind, Except.bind, complementary]
  rfl

theorem readStoredLength_short {bytes : Bytes} (short : bytes.length < 4) :
    readStoredLength (Bits.lowFirst bytes) = .error .truncated := by
  match bytes with
  | [] | [_] =>
    rw [readStoredLength, readNat_short (by simp)]
    rfl
  | low :: high :: rest =>
    have short : rest.length < 2 := by
      simp only [List.length_cons] at short
      omega
    simp only [readStoredLength, readNat_pair, bind, Except.bind, readNat_short short]

theorem of_readStoredLength {bytes : Bytes} {length : Nat} {bits : Bits}
    (read : readStoredLength (Bits.lowFirst bytes) = .ok (length, bits)) :
    ∃ low high notLow notHigh rest, bytes = low :: high :: notLow :: notHigh :: rest ∧
      IsStoredLength low high notLow notHigh ∧ bits = Bits.lowFirst rest := by
  have long : ¬bytes.length < 4 := by
    intro short
    rw [readStoredLength_short short] at read
    cases read
  rcases bytes with _ | ⟨low, _ | ⟨high, _ | ⟨notLow, _ | ⟨notHigh, rest⟩⟩⟩⟩
  case cons.cons.cons.cons =>
    rw [readStoredLength_pairs] at read
    split at read
    next complementary =>
      cases read
      exact ⟨low, high, notLow, notHigh, rest, rfl, complementary, rfl⟩
    next => cases read
  all_goals exact absurd (by simp) long

/-- A byte whose first bits are those of a stored block; the rest of them are passed over. -/
theorem inflateBlock_stored {first : UInt8} {last : Bool}
    (stored : Bits.ofByte first = last :: false :: false :: (Bits.ofByte first).drop 3) (rest : Bytes)
    (output : Array UInt8) :
    inflateBlock (Bits.lowFirst (first :: rest)) output =
      (last, match readStoredLength (Bits.lowFirst rest) with
        | .error stop => ⟨output, .error stop⟩
        | .ok (length, bits) => inflateBytes length bits output) := by
  have five : ((Bits.ofByte first).drop 3).length = 5 := by simp
  have aligned : ((Bits.ofByte first).drop 3 ++ Bits.lowFirst rest).length % 8 = 5 := by
    rw [List.length_append, five, Bits.length_lowFirst]
    omega
  have lastBit : readNat 1 (Bits.lowFirst (first :: rest)) =
      .ok (last.toNat, false :: false :: ((Bits.ofByte first).drop 3 ++ Bits.lowFirst rest)) := by
    rw [Bits.lowFirst_cons, stored]
    cases last <;> rfl
  have kind : readNat 2 (false :: false :: ((Bits.ofByte first).drop 3 ++ Bits.lowFirst rest)) =
      .ok (0, (Bits.ofByte first).drop 3 ++ Bits.lowFirst rest) := rfl
  rw [inflateBlock_eq, lastBit]
  simp only [inflateContent, kind, inflateStored_eq, aligned, List.drop_left' five]
  cases last <;> rfl

/-- Data that are one stored block are inflated to what is in it. -/
theorem inflate_stored {first low high notLow notHigh : UInt8} {bytes : Bytes}
    (stored : Bits.ofByte first = true :: false :: false :: (Bits.ofByte first).drop 3)
    (complementary : IsStoredLength low high notLow notHigh)
    (length : low.toNat + 256 * high.toNat = bytes.length) (rest : Bytes) :
    inflate (Bits.lowFirst (first :: low :: high :: notLow :: notHigh :: (bytes ++ rest))) =
      ⟨bytes.toArray, .ok (Bits.lowFirst rest)⟩ := by
  rw [inflate, inflateBlocks, inflateBlock_stored stored, readStoredLength_pairs, if_pos complementary,
    length]
  simp [inflateBytes_lowFirst]

end Inflate

namespace Flate

open Inflate

/-! ## Data without their wrapper -/

/-- Behind the first byte there are the length of a stored block, its complement, and a byte at least. -/
def ReadsAsStored (data : Bytes) : Prop :=
  ∃ first low high notLow notHigh byte rest,
    data = first :: low :: high :: notLow :: notHigh :: byte :: rest ∧
      IsStoredLength low high notLow notHigh

theorem method_of_isHeader {method flags : UInt8} (header : isHeader method flags = true) :
    method &&& 0x0F = 8 := by
  simp only [isHeader, Bool.and_eq_true, decide_eq_true_eq] at header
  exact header.1.2

/-- The first byte of a header begins a stored block that is not the last one. -/
theorem ofByte_of_method : ∀ method : UInt8, method &&& 0x0F = 8 →
    Bits.ofByte method = false :: false :: false :: (Bits.ofByte method).drop 3 :=
  forall_byte (by decide +kernel)

theorem inflateBlocks_nil (fuel : Nat) : (inflateBlocks fuel [] #[]).output = #[] := by
  cases fuel with
  | zero => rfl
  | succ fuel => rfl

theorem readsAsStored_of_output {method : UInt8} (deflated : method &&& 0x0F = 8) {rest : Bytes}
    (some : (inflateRaw (method :: rest)).output ≠ #[]) : ReadsAsStored (method :: rest) := by
  rw [inflateRaw, inflate, inflateBlocks, inflateBlock_stored (ofByte_of_method method deflated)] at some
  cases stored : readStoredLength (Bits.lowFirst rest) with
  | error stop =>
    rw [stored] at some
    exact absurd rfl some
  | ok read =>
    obtain ⟨length, bits⟩ := read
    rw [stored] at some
    obtain ⟨low, high, notLow, notHigh, others, rfl, complementary, rfl⟩ := of_readStoredLength stored
    cases others with
    | cons byte others =>
      exact ⟨method, low, high, notLow, notHigh, byte, others, rfl, complementary⟩
    | nil =>
      -- the block and all data end before a byte of it
      cases length with
      | zero => exact absurd (inflateBlocks_nil _) some
      | succ length => exact absurd rfl some

/-! ## Stored bytes -/

theorem verify_checksum (output : Array UInt8) :
    verify output (Bits.lowFirst (checksum output)) = .ok [] := by
  have length : (Bits.lowFirst (checksum output)).length = 32 := Bits.length_lowFirst _
  have whole := Bits.split?_of_length length []
  rw [List.append_nil] at whole
  simp only [verify, length, whole, Bits.toBytes_lowFirst, Nat.reduceMod, List.drop_zero, if_true]
  rfl

/-- Bytes that are stored in their wrapper are inflated. -/
theorem inflateWrapped_stored {method flags first low high notLow notHigh : UInt8} {bytes : Bytes}
    (header : isHeader method flags = true)
    (stored : Bits.ofByte first = true :: false :: false :: (Bits.ofByte first).drop 3)
    (complementary : IsStoredLength low high notLow notHigh)
    (length : low.toNat + 256 * high.toNat = bytes.length) :
    inflateWrapped (method :: flags :: first :: low :: high :: notLow :: notHigh ::
      (bytes ++ checksum bytes.toArray)) = ⟨bytes.toArray, .ok []⟩ := by
  rw [inflateWrapped, if_pos header, inflate_stored stored complementary length]
  simp only [verify_checksum]

/-! ## Cut data -/

theorem verify_front {more : Bits} (bytes : more.length % 8 = 0) {output : Array UInt8} {bits rest : Bits}
    (verified : verify output (bits ++ more) = .ok rest) : verify output bits ≠ .error .invalid := by
  intro invalid
  simp only [verify, Bits.drop_to_byte bytes] at invalid verified
  cases cut : Bits.split? 32 (bits.drop (bits.length % 8)) with
  | none =>
    rw [cut] at invalid
    cases invalid
  | some pair =>
    obtain ⟨front, others⟩ := pair
    rw [split?_append more cut] at verified
    rw [cut] at invalid
    dsimp only at invalid verified
    split at verified
    next same =>
      rw [if_pos same] at invalid
      cases invalid
    next => cases verified

theorem of_inflateWrapped {data : Bytes} {whole : Array UInt8} {rest : Bits}
    (valid : inflateWrapped data = ⟨whole, .ok rest⟩) :
    ∃ method flags body bits, data = method :: flags :: body ∧ isHeader method flags = true ∧
      inflate (Bits.lowFirst body) = ⟨whole, .ok bits⟩ ∧ verify whole bits = .ok rest := by
  match data with
  | [] | [_] => simp [inflateWrapped] at valid
  | method :: flags :: body =>
    rw [inflateWrapped] at valid
    split at valid
    next header =>
      cases inflated : inflate (Bits.lowFirst body) with
      | mk output stopped =>
        rw [inflated] at valid
        cases stopped with
        | error stop => cases valid
        | ok bits =>
          obtain ⟨rfl, verified⟩ := Result.mk.inj valid
          exact ⟨method, flags, body, bits, rfl, header, inflated, verified⟩
    next => cases valid

/-- What is inflated from the front of valid data is a front of what they are inflated to, and nothing in it
is invalid. -/
theorem inflateWrapped_take {data : Bytes} {whole : Array UInt8} {rest : Bits}
    (valid : inflateWrapped data = ⟨whole, .ok rest⟩) (count : Nat) :
    (inflateWrapped (data.take count)).output.toList <+: whole.toList ∧
      (inflateWrapped (data.take count)).rest ≠ .error .invalid := by
  obtain ⟨method, flags, body, bits, rfl, header, inflated, verified⟩ := of_inflateWrapped valid
  match count with
  | 0 | 1 =>
    -- not even the header is there
    exact ⟨List.nil_prefix, by simp [inflateWrapped]⟩
  | count + 2 =>
    rw [List.take_succ_cons, List.take_succ_cons, inflateWrapped, if_pos header]
    have bytes : (Bits.lowFirst (body.drop count)).length % 8 = 0 := by
      rw [Bits.length_lowFirst]
      omega
    have goesOn := inflate_goesOn bytes (Bits.lowFirst (body.take count))
    rw [← Bits.lowFirst_append, List.take_append_drop, inflated] at goesOn
    generalize inflate (Bits.lowFirst (body.take count)) = cut at goesOn
    -- The last block may be there while the checksum is cut, so nothing is known yet of the bits behind it.
    cases goesOn with
    | ended output bits => exact ⟨List.prefix_rfl, verify_front bytes verified⟩
    | truncated front => exact ⟨front, by simp⟩

/-- Only data that end before the first byte of them is inflated are tried without their wrapper. -/
theorem kept_take {data : Bytes} {whole : Array UInt8} {rest : Bits}
    (valid : inflateWrapped data = ⟨whole, .ok rest⟩) (count : Nat) :
    (∃ front, kept inflateWrapped (data.take count) = .ok front ∧ front <+: whole.toList) ∨
      (inflateWrapped (data.take count)).output = #[] ∧
        kept inflateWrapped (data.take count) = .error .incomplete := by
  obtain ⟨front, notInvalid⟩ := inflateWrapped_take valid count
  rw [kept]
  generalize inflateWrapped (data.take count) = result at front notInvalid
  obtain ⟨output, stopped⟩ := result
  cases stopped with
  | ok rest => exact .inl ⟨_, rfl, front⟩
  | error stop =>
    cases stop with
    | invalid => exact absurd rfl notInvalid
    | truncated =>
      dsimp only
      split
      next none => exact .inr ⟨Array.isEmpty_iff.mp none, rfl⟩
      next => exact .inl ⟨_, rfl, front⟩

theorem output_of_kept {inflate : Bytes → Inflate.Result} {data out : Bytes}
    (keeps : kept inflate data = .ok out) (some : out ≠ []) : (inflate data).output ≠ #[] := by
  intro none
  rw [kept] at keeps
  dsimp only at keeps
  rw [none] at keeps
  split at keeps
  · cases keeps
    exact some rfl
  · cases keeps
  · split at keeps
    · cases keeps
    · cases keeps
      exact some List.take_nil

theorem readsAsStored_of_kept {data : Bytes} {whole : Array UInt8} {rest : Bits}
    (valid : inflateWrapped data = ⟨whole, .ok rest⟩) {count : Nat} {out : Bytes}
    (keeps : kept inflateRaw (data.take count) = .ok out) (some : out ≠ []) :
    ReadsAsStored (data.take count) := by
  have output := output_of_kept keeps some
  obtain ⟨method, flags, body, bits, rfl, header, -, -⟩ := of_inflateWrapped valid
  cases count with
  | zero => exact absurd rfl output
  | succ count =>
    rw [List.take_succ_cons] at output ⊢
    exact readsAsStored_of_output (method_of_isHeader header) output

/-- If the front of valid data can be decoded, a front of what they are inflated to is given, or else what can
be read as a stored block without the wrapper, where not a byte could be inflated. -/
theorem truncated_data_give_a_prefix {data : Bytes} {whole : Array UInt8} {rest : Bits}
    (valid : inflateWrapped data = ⟨whole, .ok rest⟩) (count : Nat) {out : Bytes}
    (decoded : decode (data.take count) = .ok out) :
    out <+: whole.toList ∨
      (inflateWrapped (data.take count)).output = #[] ∧ ReadsAsStored (data.take count) ∧
        kept inflateRaw (data.take count) = .ok out := by
  rw [decode] at decoded
  obtain ⟨front, keeps, isFront⟩ | ⟨none, fails⟩ := kept_take valid count
  · rw [keeps] at decoded
    cases decoded
    exact .inl isFront
  · rw [fails] at decoded
    dsimp only at decoded
    split at decoded
    next bytes keeps =>
      cases decoded
      by_cases some : out = []
      · subst some
        exact .inl List.nil_prefix
      · exact .inr ⟨none, readsAsStored_of_kept valid keeps some, keeps⟩
    next => cases decoded

/-- Two bytes that are stored in their wrapper. -/
def storedPair : Bytes :=
  0x78 :: 0x9C :: 0x01 :: 0x02 :: 0x00 :: 0xFD :: 0xFF :: ([0x71, 0x0A] ++ checksum #[0x71, 0x0A])

theorem first_of_stored_pair :
    inflateWrapped storedPair = ⟨#[0x71, 0x0A], .ok []⟩ ∧ decode (storedPair.take 8) = .ok [0x71] ∧
      (([0x71] : Bytes) <+: [0x71, 0x0A] ∨
        (inflateWrapped (storedPair.take 8)).output = #[] ∧ ReadsAsStored (storedPair.take 8) ∧
          kept inflateRaw (storedPair.take 8) = .ok [0x71]) := by
  have valid : inflateWrapped storedPair = ⟨#[0x71, 0x0A], .ok []⟩ :=
    inflateWrapped_stored rfl rfl (by decide) rfl
  have decoded : decode (storedPair.take 8) = .ok [0x71] := rfl
  exact ⟨valid, decoded, truncated_data_give_a_prefix valid 8 decoded⟩

/-- Zeros, so many that the second byte of the header and the byte behind it are a length, too. Its complement
is found where that of the number of zeros begins. -/
def storedZeros : Bytes :=
  0x78 :: 0xDA :: 0xF9 :: 0x25 :: 0x06 :: 0xDA :: 0xF9 ::
    (List.replicate 1573 0 ++ checksum (List.replicate 1573 0).toArray)

theorem a_byte_of_a_length_is_given :
    inflateWrapped storedZeros = ⟨(List.replicate 1573 0).toArray, .ok []⟩ ∧
      decode (storedZeros.take 6) = .ok [0xDA] ∧ ¬([0xDA] : Bytes) <+: List.replicate 1573 0 := by
  refine ⟨inflateWrapped_stored rfl rfl (by decide) ?_, rfl, ?_⟩
  · rw [List.length_replicate]
    rfl
  · rw [List.replicate_succ, List.cons_prefix_cons]
    intro front
    exact absurd front.1 (by decide)

end Flate

end PdfCanvas
