import PdfCanvas.Proofs.Filter.RunLength
import PdfCanvas.Proofs.Machine.Predictors

/-!
# Filters on a machine

The decoders of run lengths and of hexadecimal digits are taken step by step, and so are the predictors and
the limits between filters. What inflates data, reads codes from them or decodes pictures is taken as it is:
only that its output has to be kept in memory counts.
-/

namespace PdfCanvas

namespace Machine

/-! ## Run lengths -/

/-- Takes run after run from the front of the data and puts what it stands for behind the output. -/
def decodeRuns (output : Bytes) : Bytes → Run Bytes
  | [] => .ok output
  | length :: rest =>
    if length < 128 then do
      let count ← add 64 length.toNat 1
      if rest.length < count then refuse (.decode (.literalRun count rest.length))
      else do
        let literal ← slice rest 0 count
        decodeRuns (← hold (output ++ literal)) (rest.drop count)
    else if length = 128 then .ok output
    else
      match rest with
      | [] => refuse (.decode .repeatedByte)
      | byte :: rest => do
        let size ← sub (← add 64 output.length 257) length.toNat
        let repeated := List.replicate (size - output.length) byte
        decodeRuns (← hold (output ++ repeated)) rest
  termination_by data => data.length
  decreasing_by all_goals simp only [List.length_cons, List.length_drop]; omega

/-- Runs are decoded with any output before them that is in memory. By induction on the data. -/
theorem decodeRuns_safe {output : Bytes} (held : output.length < memorySize) (data : Bytes) :
    Safe (decodeRuns output data) ((output ++ ·) <$> RunLength.decodeRuns 0 data) := by
  have room : memorySize = 1 <<< 60 := rfl
  match data with
  | [] =>
    rw [decodeRuns]
    exact Safe.of_ok (congrArg Except.ok (List.append_nil output).symm)
  | length :: rest =>
    have byteSize := length.toNat_lt
    rw [decodeRuns.eq_def]
    dsimp only
    by_cases isLiteral : length < 128
    · rw [if_pos isLiteral, add_ok (by omega), ok_bind, RunLength.decodeRuns_literal isLiteral]
      by_cases short : rest.length < length.toNat + 1
      · rw [if_pos short, if_pos short]
        exact .refuse rfl
      · rw [if_neg short, slice_ok (Nat.zero_le _) (Nat.not_lt.mp short), ok_bind, List.drop_zero,
          if_neg short]
        refine Safe.hold fun heldAll => ?_
        have rest := decodeRuns_safe heldAll (rest.drop (length.toNat + 1))
        simpa only [Functor.map_map, List.append_assoc] using rest
    · rw [if_neg isLiteral]
      by_cases isEnd : length = 128
      · subst isEnd
        exact Safe.of_ok (congrArg Except.ok (List.append_nil output).symm)
      · have isRepeat : 128 < length :=
          UInt8.lt_of_le_of_ne (UInt8.not_lt.mp isLiteral) (Ne.symm isEnd)
        rw [if_neg isEnd]
        match rest with
        | [] =>
          rw [RunLength.decodeRuns_unrepeated isRepeat]
          exact .refuse rfl
        | byte :: rest =>
          have count : output.length + 257 - length.toNat - output.length = 257 - length.toNat := by omega
          dsimp only
          rw [add_ok (by omega), ok_bind, sub_ok (by omega), ok_bind, count,
            RunLength.decodeRuns_repeated isRepeat]
          refine Safe.hold fun heldAll => ?_
          have rest := decodeRuns_safe heldAll rest
          simpa only [Functor.map_map, List.append_assoc] using rest
  termination_by data.length
  decreasing_by all_goals simp only [List.length_cons, List.length_drop]; omega

/-! ## Hexadecimal digits -/

def digitValue (digit : UInt8) : Run UInt8 :=
  if 0x30 ≤ digit ∧ digit ≤ 0x39 then Nat.toUInt8 <$> sub digit.toNat 0x30
  else if 0x41 ≤ digit ∧ digit ≤ 0x46 then do return (← add 8 (← sub digit.toNat 0x41) 10).toUInt8
  else if 0x61 ≤ digit ∧ digit ≤ 0x66 then do return (← add 8 (← sub digit.toNat 0x61) 10).toUInt8
  else refuse (.decode (.hexDigit digit))

def pairValue (high low : UInt8) : Run UInt8 := do
  let front ← shiftLeft 8 (← digitValue high).toNat 4
  let back ← digitValue low
  return front.toUInt8 ||| back

def decodeDigits : Bytes → Run Bytes
  | [] => .ok []
  | [high] => do return [← pairValue high 0x30]
  | high :: low :: rest => do
    let byte ← pairValue high low
    return byte :: (← decodeDigits rest)

def decodeHex (data : Bytes) : Run Bytes := do
  reserve (← divide data.length 2) 1
  decodeDigits (AsciiHex.digits data)

theorem sub_toUInt8 {low high start digit : UInt8} (before : start ≤ low)
    (between : low ≤ digit ∧ digit ≤ high) :
    low.toNat ≤ digit.toNat ∧ digit.toNat ≤ high.toNat ∧
      (digit.toNat - start.toNat).toUInt8 = digit - start := by
  refine ⟨UInt8.le_iff_toNat_le.mp between.1, UInt8.le_iff_toNat_le.mp between.2, ?_⟩
  rw [← UInt8.toNat_sub_of_le digit start (UInt8.le_trans before between.1)]
  exact UInt8.ofNat_toNat

theorem digitValue_safe (digit : UInt8) : Safe (digitValue digit) (AsciiHex.digitValue digit) := by
  unfold digitValue AsciiHex.digitValue
  split
  next decimal =>
    obtain ⟨after, -, value⟩ := sub_toUInt8 (UInt8.le_refl 0x30) decimal
    simp only [UInt8.reduceToNat] at after value
    rw [sub_ok after, ← value]
    exact .ok _
  next =>
    split
    next upper =>
      obtain ⟨after, before, value⟩ := sub_toUInt8 (by decide : (0x37 : UInt8) ≤ 0x41) upper
      simp only [UInt8.reduceToNat] at after before value
      have same : digit.toNat - 0x41 + 10 = digit.toNat - 0x37 := by omega
      rw [sub_ok after, ok_bind, add_ok (by omega), ok_bind, same, value]
      exact .ok _
    next =>
      split
      next lower =>
        obtain ⟨after, before, value⟩ := sub_toUInt8 (by decide : (0x57 : UInt8) ≤ 0x61) lower
        simp only [UInt8.reduceToNat] at after before value
        have same : digit.toNat - 0x61 + 10 = digit.toNat - 0x57 := by omega
        rw [sub_ok after, ok_bind, add_ok (by omega), ok_bind, same, value]
        exact .ok _
      next => exact .refuse rfl

theorem digitValue_lt {digit value : UInt8} (named : AsciiHex.digitValue digit = .ok value) :
    value.toNat < 16 := by
  have every : ∀ digit : Fin 256, ∀ value ∈ (AsciiHex.digitValue (.ofFin digit)).toOption,
      value.toNat < 16 := by decide +kernel
  apply every digit.toFin
  rw [show UInt8.ofFin digit.toFin = digit from rfl, named]
  rfl

theorem pairValue_safe (high low : UInt8) : Safe (pairValue high low) (AsciiHex.pairValue high low) := by
  refine (digitValue_safe high).bind fun front named => ?_
  have shifted : shiftLeft 8 front.toNat 4 = .ok (16 * front.toNat) := by
    have small := digitValue_lt named
    rw [shiftLeft, if_pos (by decide), Nat.mod_eq_of_lt (by omega)]
    congr 1
    omega
  rw [shifted, ok_bind]
  refine (digitValue_safe low).bind fun back namedLow => Safe.of_ok (congrArg Except.ok ?_)
  -- the halves of the byte do not overlap
  have every : ∀ front back : Fin 16, (16 * front.val).toUInt8 ||| back.val.toUInt8 =
      16 * front.val.toUInt8 + back.val.toUInt8 := by decide
  have joined := every ⟨front.toNat, digitValue_lt named⟩ ⟨back.toNat, digitValue_lt namedLow⟩
  simpa using joined

theorem decodeDigits_safe (digits : Bytes) :
    Safe (decodeDigits digits) (AsciiHex.decodeDigits digits) := by
  fun_induction decodeDigits digits with
  | case1 => exact .ok []
  | case2 high => exact (pairValue_safe high _).bind fun _ _ => .ok _
  | case3 high low rest inductionHypothesis =>
    refine (pairValue_safe high low).bind fun byte _ => ?_
    exact inductionHypothesis.bind fun _ _ => .ok _

theorem decodeHex_safe {data : Bytes} (held : data.length < memorySize) :
    Safe (decodeHex data) (AsciiHex.decode data) := by
  have room := memorySize_lt_bufferSize
  rw [decodeHex, divide_ok (by decide), ok_bind]
  exact Safe.reserve (by omega) (decodeDigits_safe (AsciiHex.digits data))

/-! ## One filter after the other -/

def decodeBy (filter : Filter) (earlyChange : Bool) (data : Bytes) : Run Bytes :=
  match filter with
  | .runLength => decodeRuns [] data
  | .asciiHex => decodeHex data
  | .flate => lift (Flate.decode data)
  | .lzw => lift (Lzw.decode earlyChange data)
  | .dct => Jpeg.Decoded.samples <$> lift (Jpeg.decode data)
  | .jpx | .ccittFax | .jbig2 => refuse (.unsupportedFilter filter.name)

/-- Undoes the predictor after a filter that may have one. -/
def undoPredictor (filter : Filter) (params : Option DecodeParams) (data : Bytes) : Run Bytes :=
  match params with
  | some params => if filter.usesPredictor && params.predictor != 1 then undo params data else .ok data
  | none => .ok data

/-- Passes data through one filter, given by name, and its predictor. -/
def decodeFilter (name : String) (params : Option DecodeParams) (data : Bytes) : Run Bytes :=
  match Filter.ofName? name with
  | none => refuse (.unsupportedFilter name)
  | some filter => do
    let decoded ← decodeBy filter ((params.map (·.earlyChange)).getD true) data
    undoPredictor filter params (← hold decoded)

/-- Refuses decoded data that are too large in proportion to the encoded data. -/
def checkRatio (limits : DecodeLimits) (encoded decoded : Nat) : Run Unit :=
  if 0 < limits.ratio ∧ 0 < encoded then do
    let ratio ← divide decoded encoded
    if limits.ratio < ratio then refuse (.decode (.ratioLimit ratio limits.ratio encoded decoded))
    else .ok ()
  else .ok ()

/-- Refuses decoded data that are too large at all. -/
def checkSize (limits : DecodeLimits) (decoded : Nat) : Run Unit :=
  if 0 < limits.size ∧ limits.size < decoded then refuse (.decode (.sizeLimit decoded limits.size))
  else .ok ()

def check (limits : DecodeLimits) (encoded decoded : Nat) : Run Unit := do
  checkRatio limits encoded decoded
  checkSize limits decoded

/-- Passes data through filters; `encoded` is the size of the data that the first one was given. -/
def decodeFilters (params : Option DecodeParams) (limits : DecodeLimits) (encoded : Nat) :
    List String → Bytes → Run Bytes
  | [], data => .ok data
  | name :: names, data => do
    let decoded ← hold (← decodeFilter name params data)
    check limits encoded decoded.length
    decodeFilters params limits encoded names decoded

def decodeStream (data : Bytes) (names : List String) (params : Option DecodeParams)
    (limits : DecodeLimits) : Run Bytes := do
  decodeFilters params limits data.length names (← hold data)

/-! ## Filters do not panic -/

theorem inflate_safe (data : Bytes) : Safe (lift (Flate.decode data)) (Flate.decode data) := by
  apply Safe.lift
  unfold Flate.decode
  grind [NeverAborts]

theorem readCodes_safe (early : Bool) (data : Bytes) :
    Safe (lift (Lzw.decode early data)) (Lzw.decode early data) := by
  apply Safe.lift
  unfold Lzw.decode
  grind [NeverAborts]

theorem jpeg_safe (data : Bytes) : Safe (lift (Jpeg.decode data)) (Jpeg.decode data) := by
  apply Safe.lift
  unfold Jpeg.decode
  grind [NeverAborts]

theorem checkSize_safe (limits : DecodeLimits) (decoded : Nat) :
    Safe (checkSize limits decoded)
      (if 0 < limits.size ∧ limits.size < decoded then
        .error (.decode (.sizeLimit decoded limits.size)) else .ok ()) := by
  unfold checkSize
  split
  · exact .refuse rfl
  · exact .ok ()

theorem check_safe (limits : DecodeLimits) (encoded decoded : Nat) :
    Safe (check limits encoded decoded) (limits.check encoded decoded) := by
  rw [check, checkRatio, DecodeLimits.check]
  by_cases applies : 0 < limits.ratio ∧ 0 < encoded
  · rw [if_pos applies, divide_ok (by omega), ok_bind]
    by_cases exceeded : limits.ratio < decoded / encoded
    · have beyond : 0 < limits.ratio ∧ 0 < encoded ∧ limits.ratio < decoded / encoded :=
        ⟨applies.1, applies.2, exceeded⟩
      rw [if_pos exceeded, if_pos beyond]
      exact .refuse rfl
    · have within : ¬ (0 < limits.ratio ∧ 0 < encoded ∧ limits.ratio < decoded / encoded) :=
        fun all => exceeded all.2.2
      rw [if_neg exceeded, if_neg within, ok_bind]
      exact checkSize_safe limits decoded
  · have within : ¬ (0 < limits.ratio ∧ 0 < encoded ∧ limits.ratio < decoded / encoded) :=
      fun all => applies ⟨all.1, all.2.1⟩
    rw [if_neg applies, if_neg within, ok_bind]
    exact checkSize_safe limits decoded

section

variable {data : Bytes} {params : Option DecodeParams}

theorem decodeBy_safe (filter : Filter) (earlyChange : Bool) (held : data.length < memorySize) :
    Safe (decodeBy filter earlyChange data) (filter.decode earlyChange data) := by
  cases filter with
  | runLength =>
    have safe : Safe (decodeRuns [] data) (id <$> RunLength.decodeRuns 0 data) :=
      decodeRuns_safe (by decide) data
    rwa [id_map] at safe
  | asciiHex => exact decodeHex_safe held
  | flate => exact inflate_safe data
  | lzw => exact readCodes_safe earlyChange data
  | dct => exact (jpeg_safe data).map Jpeg.Decoded.samples
  | jpx => exact .refuse rfl
  | ccittFax => exact .refuse rfl
  | jbig2 => exact .refuse rfl

theorem undoPredictor_safe (filter : Filter) (positive : ∀ p ∈ params, p.IsPositive)
    (held : data.length < memorySize) :
    Safe (undoPredictor filter params data) (filter.undoPredictor params data) := by
  cases params with
  | none => exact .ok data
  | some p =>
    rw [undoPredictor, Filter.undoPredictor]
    split
    · exact .of_runs (undo_runsAs p (Nat.lt_trans held memorySize_lt_bufferSize))
        (Predictor.neverAborts_undo (positive p rfl).not_hasEmptyRows data)
    · exact .ok data

theorem decodeFilter_safe (name : String) (positive : ∀ p ∈ params, p.IsPositive)
    (held : data.length < memorySize) :
    Safe (decodeFilter name params data) (PdfCanvas.decodeFilter name params data) := by
  rw [decodeFilter, PdfCanvas.decodeFilter]
  cases Filter.ofName? name with
  | none => exact .refuse rfl
  | some filter =>
    refine (decodeBy_safe filter _ held).bind fun produced _ => ?_
    exact Safe.hold fun heldProduced => undoPredictor_safe filter positive heldProduced

/-- Filters with parameters whose sizes are positive are run without a panic, each on data in memory. -/
theorem decodeFilters_safe (positive : ∀ p ∈ params, p.IsPositive) (limits : DecodeLimits)
    (encoded : Nat) (names : List String) (held : data.length < memorySize) :
    Safe (decodeFilters params limits encoded names data)
      (PdfCanvas.decodeFilters params limits encoded names data) := by
  induction names generalizing data with
  | nil => exact .ok data
  | cons name names inductionHypothesis =>
    rw [decodeFilters, PdfCanvas.decodeFilters]
    refine (decodeFilter_safe name positive held).bind fun decoded _ => ?_
    refine Safe.hold fun heldDecoded => ?_
    exact (check_safe limits encoded decoded.length).bind fun _ _ => inductionHypothesis heldDecoded

theorem decodeStream_safe (positive : ∀ p ∈ params, p.IsPositive) (data : Bytes) (names : List String)
    (limits : DecodeLimits) :
    Safe (decodeStream data names params limits) (PdfCanvas.decodeStream data names params limits) :=
  Safe.hold fun held => decodeFilters_safe positive limits data.length names held

end

end Machine

end PdfCanvas
