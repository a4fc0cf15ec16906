import PdfCanvas.Proofs.Filter.Limits

/-!
# Run-length data as a sequence of runs

Data of this filter are runs, one after the other, and end where they end or at an end mark, whatever follows
it. They are decoded run by run, so they fail only where the last run is cut.
-/

namespace PdfCanvas.RunLength

/-! ## Runs -/

/-- A length byte with what it announces: as many bytes and one more, or a byte that is repeated. -/
inductive Run where
  | literal (length : UInt8) (bytes : Bytes) (isLiteral : length < 128)
      (whole : bytes.length = length.toNat + 1)
  | repeated (length byte : UInt8) (isRepeat : 128 < length)

namespace Run

def encoded : Run → Bytes
  | literal length bytes _ _ => length :: bytes
  | repeated length byte _ => [length, byte]

def expanded : Run → Bytes
  | literal _ bytes _ _ => bytes
  | repeated length byte _ => List.replicate (257 - length.toNat) byte

theorem length_expanded (run : Run) : run.expanded.length ≤ 64 * run.encoded.length := by
  cases run with
  | literal length bytes isLiteral whole =>
    simp only [expanded, encoded, List.length_cons]
    omega
  | repeated length byte isRepeat =>
    have long : 128 < length.toNat := UInt8.lt_iff_toNat_lt.mp isRepeat
    simp only [expanded, encoded, List.length_replicate, List.length_cons, List.length_nil]
    omega

end Run

theorem length_expanded_runs (runs : List Run) :
    (runs.flatMap Run.expanded).length ≤ 64 * (runs.flatMap Run.encoded).length := by
  induction runs with
  | nil => exact Nat.zero_le _
  | cons run runs inductionHypothesis =>
    have first := run.length_expanded
    simp only [List.flatMap_cons, List.length_append]
    omega

/-- What may follow the last run: nothing, or the end mark and anything behind it. -/
def IsEnding (bytes : Bytes) : Prop := bytes = [] ∨ ∃ rest, bytes = 128 :: rest

/-- A front of a run, but neither nothing of it nor all. -/
def IsCut (bytes : Bytes) : Prop :=
  bytes ≠ [] ∧ ∃ missing, missing ≠ [] ∧ ∃ run : Run, bytes ++ missing = run.encoded

/-! ## Decoding runs -/

/-- Bytes that belong to a run that is decoded already are not looked at. -/
theorem decodeRuns_skipped (skipped : Nat) (data : Bytes) :
    decodeRuns skipped data = decodeRuns 0 (data.drop skipped) := by
  induction skipped generalizing data with
  | zero => rfl
  | succ skipped inductionHypothesis =>
    cases data with
    | nil => rfl
    | cons byte data =>
      rw [List.drop_succ_cons, ← inductionHypothesis]
      rfl

section

variable {length : UInt8}

theorem decodeRuns_literal (isLiteral : length < 128) (rest : Bytes) :
    decodeRuns 0 (length :: rest) =
      if rest.length < length.toNat + 1 then
        .error (.decode (.literalRun (length.toNat + 1) rest.length))
      else
        (rest.take (length.toNat + 1) ++ ·) <$> decodeRuns 0 (rest.drop (length.toNat + 1)) := by
  rw [decodeRuns.eq_def]
  simp only [isLiteral, if_true, List.length_take]
  by_cases short : rest.length < length.toNat + 1
  · rw [Nat.min_eq_right (Nat.le_of_lt short), if_pos short, if_pos short]
  · rw [Nat.min_eq_left (Nat.le_of_not_lt short), if_neg (Nat.lt_irrefl _), if_neg short,
      decodeRuns_skipped]
    rfl

theorem decodeRuns_repeated (isRepeat : 128 < length) (byte : UInt8) (rest : Bytes) :
    decodeRuns 0 (length :: byte :: rest) =
      (List.replicate (257 - length.toNat) byte ++ ·) <$> decodeRuns 0 rest := by
  have notLiteral : ¬ length < 128 := UInt8.not_lt.mpr (UInt8.le_of_lt isRepeat)
  have notEnd : length ≠ 128 := (UInt8.ne_of_lt isRepeat).symm
  rw [decodeRuns.eq_def]
  simp only [notLiteral, notEnd, if_false]
  rw [decodeRuns_skipped]
  rfl

theorem decodeRuns_unrepeated (isRepeat : 128 < length) :
    decodeRuns 0 [length] = .error (.decode .repeatedByte) := by
  have notLiteral : ¬ length < 128 := UInt8.not_lt.mpr (UInt8.le_of_lt isRepeat)
  have notEnd : length ≠ 128 := (UInt8.ne_of_lt isRepeat).symm
  rw [decodeRuns.eq_def]
  simp only [notLiteral, notEnd, if_false]

end

/-- A run in front of other data is decoded before them. -/
theorem decode_run (run : Run) (rest : Bytes) :
    decode (run.encoded ++ rest) = (run.expanded ++ ·) <$> decode rest := by
  cases run with
  | literal length bytes isLiteral whole =>
    have enough : ¬ (bytes ++ rest).length < length.toNat + 1 := by
      rw [List.length_append, whole]
      exact Nat.not_lt.mpr (Nat.le_add_right _ _)
    show decodeRuns 0 (length :: (bytes ++ rest)) = _
    rw [decodeRuns_literal isLiteral, if_neg enough, List.take_left' whole, List.drop_left' whole]
    rfl
  | repeated length byte isRepeat => exact decodeRuns_repeated isRepeat byte rest

theorem decode_runs (runs : List Run) (rest : Bytes) :
    decode (runs.flatMap Run.encoded ++ rest) = (runs.flatMap Run.expanded ++ ·) <$> decode rest := by
  induction runs with
  | nil => exact (id_map _).symm
  | cons run runs inductionHypothesis =>
    simp only [List.flatMap_cons, List.append_assoc, decode_run, inductionHypothesis, Functor.map_map]

theorem decode_ending {bytes : Bytes} (ends : IsEnding bytes) : decode bytes = .ok [] := by
  rcases ends with rfl | ⟨rest, rfl⟩ <;> rfl

/-- How a run that is cut is reported. -/
def cutFault : Bytes → DecodeFault
  | [] => .repeatedByte
  | length :: bytes =>
    if length < 128 then .literalRun (length.toNat + 1) bytes.length else .repeatedByte

theorem decode_cut {cut : Bytes} (isCut : IsCut cut) : decode cut = .error (.decode (cutFault cut)) := by
  obtain ⟨some, missing, someMissing, run, whole⟩ := isCut
  obtain ⟨first, bytes, rfl⟩ := List.exists_cons_of_ne_nil some
  have lost := List.length_pos_iff.mpr someMissing
  rw [List.cons_append] at whole
  rw [cutFault]
  show decodeRuns 0 (first :: bytes) = _
  cases run with
  | literal length literal isLiteral size =>
    rw [Run.encoded] at whole
    obtain ⟨rfl, rfl⟩ := List.cons.inj whole
    rw [List.length_append] at size
    rw [decodeRuns_literal isLiteral, if_pos (by omega), if_pos isLiteral]
  | repeated length byte isRepeat =>
    rw [Run.encoded] at whole
    obtain ⟨rfl, rest⟩ := List.cons.inj whole
    -- the one byte behind the length is what is missing
    have nothing : bytes = [] := by
      have size := congrArg List.length rest
      rw [List.length_append, List.length_singleton] at size
      exact List.length_eq_zero_iff.mp (by omega)
    subst nothing
    rw [decodeRuns_unrepeated isRepeat, if_neg (UInt8.not_lt.mpr (UInt8.le_of_lt isRepeat))]

/-! ## Data as runs -/

/-- Other data than an ending start with a run, if they are not the front of one. -/
theorem exists_run {data : Bytes} (some : data ≠ []) (goesOn : ∀ rest, data ≠ 128 :: rest) :
    IsCut data ∨ ∃ (run : Run) (rest : Bytes), data = run.encoded ++ rest := by
  obtain ⟨length, bytes, rfl⟩ := List.exists_cons_of_ne_nil some
  by_cases isLiteral : length < 128
  · by_cases short : bytes.length < length.toNat + 1
    · left
      let missing : Bytes := List.replicate (length.toNat + 1 - bytes.length) 0
      have whole : (bytes ++ missing).length = length.toNat + 1 := by
        rw [List.length_append, List.length_replicate]
        omega
      refine ⟨some, missing, ?_, .literal length (bytes ++ missing) isLiteral whole, rfl⟩
      rw [← List.length_pos_iff, List.length_replicate]
      omega
    · right
      have whole : (bytes.take (length.toNat + 1)).length = length.toNat + 1 := by
        rw [List.length_take]
        omega
      refine ⟨.literal length _ isLiteral whole, bytes.drop (length.toNat + 1), ?_⟩
      rw [Run.encoded, List.cons_append, List.take_append_drop]
  · have isRepeat : 128 < length := by
      apply UInt8.lt_of_le_of_ne (UInt8.not_lt.mp isLiteral)
      rintro rfl
      exact goesOn bytes rfl
    cases bytes with
    | nil => exact .inl ⟨some, [0], List.cons_ne_nil _ _, .repeated length 0 isRepeat, rfl⟩
    | cons byte rest => exact .inr ⟨.repeated length byte isRepeat, rest, rfl⟩

/-- All data are runs up to an ending or to a run that is cut. -/
theorem exists_runs (data : Bytes) : ∃ (runs : List Run) (tail : Bytes),
    data = runs.flatMap Run.encoded ++ tail ∧ (IsEnding tail ∨ IsCut tail) := by
  by_cases ends : IsEnding data
  · exact ⟨[], data, rfl, .inl ends⟩
  · obtain ⟨some, goesOn⟩ := not_or.mp ends
    rcases exists_run some (not_exists.mp goesOn) with cut | ⟨run, rest, rfl⟩
    · exact ⟨[], data, rfl, .inr cut⟩
    · obtain ⟨runs, tail, rfl, stops⟩ := exists_runs rest
      exact ⟨run :: runs, tail, by rw [List.flatMap_cons, List.append_assoc], stops⟩
  termination_by data.length
  decreasing_by
    have some : 0 < run.encoded.length := by cases run <;> exact Nat.succ_pos _
    simp only [*, List.length_append]
    omega

theorem decode_eq_ok_iff {data out : Bytes} :
    decode data = .ok out ↔ ∃ (runs : List Run) (ending : Bytes), IsEnding ending ∧
      data = runs.flatMap Run.encoded ++ ending ∧ out = runs.flatMap Run.expanded := by
  constructor
  · intro decoded
    obtain ⟨runs, tail, rfl, ends | cut⟩ := exists_runs data
    · rw [decode_runs, decode_ending ends] at decoded
      exact ⟨runs, tail, ends, rfl, (Except.ok.inj decoded).symm.trans (List.append_nil _)⟩
    · rw [decode_runs, decode_cut cut] at decoded
      cases decoded
  · rintro ⟨runs, ending, ends, rfl, rfl⟩
    rw [decode_runs, decode_ending ends]
    exact congrArg Except.ok (List.append_nil _)

theorem decode_eq_error_iff {data : Bytes} {e : Error} :
    decode data = .error e ↔ ∃ (runs : List Run) (cut : Bytes), IsCut cut ∧
      data = runs.flatMap Run.encoded ++ cut ∧ e = .decode (cutFault cut) := by
  constructor
  · intro failed
    obtain ⟨runs, tail, rfl, ends | cut⟩ := exists_runs data
    · rw [decode_runs, decode_ending ends] at failed
      cases failed
    · rw [decode_runs, decode_cut cut] at failed
      exact ⟨runs, tail, cut, rfl, (Except.error.inj failed).symm⟩
  · rintro ⟨runs, cut, isCut, rfl, rfl⟩
    rw [decode_runs, decode_cut isCut]
    rfl

theorem length_decode {data out : Bytes} (decoded : decode data = .ok out) :
    out.length ≤ 64 * data.length := by
  obtain ⟨runs, ending, _, rfl, rfl⟩ := decode_eq_ok_iff.mp decoded
  have expanded := length_expanded_runs runs
  rw [List.length_append]
  omega

/-! ## Runs within limits -/

theorem decodeStream_of_error {data : Bytes} {e : Error} (failed : decode data = .error e) :
    decodeStream data ["RunLengthDecode"] none .standard = .error e := by
  show (decode data >>= Except.ok) >>= _ = _
  rw [failed]
  rfl

/-- Runs expand to less than the limit on the ratio admits, so that only the one on the size is left. -/
theorem decodeStream_of_ok {data out : Bytes} (decoded : decode data = .ok out) :
    decodeStream data ["RunLengthDecode"] none .standard =
      if 100 * 1024 * 1024 < out.length then
        .error (.decode (.sizeLimit out.length (100 * 1024 * 1024)))
      else .ok out := by
  have passed : decodeFilter "RunLengthDecode" none data = .ok out := by
    show (decode data >>= Except.ok) = _
    rw [decoded]
    rfl
  have expanded := length_decode decoded
  have ratio : out.length ≤ DecodeLimits.standard.ratio * data.length := by
    show out.length ≤ 100 * data.length
    omega
  rw [decodeStream_singleton passed, DecodeLimits.check_of_ratio ratio]
  by_cases large : 100 * 1024 * 1024 < out.length
  · rw [if_pos large, if_pos ⟨by decide, large⟩]
    rfl
  · rw [if_neg large, if_neg fun exceeds => large exceeds.2]
    rfl

theorem decodeStream_eq_ok_iff {data out : Bytes} :
    decodeStream data ["RunLengthDecode"] none .standard = .ok out ↔
      decode data = .ok out ∧ out.length ≤ 100 * 1024 * 1024 := by
  cases decoded : decode data with
  | error e =>
    rw [decodeStream_of_error decoded]
    exact ⟨fun failed => (nomatch failed), fun made => (nomatch made.1)⟩
  | ok all =>
    rw [decodeStream_of_ok decoded]
    constructor
    · intro passed
      split at passed
      next => cases passed
      next small =>
        cases passed
        exact ⟨rfl, Nat.not_lt.mp small⟩
    · rintro ⟨made, small⟩
      cases made
      exact if_neg (Nat.not_lt.mpr small)

theorem cutFault_ne_ratioLimit (cut : Bytes) (ratio limit encoded decoded : Nat) :
    cutFault cut ≠ .ratioLimit ratio limit encoded decoded := by
  unfold cutFault
  split
  · exact DecodeFault.noConfusion
  · split <;> exact DecodeFault.noConfusion

theorem decodeStream_ne_ratioLimit (data : Bytes) (ratio limit encoded size : Nat) :
    decodeStream data ["RunLengthDecode"] none .standard ≠
      .error (.decode (.ratioLimit ratio limit encoded size)) := by
  intro refused
  cases decoded : decode data with
  | error e =>
    rw [decodeStream_of_error decoded] at refused
    obtain ⟨_, cut, _, _, rfl⟩ := decode_eq_error_iff.mp decoded
    exact cutFault_ne_ratioLimit cut ratio limit encoded size (Error.decode.inj (Except.error.inj refused))
  | ok out =>
    rw [decodeStream_of_ok decoded] at refused
    split at refused <;> cases refused

/-- Data are decoded exactly if they are runs up to an ending, and refused exactly if the last run is cut. A
run expands no byte to more than 64, so the limit on the ratio is never reached, and only the one on the size
is left. -/
theorem runs_are_decoded_exactly (data : Bytes) :
    (∀ out, decode data = .ok out ↔ ∃ (runs : List Run) (ending : Bytes), IsEnding ending ∧
      data = runs.flatMap Run.encoded ++ ending ∧ out = runs.flatMap Run.expanded) ∧
    (∀ e, decode data = .error e ↔ ∃ (runs : List Run) (cut : Bytes), IsCut cut ∧
      data = runs.flatMap Run.encoded ++ cut ∧ e = .decode (cutFault cut)) ∧
    (∀ out, decode data = .ok out → out.length ≤ 64 * data.length) ∧
    (∀ out, decodeStream data ["RunLengthDecode"] none .standard = .ok out ↔
      decode data = .ok out ∧ out.length ≤ 100 * 1024 * 1024) ∧
    ∀ ratio limit encoded size, decodeStream data ["RunLengthDecode"] none .standard ≠
      .error (.decode (.ratioLimit ratio limit encoded size)) :=
  ⟨fun _ => decode_eq_ok_iff, fun _ => decode_eq_error_iff, fun _ => length_decode,
    fun _ => decodeStream_eq_ok_iff, decodeStream_ne_ratioLimit data⟩

/-- The front of a run behind the end mark is not read. -/
theorem run_is_decoded_up_to_the_end_mark :
    decode [254, 0x78, 128, 5, 0x61] = .ok [0x78, 0x78, 0x78] ∧
      [0x78, 0x78, 0x78].length ≤ 64 * [254, 0x78, 128, 5, 0x61].length := by
  have isRun : decode [254, 0x78, 128, 5, 0x61] = .ok [0x78, 0x78, 0x78] :=
    ((runs_are_decoded_exactly _).1 _).mpr
      ⟨[.repeated 254 0x78 (by decide)], [128, 5, 0x61], .inr ⟨[5, 0x61], rfl⟩, rfl, rfl⟩
  exact ⟨isRun, (runs_are_decoded_exactly _).2.2.1 _ isRun⟩

end PdfCanvas.RunLength
