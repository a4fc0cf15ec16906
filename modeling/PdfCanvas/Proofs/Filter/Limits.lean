import PdfCanvas.Filter
import PdfCanvas.Proofs.Filter.Repetition
import PdfCanvas.Proofs.Outcomes
import PdfCanvas.Proofs.Pieces

/-!
# Sizes between filters

The limits are asked for what a filter passes on, and that is after its predictor. Most predictors keep the
size, so that what the decoder has made is within the limits as well. Those with a tag in front of each row
leave out the tags and a last row that is not complete, and only what is left is held against the limits.
-/

namespace PdfCanvas

/-! ## What predictors leave -/

namespace Predictor

@[simp]
theorem length_addLeft (colors : Nat) (before row : Bytes) :
    (addLeft colors before row).length = row.length := by
  induction row generalizing before with
  | nil => rfl
  | cons byte row inductionHypothesis =>
    rw [addLeft, List.length_cons, inductionHypothesis, List.length_cons]

theorem length_undoDifferences {p : DecodeParams} {data out : Bytes}
    (undone : undoDifferences p data = .ok out) : out.length = data.length := by
  rw [undoDifferences] at undone
  obtain ⟨-, undone⟩ := unless_eq_ok.mp undone
  obtain ⟨size, -, undone⟩ := bind_eq_ok.mp undone
  obtain ⟨some, undone⟩ := unless_eq_ok.mp undone
  obtain rfl := Except.ok.inj undone
  have kept := congrArg List.length (flatten_pieces (Nat.pos_of_ne_zero some) data)
  rw [List.length_flatten] at kept
  simpa [List.length_flatMap] using kept

theorem length_restore (filter : RowFilter) (distance : Nat)
    (before aboveBefore above encoded : Bytes) :
    (restore filter distance before aboveBefore above encoded).length =
      min above.length encoded.length := by
  induction encoded generalizing before aboveBefore above with
  | nil => cases above <;> simp [restore]
  | cons byte encoded inductionHypothesis =>
    cases above with
    | nil => simp [restore]
    | cons up above =>
      rw [restore, List.length_cons, inductionHypothesis, List.length_cons, List.length_cons]
      omega

theorem length_restoreRows {predictor : Int} {distance size : Nat} {above : Bytes} {rows : List Bytes}
    {out : Bytes} (even : ∀ row ∈ rows, row.length = size + 1)
    (level : rows ≠ [] → above.length = size)
    (restored : restoreRows predictor distance above rows = .ok out) :
    out.length = size * rows.length := by
  induction rows generalizing above out with
  | nil =>
    obtain rfl := Except.ok.inj restored
    rfl
  | cons row rows inductionHypothesis =>
    have others : ∀ row ∈ rows, row.length = size + 1 :=
      fun other member => even other (List.mem_cons_of_mem row member)
    have whole := even row List.mem_cons_self
    have height := level (List.cons_ne_nil row rows)
    cases row with
    | nil => cases whole
    | cons tag encoded =>
      have width : encoded.length = size := Nat.succ.inj whole
      rw [restoreRows] at restored
      split at restored
      next blank =>
        have none : size = 0 := by rw [← width, List.isEmpty_iff.mp blank, List.length_nil]
        rw [inductionHypothesis others (fun _ => height) restored, none, Nat.zero_mul, Nat.zero_mul]
      next =>
        obtain ⟨filter, -, restored⟩ := bind_eq_ok.mp restored
        obtain ⟨rest, restoredRest, whole⟩ := bind_eq_ok.mp restored
        obtain rfl := Except.ok.inj whole
        have first := length_restore filter distance [] [] above encoded
        rw [height, width, Nat.min_self] at first
        rw [List.length_append, inductionHypothesis others (fun _ => first) restoredRest, first,
          List.length_cons, Nat.mul_add_one, Nat.add_comm]

theorem length_undoRowFilters {p : DecodeParams} {data out : Bytes}
    (undone : undoRowFilters p data = .ok out) :
    ∃ row, p.rowBytes = .ok row ∧ out.length = row * (data.length / (row + 1)) := by
  obtain ⟨row, width, undone⟩ := bind_eq_ok.mp undone
  obtain ⟨distance, -, undone⟩ := bind_eq_ok.mp undone
  have count : (wholePieces (row + 1) data).length = data.length / (row + 1) :=
    length_wholePieces row.succ_pos data
  -- With a row at all there are enough bytes for the row above it.
  have level : wholePieces (row + 1) data ≠ [] →
      (List.replicate (min row data.length) (0 : UInt8)).length = row := by
    intro some
    have enough : data.length / (row + 1) ≠ 0 := by
      rw [← count]
      exact fun none => some (List.length_eq_zero_iff.mp none)
    have long : ¬ data.length < row + 1 := fun short => enough (Nat.div_eq_of_lt short)
    rw [List.length_replicate]
    omega
  refine ⟨row, width, ?_⟩
  rw [← count]
  exact length_restoreRows (fun _ => length_of_mem_wholePieces row.succ_pos) level undone

theorem length_undo {p : DecodeParams} {data out : Bytes} (undone : undo p data = .ok out) :
    out.length ≤ data.length := by
  rw [undo] at undone
  split at undone
  next =>
    cases undone
    exact Nat.le_refl _
  next =>
    split at undone
    next => exact Nat.le_of_eq (length_undoDifferences undone)
    next =>
      split at undone
      next =>
        obtain ⟨row, -, left⟩ := length_undoRowFilters undone
        calc out.length = row * (data.length / (row + 1)) := left
          _ ≤ (row + 1) * (data.length / (row + 1)) := Nat.mul_le_mul_right _ (Nat.le_succ row)
          _ ≤ data.length := Nat.mul_div_le data.length (row + 1)
      next => cases undone

end Predictor

namespace Filter

theorem length_undoPredictor {filter : Filter} {params : Option DecodeParams} {produced passed : Bytes}
    (undone : filter.undoPredictor params produced = .ok passed) :
    passed.length = produced.length ∨
      ∃ p row, params = some p ∧ filter.usesPredictor = true ∧ 10 ≤ p.predictor ∧ p.predictor ≤ 15 ∧
        p.rowBytes = .ok row ∧ passed.length = row * (produced.length / (row + 1)) := by
  rw [undoPredictor.eq_def] at undone
  cases params with
  | none => exact .inl (by rw [Except.ok.inj undone])
  | some p =>
    dsimp only at undone
    split at undone
    next applies =>
      rw [Bool.and_eq_true] at applies
      rw [Predictor.undo] at undone
      split at undone
      next => exact .inl (by rw [Except.ok.inj undone])
      next =>
        split at undone
        next => exact .inl (Predictor.length_undoDifferences undone)
        next =>
          split at undone
          next rows =>
            obtain ⟨row, width, left⟩ := Predictor.length_undoRowFilters undone
            exact .inr ⟨p, row, rfl, applies.1, rows.1, rows.2, width, left⟩
          next => cases undone
    next => exact .inl (by rw [Except.ok.inj undone])

end Filter

/-! ## Limits -/

namespace DecodeLimits

/-- That much decoded data stay within the limits: the greatest size, and less than one time more than the
greatest ratio allows. -/
def Admits (limits : DecodeLimits) (encoded decoded : Nat) : Prop :=
  (limits.size ≠ 0 → decoded ≤ limits.size) ∧
    (limits.ratio ≠ 0 → encoded ≠ 0 → decoded < (limits.ratio + 1) * encoded)

theorem check_eq_ok_iff {limits : DecodeLimits} {encoded decoded : Nat} :
    limits.check encoded decoded = .ok () ↔ limits.Admits encoded decoded := by
  have exceeds (some : encoded ≠ 0) :
      limits.ratio < decoded / encoded ↔ ¬ decoded < (limits.ratio + 1) * encoded := by
    rw [Nat.not_lt]
    exact Nat.le_div_iff_mul_le (Nat.pos_of_ne_zero some)
  simp only [check, Admits]
  grind

theorem check_of_le {limits : DecodeLimits} {encoded decoded fewer : Nat}
    (within : limits.check encoded decoded = .ok ()) (less : fewer ≤ decoded) :
    limits.check encoded fewer = .ok () := by
  rw [check_eq_ok_iff] at within ⊢
  obtain ⟨size, ratio⟩ := within
  exact ⟨fun limited => Nat.le_trans less (size limited),
    fun limited some => Nat.lt_of_le_of_lt less (ratio limited some)⟩

/-- What expands less than the ratio allows is only held against the size. -/
theorem check_of_ratio {limits : DecodeLimits} {encoded decoded : Nat}
    (within : decoded ≤ limits.ratio * encoded) : limits.check encoded decoded =
      if 0 < limits.size ∧ limits.size < decoded then .error (.decode (.sizeLimit decoded limits.size))
      else .ok () := by
  have ratio : ¬ limits.ratio < decoded / encoded :=
    Nat.not_lt.mpr (Nat.div_le_of_le_mul (Nat.mul_comm .. ▸ within))
  exact if_neg fun exceeds => ratio exceeds.2.2

end DecodeLimits

/-! ## Filter after filter -/

section

variable {params : Option DecodeParams} {limits : DecodeLimits} {name : String} {data out : Bytes}

theorem of_decodeFilter (decoded : decodeFilter name params data = .ok out) :
    ∃ filter produced, Filter.ofName? name = some filter ∧
      filter.decode ((params.map (·.earlyChange)).getD true) data = .ok produced ∧
      filter.undoPredictor params produced = .ok out := by
  rw [decodeFilter] at decoded
  split at decoded
  next => cases decoded
  next filter known =>
    obtain ⟨produced, made, undone⟩ := bind_eq_ok.mp decoded
    exact ⟨filter, produced, known, made, undone⟩

theorem decodeFilter_of_inflated {produced : Bytes} (inflated : Flate.decode data = .ok produced) :
    decodeFilter "FlateDecode" params data = Filter.flate.undoPredictor params produced := by
  show (Flate.decode data >>= _) = _
  rw [inflated]
  rfl

theorem decodeStream_singleton (decoded : decodeFilter name params data = .ok out) :
    decodeStream data [name] params limits = do
      limits.check data.length out.length
      return out := by
  rw [decodeStream, decodeFilters, decoded]
  rfl

theorem decodeFilters_append_eq_bind (encoded : Nat) (before after : List String) :
    decodeFilters params limits encoded (before ++ after) data =
      decodeFilters params limits encoded before data >>=
        decodeFilters params limits encoded after := by
  induction before generalizing data with
  | nil => rfl
  | cons name before inductionHypothesis =>
    simp only [List.cons_append, decodeFilters, inductionHypothesis, bind_assoc]

theorem decodeFilters_append {encoded : Nat} {before after : List String} :
    decodeFilters params limits encoded (before ++ after) data = .ok out ↔
      ∃ given, decodeFilters params limits encoded before data = .ok given ∧
        decodeFilters params limits encoded after given = .ok out := by
  rw [decodeFilters_append_eq_bind, bind_eq_ok]

theorem admits_of_decodeStream {names : List String} (some : names ≠ [])
    (decoded : decodeStream data names params limits = .ok out) :
    limits.Admits data.length out.length := by
  -- the last filter passes on what comes out
  rw [← List.dropLast_concat_getLast some] at decoded
  obtain ⟨_, _, last⟩ := decodeFilters_append.mp decoded
  obtain ⟨_, _, last⟩ := bind_eq_ok.mp last
  obtain ⟨_, checked, made⟩ := bind_eq_ok.mp last
  obtain rfl := Except.ok.inj made
  exact DecodeLimits.check_eq_ok_iff.mp checked

/-- What every filter passes on is within the limits, and so is what it made itself, unless the rows of a
predictor with tags were cut out of it. -/
theorem filters_stay_within_limits (before after : List String)
    (decoded : decodeStream data (before ++ name :: after) params limits = .ok out) :
    ∃ given filter produced passed,
      decodeFilters params limits data.length before data = .ok given ∧
      Filter.ofName? name = some filter ∧
      filter.decode ((params.map (·.earlyChange)).getD true) given = .ok produced ∧
      filter.undoPredictor params produced = .ok passed ∧
      decodeFilters params limits data.length after passed = .ok out ∧
      limits.Admits data.length passed.length ∧
      (limits.Admits data.length produced.length ∨
        ∃ p row, params = some p ∧ filter.usesPredictor = true ∧ 10 ≤ p.predictor ∧ p.predictor ≤ 15 ∧
          p.rowBytes = .ok row ∧ passed.length = row * (produced.length / (row + 1))) := by
  obtain ⟨given, made, decoded⟩ := decodeFilters_append.mp decoded
  obtain ⟨passed, filtered, decoded⟩ := bind_eq_ok.mp decoded
  obtain ⟨_, checked, rest⟩ := bind_eq_ok.mp decoded
  obtain ⟨filter, produced, known, madeNow, undone⟩ := of_decodeFilter filtered
  have within := DecodeLimits.check_eq_ok_iff.mp checked
  refine ⟨given, filter, produced, passed, made, known, madeNow, undone, rest, within, ?_⟩
  rcases Filter.length_undoPredictor undone with same | cut
  · rw [same] at within
    exact .inl within
  · exact .inr cut

end

theorem repeated_byte_stays_within_limits :
    ∃ produced,
      decodeStream (utf8 "FF66>") ["ASCIIHexDecode", "RunLengthDecode"] none ⟨1, 0⟩ = .ok produced ∧
      produced.length = 2 ∧ DecodeLimits.Admits ⟨1, 0⟩ 5 produced.length := by
  have decoded : decodeStream (utf8 "FF66>") ["ASCIIHexDecode", "RunLengthDecode"] none ⟨1, 0⟩ =
      .ok [0x66, 0x66] := rfl
  obtain ⟨_, _, _, passed, _, _, _, _, rest, within, _⟩ :=
    filters_stay_within_limits ["ASCIIHexDecode"] [] decoded
  obtain rfl := Except.ok.inj rest
  exact ⟨_, decoded, rfl, within⟩

/-! ## Rows that are not complete -/

/-- Rows of so many bytes, predicted from the row above. -/
def longRows (bytes : Nat) : DecodeParams := ⟨12, bytes, 1, 8, true⟩

/-- Without its predictor the stream is refused as a bomb. With a predictor that finds no complete row in
what was inflated, nothing is left to be refused. -/
theorem incomplete_row_hides_expansion :
    (Deflate.encode Deflate.manyFills).length = 27 ∧
      Filter.decode .flate true (Deflate.encode Deflate.manyFills) = .ok Deflate.manyFills ∧
      Deflate.manyFills.length = 2842 ∧ ¬ DecodeLimits.standard.Admits 27 2842 ∧
      decodeStream (Deflate.encode Deflate.manyFills) ["FlateDecode"] none .standard =
        .error (.decode (.ratioLimit 105 100 27 2842)) ∧
      decodeStream (Deflate.encode Deflate.manyFills) ["FlateDecode"] (some (longRows 2842))
        .standard = .ok [] := by
  have encoded : (Deflate.encode Deflate.manyFills).length = 27 := by
    rw [Deflate.encode_manyFills]
    rfl
  have length : Deflate.manyFills.length = 2842 := length_alternating ..
  have inflated : Flate.decode (Deflate.encode Deflate.manyFills) = .ok Deflate.manyFills :=
    Deflate.decode_encode_manyFills
  have noRow : wholePieces 2843 Deflate.manyFills = [] := by
    rw [← List.length_eq_zero_iff, length_wholePieces (by decide), length]
  have undone : Filter.undoPredictor .flate (some (longRows 2842)) Deflate.manyFills = .ok [] := by
    have width : (longRows 2842).rowBytes = .ok 2842 := rfl
    have distance : (longRows 2842).pixelBytes = .ok 1 := rfl
    show Predictor.undoRowFilters (longRows 2842) Deflate.manyFills = .ok []
    simp only [Predictor.undoRowFilters, width, distance, noRow, Predictor.restoreRows, bind,
      Except.bind, Nat.reduceAdd]
  refine ⟨encoded, inflated, length, by simp [DecodeLimits.Admits, DecodeLimits.standard], ?_, ?_⟩
  · have refused : DecodeLimits.standard.check 27 2842 =
        .error (.decode (.ratioLimit 105 100 27 2842)) := rfl
    rw [decodeStream_singleton (decodeFilter_of_inflated inflated), encoded, length, refused]
    rfl
  · rw [decodeStream_singleton ((decodeFilter_of_inflated inflated).trans undone), encoded]
    rfl

end PdfCanvas
