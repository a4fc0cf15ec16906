import PdfCanvas.Proofs.Filter.Predictors

/-!
# Rows of no bytes

Parameters may be any numbers. Sizes that do not fit a word are refused, and rows with tags can be cut off
even if there is nothing else in them; but differences to the left are undone in pieces of the size of a
row, and there are no pieces of no size. That is the one way to a panic.
-/

namespace PdfCanvas

namespace DecodeParams

variable {p : DecodeParams}

theorem rowSize_eq_zero_iff : p.rowSize = 0 ↔ p.colors * p.bits * p.columns = 0 := by
  rw [rowSize, Nat.ceilDiv_eq_add_pred_div]
  omega

theorem hasEmptyRows_iff :
    p.HasEmptyRows ↔
      p.predictor = 2 ∧ p.bits = 8 ∧ (p.colors = 0 ∨ p.columns = 0 ∧ p.colors * 8 < wordSize) := by
  have width : p.rowBytes = .ok 0 ↔
      p.colors * p.bits < wordSize ∧ p.colors * p.bits * p.columns = 0 := by
    rw [rowBytes_eq_ok_iff, eq_comm (a := 0), rowSize_eq_zero_iff]
    have some : 0 < wordSize := by decide
    grind
  constructor
  · rintro ⟨horizontal, depth, empty⟩
    rw [width, depth] at empty
    simp only [Nat.mul_eq_zero, OfNat.ofNat_ne_zero, or_false] at empty
    exact ⟨horizontal, depth, by tauto⟩
  · rintro ⟨horizontal, depth, none⟩
    refine ⟨horizontal, depth, width.mpr ?_⟩
    rw [depth]
    rcases none with noColors | ⟨noColumns, fits⟩
    · simp [noColors, wordSize]
    · simp [noColumns, fits]

end DecodeParams

namespace Machine

variable {p : DecodeParams} {data : Bytes}

theorem undo_of_hasEmptyRows (empty : p.HasEmptyRows) :
    undo p data = hold data >>= fun _ => .error .panic := by
  rw [undo, empty.horizontal, if_neg (by decide), if_pos rfl, undoDifferences,
    if_neg (not_not.mpr empty.depth), empty.width]
  rfl

theorem undo_eq_panic_iff (sized : data.length < SampleLayout.bufferSize) :
    undo p data = .error .panic ↔ p.HasEmptyRows ∧ data.length < memorySize := by
  by_cases empty : p.HasEmptyRows
  · rw [undo_of_hasEmptyRows empty]
    rcases Nat.lt_or_ge data.length memorySize with held | full
    · simp [hold_ok held, empty, held]
    · -- memory runs out before a row is cut off
      have out : hold data = .error .memory := if_pos full
      simp [out, bind, Except.bind, full]
  · have total := Predictor.neverAborts_undo empty data
    simp [(undo_runsAs p sized).never_panics total, empty]

/-- Whatever the parameters and the data, which have a size: undoing a predictor goes as it should, unless
rows of no bytes are to be cut off, and makes nothing longer. The size of a row is that of its bits. -/
theorem predictors_panic_at_empty_rows_only (p : DecodeParams) {data : Bytes}
    (sized : data.length < SampleLayout.bufferSize) :
    RunsAs (undo p data) (Predictor.undo p data) ∧
      (undo p data = .error .panic ↔
        (p.predictor = 2 ∧ p.bits = 8 ∧ (p.colors = 0 ∨ p.columns = 0 ∧ p.colors * 8 < wordSize)) ∧
          data.length < memorySize) ∧
      (∀ out, undo p data = .ok out → out.length ≤ data.length) ∧
      (∀ size, p.rowBytes = .ok size → size = p.rowSize) := by
  have runs := undo_runsAs p sized
  refine ⟨runs, ?_, ?_, ?_⟩
  · rw [undo_eq_panic_iff sized, DecodeParams.hasEmptyRows_iff]
  · intro out made
    rcases runs with memory | same
    · rw [memory] at made
      cases made
    · rw [same] at made
      cases undone : Predictor.undo p data with
      | ok other =>
        rw [undone] at made
        cases made
        exact Predictor.length_undo undone
      | error e =>
        rw [undone] at made
        cases e <;> cases made
  · intro size width
    exact (DecodeParams.rowBytes_eq_ok_iff.mp width).2.2

/-- With the greatest words as sizes nothing overflows, and the row is refused. -/
theorem greatest_words_do_not_panic :
    undo ⟨15, 1 <<< 64 - 1, 1 <<< 64 - 1, 1 <<< 64 - 1, true⟩ [0, 1, 2] ≠ .error .panic := by
  intro panics
  have sized : ([0, 1, 2] : Bytes).length < SampleLayout.bufferSize := by decide
  obtain ⟨-, onlyEmpty, -⟩ := predictors_panic_at_empty_rows_only
    ⟨15, 1 <<< 64 - 1, 1 <<< 64 - 1, 1 <<< 64 - 1, true⟩ sized
  obtain ⟨⟨horizontal, -⟩, -⟩ := onlyEmpty.mp panics
  cases horizontal

/-- Not even data without a byte can be cut into rows of no bytes. -/
theorem rows_without_columns_panic : undo ⟨2, 0, 1, 8, true⟩ [] = .error .panic := rfl

end Machine

end PdfCanvas
