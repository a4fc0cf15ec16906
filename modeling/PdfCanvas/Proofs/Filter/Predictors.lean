import PdfCanvas.Proofs.Fields
import PdfCanvas.Proofs.Machine.Predictors
import Mathlib.Data.List.MinMax

/-!
# Predicted rows

An encoder puts in the place of each byte its difference to what is predicted from the byte at a distance on
the left and from the row above. Here this is said of whole rows of samples, as the formats define it, while
`Predictor.undo` goes through encoded bytes. No two rows have the same differences, since each byte follows
from those on its left; so the row that is restored is the one that was encoded.
-/

namespace PdfCanvas

open Machine (byteBefore)

/-! ## Sizes of rows -/

namespace DecodeParams

variable {p : DecodeParams}

/-- The bytes that the bits of a row fill. -/
def rowSize (p : DecodeParams) : Nat := p.colors * p.bits * p.columns ⌈/⌉ 8

/-- The bytes that the bits of a pixel fill, one at least. -/
def pixelSize (p : DecodeParams) : Nat := max 1 (p.colors * p.bits ⌈/⌉ 8)

theorem pixelSize_pos (p : DecodeParams) : 0 < p.pixelSize := Nat.le_max_left 1 _

theorem checkedMul_eq_ok_iff {a b n : Nat} :
    p.checkedMul a b = .ok n ↔ a * b < wordSize ∧ n = a * b := by
  unfold checkedMul
  split <;> simp_all [eq_comm]

theorem rowBytes_eq_ok_iff {size : Nat} :
    p.rowBytes = .ok size ↔
      p.colors * p.bits < wordSize ∧ p.colors * p.bits * p.columns < wordSize ∧ size = p.rowSize := by
  simp only [rowBytes, pixelBits, bind_eq_ok, checkedMul_eq_ok_iff, bytesOfBits_eq, rowSize]
  constructor
  · rintro ⟨_, ⟨fitsPixel, rfl⟩, _, ⟨fits, rfl⟩, made⟩
    exact ⟨fitsPixel, fits, (Except.ok.inj made).symm⟩
  · rintro ⟨fitsPixel, fits, rfl⟩
    exact ⟨_, ⟨fitsPixel, rfl⟩, _, ⟨fits, rfl⟩, rfl⟩

theorem pixelBytes_of_fits (fits : p.colors * p.bits < wordSize) : p.pixelBytes = .ok p.pixelSize := by
  have width : p.pixelBits = .ok (p.colors * p.bits) := checkedMul_eq_ok_iff.mpr ⟨fits, rfl⟩
  rw [pixelBytes, width, pixelSize, ← bytesOfBits_eq]
  rfl

theorem IsPositive.pixel_fits (positive : p.IsPositive)
    (fits : p.colors * p.bits * p.columns < wordSize) : p.colors * p.bits < wordSize :=
  Nat.lt_of_le_of_lt (Nat.le_mul_of_pos_right _ positive.columns) fits

theorem IsPositive.rowBytes_eq (positive : p.IsPositive)
    (fits : p.colors * p.bits * p.columns < wordSize) : p.rowBytes = .ok p.rowSize :=
  rowBytes_eq_ok_iff.mpr ⟨positive.pixel_fits fits, fits, rfl⟩

end DecodeParams

namespace Predictor

/-! ## Differences -/

/-- The differences of a row to what is predicted at each index from the byte at the distance on the
left. -/
def differences (predict : Nat → UInt8 → UInt8) (distance : Nat) (row : Bytes) : Bytes :=
  row.mapIdx fun index byte => byte - predict index (byteBefore distance row index)

section

variable {predict : Nat → UInt8 → UInt8} {distance : Nat}

@[simp]
theorem length_differences (row : Bytes) : (differences predict distance row).length = row.length :=
  List.length_mapIdx

theorem eq_differences_iff {row encoded : Bytes} :
    encoded = differences predict distance row ↔
      ∀ index, row[index]? =
        encoded[index]?.map (· + predict index (byteBefore distance row index)) := by
  constructor
  · rintro rfl index
    simp [differences, List.getElem?_mapIdx, Function.comp_def]
  · intro restored
    apply List.ext_getElem?
    intro index
    rw [differences, List.getElem?_mapIdx, restored index]
    simp [Function.comp_def]

theorem eq_of_differences (positive : 0 < distance) {first second : Bytes}
    (same : differences predict distance first = differences predict distance second) :
    first = second := by
  have here := eq_differences_iff.mp (Eq.refl (differences predict distance first))
  have there := eq_differences_iff.mp same
  apply List.ext_getElem?
  intro index
  -- The bytes on the left are the same by then, and with them what is predicted.
  induction index using Nat.strongRecOn with
  | ind index inductionHypothesis =>
    have left : byteBefore distance first index = byteBefore distance second index := by
      unfold byteBefore
      split
      · rw [inductionHypothesis (index - distance) (by omega)]
      · rfl
    rw [here, there, left]

end

/-! ## Differences to the left -/

/-- The differences of rows of whole pixels to the pixel on the left; the last row may be shorter. -/
def leftDifferences (p : DecodeParams) (samples : Bytes) : Bytes :=
  (pieces (p.columns * p.colors) samples).flatMap (differences (fun _ left => left) p.colors)

theorem differences_addLeft {colors : Nat} (positive : 0 < colors) (encoded : Bytes) :
    differences (fun _ left => left) colors (addLeft colors [] encoded) = encoded := by
  symm
  rw [eq_differences_iff]
  intro index
  simpa using Machine.getElem?_addLeft positive [] encoded index

theorem addLeft_differences {colors : Nat} (positive : 0 < colors) (row : Bytes) :
    addLeft colors [] (differences (fun _ left => left) colors row) = row :=
  eq_of_differences positive (differences_addLeft positive _)

section

variable {p : DecodeParams}

theorem undo_eq_flatMap (positive : p.IsPositive) (fits : p.colors * p.bits * p.columns < wordSize)
    (horizontal : p.predictor = 2) (depth : p.bits = 8) (data : Bytes) :
    undo p data = .ok ((pieces (p.columns * p.colors) data).flatMap (addLeft p.colors [])) := by
  have width : p.rowSize = p.columns * p.colors := by
    rw [DecodeParams.rowSize, depth, Nat.mul_right_comm, Nat.mul_comm p.colors,
      Nat.ceilDiv_eq_add_pred_div]
    omega
  have some : p.columns * p.colors ≠ 0 :=
    Nat.mul_ne_zero (Nat.ne_of_gt positive.columns) (Nat.ne_of_gt positive.colors)
  rw [undo, horizontal, if_neg (by decide), if_pos rfl, undoDifferences, positive.rowBytes_eq fits, width]
  simp [depth, some, bind, Except.bind, pure, Except.pure]

/-- Differences to the left are undone, and nothing else is undone by that. -/
theorem undo_eq_ok_iff_leftDifferences (positive : p.IsPositive)
    (fits : p.colors * p.bits * p.columns < wordSize) (horizontal : p.predictor = 2)
    (depth : p.bits = 8) {data samples : Bytes} :
    undo p data = .ok samples ↔ data = leftDifferences p samples := by
  have wide : 0 < p.columns * p.colors := Nat.mul_pos positive.columns positive.colors
  rw [undo_eq_flatMap positive fits horizontal depth, Except.ok.injEq]
  constructor
  · rintro rfl
    rw [leftDifferences, pieces_flatMap wide (length_addLeft p.colors []), List.flatMap_map]
    simp only [differences_addLeft positive.colors]
    rw [List.flatMap_id', flatten_pieces wide]
  · rintro rfl
    rw [leftDifferences, pieces_flatMap wide length_differences, List.flatMap_map]
    simp only [addLeft_differences positive.colors]
    rw [List.flatMap_id', flatten_pieces wide]

end

/-! ## Filtered rows -/

namespace RowFilter

def number : RowFilter → Nat
  | .none => 0
  | .left => 1
  | .up => 2
  | .average => 3
  | .nearest => 4

/-- What a filter predicts from three neighbours. The nearest is the first with the least difference to
`left + up - upLeft`. -/
def prediction (filter : RowFilter) (left up upLeft : Nat) : Nat :=
  match filter with
  | .none => 0
  | .left => left
  | .up => up
  | .average => (left + up) / 2
  | .nearest =>
    ([left, up, upLeft].argmin fun (neighbour : Nat) =>
      ((left + up : Int) - upLeft - neighbour).natAbs).getD 0

/-- What is predicted at an index below a row, from the byte on the left. -/
def expected (filter : RowFilter) (distance : Nat) (above : Bytes) (index : Nat) (left : UInt8) : UInt8 :=
  (filter.prediction left.toNat (above[index]?.getD 0).toNat (byteBefore distance above index).toNat).toUInt8

theorem argmin_three (f : Nat → Nat) (first second third : Nat) :
    [first, second, third].argmin f =
      some (if f first ≤ f second ∧ f first ≤ f third then first
        else if f second ≤ f third then second else third) := by
  have lead : [first, second].argmin f = some (if f second < f first then second else first) := by
    have alone : [first].argmin f = some first := List.argmin_singleton
    rw [show [first, second] = [first] ++ [second] from rfl, List.argmin_concat, alone]
    exact (apply_ite some ..).symm
  rw [show [first, second, third] = [first, second] ++ [third] from rfl, List.argmin_concat, lead]
  by_cases less : f second < f first
  · simp only [if_pos less, if_neg (show ¬ (f first ≤ f second ∧ f first ≤ f third) by omega)]
    grind
  · simp only [if_neg less]
    grind

theorem predict_eq_prediction (filter : RowFilter) (left up upLeft : UInt8) :
    filter.predict left up upLeft =
      (filter.prediction left.toNat up.toNat upLeft.toNat).toUInt8 := by
  cases filter with
  | none => rfl
  | left => exact (UInt8.ofNat_toNat).symm
  | up => exact (UInt8.ofNat_toNat).symm
  | average => rfl
  | nearest =>
    rw [predict, Predictor.nearest, prediction, argmin_three, Option.getD_some]
    split
    · exact (UInt8.ofNat_toNat).symm
    · split
      · exact (UInt8.ofNat_toNat).symm
      · exact (UInt8.ofNat_toNat).symm

theorem ofTag?_eq_some_iff {tag : Nat} {filter : RowFilter} :
    ofTag? tag = some filter ↔ tag = filter.number := by
  constructor
  · intro named
    unfold ofTag? at named
    split at named <;> cases named <;> rfl
  · rintro rfl
    cases filter <;> rfl

theorem ofTag?_eq_none_iff {tag : Nat} : ofTag? tag = Option.none ↔ 4 < tag := by
  match tag with
  | 0 | 1 | 2 | 3 | 4 => simp [ofTag?]
  | tag + 5 => simp [ofTag?]

/-- The differences of a row to what is predicted for it below the row above. -/
def apply (filter : RowFilter) (distance : Nat) (above row : Bytes) : Bytes :=
  differences (filter.expected distance above) distance row

section

variable (filter : RowFilter) {distance : Nat} {above : Bytes}

theorem apply_restore (positive : 0 < distance) {encoded : Bytes}
    (level : above.length = encoded.length) :
    filter.apply distance above (restore filter distance [] [] above encoded) = encoded := by
  symm
  rw [apply, eq_differences_iff]
  intro index
  cases there : encoded[index]? with
  | none =>
    rw [Option.map_none, List.getElem?_eq_none_iff, length_restore, level, Nat.min_self]
    exact List.getElem?_eq_none_iff.mp there
  | some byte =>
    obtain ⟨inside, -⟩ := List.getElem?_eq_some_iff.mp there
    obtain ⟨up, thereAbove⟩ : ∃ up, above[index]? = some up :=
      ⟨_, List.getElem?_eq_getElem (level ▸ inside)⟩
    have restored := Machine.getElem?_restore filter positive [] List.length_nil thereAbove there
    simpa [expected, predict_eq_prediction, thereAbove] using restored

theorem restore_apply (positive : 0 < distance) {row : Bytes} (level : above.length = row.length) :
    restore filter distance [] [] above (filter.apply distance above row) = row :=
  eq_of_differences positive (apply_restore filter positive (by simpa [apply] using level))

end

end RowFilter

/-! ## Rows with tags -/

/-- A row of samples, the filter that it is encoded by, and the tag in front of it. -/
structure TaggedRow where
  tag : UInt8
  filter : RowFilter
  samples : Bytes

namespace TaggedRow

/-- With predictor 15 the tag of a row names its filter. Else the predictor does, and tags are of no
account. -/
structure Fits (p : DecodeParams) (row : TaggedRow) : Prop where
  size : row.samples.length = p.rowSize
  filter :
    if p.predictor = 15 then row.tag.toNat = row.filter.number
    else p.predictor = 10 + row.filter.number

instance (p : DecodeParams) (row : TaggedRow) : Decidable (row.Fits p) :=
  decidable_of_iff (row.samples.length = p.rowSize ∧
      if p.predictor = 15 then row.tag.toNat = row.filter.number
      else p.predictor = 10 + row.filter.number)
    ⟨fun ⟨size, filter⟩ => ⟨size, filter⟩, fun fits => ⟨fits.size, fits.filter⟩⟩

/-- Encodes a row below the row above. -/
def encode (row : TaggedRow) (distance : Nat) (above : Bytes) : Bytes :=
  row.tag :: row.filter.apply distance above row.samples

end TaggedRow

/-- Encodes rows, each below the one before. -/
def encodeRows (distance : Nat) (above : Bytes) : List TaggedRow → Bytes
  | [] => []
  | row :: rest => row.encode distance above ++ encodeRows distance row.samples rest

theorem restoreRows_cons {predictor : Int} {distance : Nat} {tag : UInt8} {above encoded : Bytes}
    (some : encoded ≠ []) (rest : List Bytes) :
    restoreRows predictor distance above ((tag :: encoded) :: rest) = do
      let filter ← rowFilter predictor tag
      let restored := restore filter distance [] [] above encoded
      return restored ++ (← restoreRows predictor distance restored rest) := by
  rw [restoreRows, if_neg (by simpa using some)]

section

variable {p : DecodeParams}

theorem rowFilter_eq_ok_iff (least : 10 ≤ p.predictor) {tag : UInt8} {filter : RowFilter} :
    rowFilter p.predictor tag = .ok filter ↔
      if p.predictor = 15 then tag.toNat = filter.number else p.predictor = 10 + filter.number := by
  rw [rowFilter]
  generalize named : (if p.predictor = 15 then tag.toNat else (p.predictor - 10).toNat) = number
  have same : number = filter.number ↔
      if p.predictor = 15 then tag.toNat = filter.number else p.predictor = 10 + filter.number := by
    rw [← named]
    split <;> omega
  rw [← same, ← RowFilter.ofTag?_eq_some_iff]
  cases RowFilter.ofTag? number <;> simp

theorem rowFilter_fails_iff (least : 10 ≤ p.predictor) (greatest : p.predictor ≤ 15) (tag : UInt8) :
    (∃ e, rowFilter p.predictor tag = .error e) ↔ p.predictor = 15 ∧ 4 < tag.toNat := by
  rw [rowFilter]
  generalize named : (if p.predictor = 15 then tag.toNat else (p.predictor - 10).toNat) = number
  have beyond : 4 < number ↔ p.predictor = 15 ∧ 4 < tag.toNat := by
    rw [← named]
    split <;> omega
  rw [← beyond, ← RowFilter.ofTag?_eq_none_iff]
  cases RowFilter.ofTag? number <;> simp

variable {above : Bytes}

theorem restoreRows_encodeRows (least : 10 ≤ p.predictor) (wide : 0 < p.rowSize)
    (level : above.length = p.rowSize) {rows : List TaggedRow} (fit : ∀ row ∈ rows, row.Fits p)
    {stray : Bytes} (short : stray.length ≤ p.rowSize) :
    restoreRows p.predictor p.pixelSize above
        (wholePieces (p.rowSize + 1) (encodeRows p.pixelSize above rows ++ stray)) =
      .ok (rows.flatMap (·.samples)) := by
  induction rows generalizing above with
  | nil => simp [encodeRows, wholePieces_of_short (Nat.lt_succ_of_le short), restoreRows]
  | cons row rest inductionHypothesis =>
    have fits := fit row List.mem_cons_self
    have restored := row.filter.restore_apply p.pixelSize_pos (level.trans fits.size.symm)
    have size : (row.filter.apply p.pixelSize above row.samples).length = p.rowSize := by
      rw [RowFilter.apply, length_differences, fits.size]
    have whole : (row.encode p.pixelSize above).length = p.rowSize + 1 := congrArg Nat.succ size
    have some : row.filter.apply p.pixelSize above row.samples ≠ [] :=
      List.length_pos_iff.mp (size ▸ wide)
    have others := inductionHypothesis fits.size fun other member =>
      fit other (List.mem_cons_of_mem row member)
    rw [encodeRows, List.append_assoc, wholePieces_append (Nat.succ_pos _) whole, TaggedRow.encode,
       restoreRows_cons some, (rowFilter_eq_ok_iff least).mpr fits.filter]
    simp [bind, Except.bind, pure, Except.pure, restored, others]

theorem exists_encodeRows (least : 10 ≤ p.predictor) (wide : 0 < p.rowSize)
    (level : above.length = p.rowSize) {rows : List Bytes}
    (even : ∀ row ∈ rows, row.length = p.rowSize + 1) {out : Bytes}
    (restored : restoreRows p.predictor p.pixelSize above rows = .ok out) :
    ∃ tagged : List TaggedRow, (∀ row ∈ tagged, row.Fits p) ∧
      rows.flatten = encodeRows p.pixelSize above tagged ∧ out = tagged.flatMap (·.samples) := by
  induction rows generalizing above out with
  | nil =>
    cases restored
    exact ⟨[], by simp, rfl, rfl⟩
  | cons row rest inductionHypothesis =>
    have whole := even row List.mem_cons_self
    cases row with
    | nil => cases whole
    | cons tag encoded =>
      have size : encoded.length = p.rowSize := Nat.succ.inj whole
      rw [restoreRows_cons (List.length_pos_iff.mp (size ▸ wide))] at restored
      obtain ⟨filter, named, restored⟩ := bind_eq_ok.mp restored
      obtain ⟨others, restoredRest, made⟩ := bind_eq_ok.mp restored
      cases made
      have samples : (restore filter p.pixelSize [] [] above encoded).length = p.rowSize := by
        rw [length_restore, level, size, Nat.min_self]
      obtain ⟨tagged, fit, cut, rfl⟩ := inductionHypothesis samples
        (fun other member => even other (List.mem_cons_of_mem _ member)) restoredRest
      let first : TaggedRow := ⟨tag, filter, restore filter p.pixelSize [] [] above encoded⟩
      have fits : first.Fits p := ⟨samples, (rowFilter_eq_ok_iff least).mp named⟩
      refine ⟨first :: tagged, List.forall_mem_cons.mpr ⟨fits, fit⟩, ?_, rfl⟩
      have same := filter.apply_restore p.pixelSize_pos (level.trans size.symm)
      rw [List.flatten_cons, cut, encodeRows, TaggedRow.encode, same]

theorem restoreRows_fails_iff (least : 10 ≤ p.predictor) (greatest : p.predictor ≤ 15)
    (wide : 0 < p.rowSize) {rows : List Bytes} (even : ∀ row ∈ rows, row.length = p.rowSize + 1) :
    (∃ e, restoreRows p.predictor p.pixelSize above rows = .error e) ↔
      p.predictor = 15 ∧ ∃ row ∈ rows, 4 < (row[0]?.getD 0).toNat := by
  induction rows generalizing above with
  | nil => simp [restoreRows]
  | cons row rest inductionHypothesis =>
    have others := fun above => @inductionHypothesis above
      fun other member => even other (List.mem_cons_of_mem _ member)
    have whole := even row List.mem_cons_self
    cases row with
    | nil => cases whole
    | cons tag encoded =>
      have size : encoded.length = p.rowSize := Nat.succ.inj whole
      have failsHere := rowFilter_fails_iff least greatest tag
      rw [restoreRows_cons (List.length_pos_iff.mp (size ▸ wide))]
      cases named : rowFilter p.predictor tag with
      | error e => simp_all [bind, Except.bind]
      | ok filter =>
        have failsLater := others (restore filter p.pixelSize [] [] above encoded)
        cases restored : restoreRows p.predictor p.pixelSize
          (restore filter p.pixelSize [] [] above encoded) rest <;>
          simp_all [bind, Except.bind, pure, Except.pure]

end

/-! ## Whole data -/

/-- What rows are encoded to, the first one below a row of zeros. -/
def filteredRows (p : DecodeParams) (rows : List TaggedRow) : Bytes :=
  encodeRows p.pixelSize (List.replicate p.rowSize 0) rows

section

variable {p : DecodeParams}

theorem rowSize_pos (positive : p.IsPositive) (fits : p.colors * p.bits * p.columns < wordSize) :
    0 < p.rowSize :=
  positive.rowBytes_pos (positive.rowBytes_eq fits)

theorem undo_eq_restoreRows (positive : p.IsPositive)
    (fits : p.colors * p.bits * p.columns < wordSize) (least : 10 ≤ p.predictor)
    (greatest : p.predictor ≤ 15) (data : Bytes) :
    undo p data = restoreRows p.predictor p.pixelSize (List.replicate p.rowSize 0)
      (wholePieces (p.rowSize + 1) data) := by
  rw [undo, if_neg (by omega), if_neg (by omega), if_pos ⟨least, greatest⟩, undoRowFilters,
    positive.rowBytes_eq fits, DecodeParams.pixelBytes_of_fits (positive.pixel_fits fits)]
  show restoreRows _ _ (List.replicate (min p.rowSize data.length) 0) _ = _
  rcases Nat.lt_or_ge data.length (p.rowSize + 1) with short | long
  · -- without a row it does not matter what is above it
    rw [wholePieces_of_short short]
    rfl
  · rw [Nat.min_eq_left (by omega)]

theorem undo_eq_ok_iff_filteredRows (positive : p.IsPositive)
    (fits : p.colors * p.bits * p.columns < wordSize) (least : 10 ≤ p.predictor)
    (greatest : p.predictor ≤ 15) {data samples : Bytes} :
    undo p data = .ok samples ↔
      ∃ rows stray, (∀ row ∈ rows, row.Fits p) ∧ stray.length ≤ p.rowSize ∧
        data = filteredRows p rows ++ stray ∧ samples = rows.flatMap (·.samples) := by
  have wide := rowSize_pos positive fits
  have level : (List.replicate p.rowSize (0 : UInt8)).length = p.rowSize := List.length_replicate
  rw [undo_eq_restoreRows positive fits least greatest]
  constructor
  · intro restored
    obtain ⟨rows, fit, cut, made⟩ := exists_encodeRows least wide level
      (fun row => length_of_mem_wholePieces (Nat.succ_pos _)) restored
    obtain ⟨stray, short, whole⟩ := exists_stray (Nat.succ_pos p.rowSize) data
    refine ⟨rows, stray, fit, Nat.le_of_lt_succ short, ?_, made⟩
    rw [filteredRows, ← cut]
    exact whole
  · rintro ⟨rows, stray, fit, short, rfl, rfl⟩
    exact restoreRows_encodeRows least wide level fit short

theorem exists_mem_wholePieces {size : Nat} (positive : 0 < size) {data : Bytes} (holds : UInt8 → Prop) :
    (∃ row ∈ wholePieces size data, holds (row[0]?.getD 0)) ↔
      ∃ index, size * (index + 1) ≤ data.length ∧ holds (data[size * index]?.getD 0) := by
  have first (index : Nat) : ((data.drop (size * index)).take size)[0]? = data[size * index]? := by
    rw [List.getElem?_take_of_lt positive, List.getElem?_drop, Nat.add_zero]
  have inside (index : Nat) : index < data.length / size ↔ size * (index + 1) ≤ data.length := by
    rw [← Nat.succ_le_iff, Nat.le_div_iff_mul_le positive, Nat.mul_comm]
  rw [wholePieces_eq positive rfl]
  simp [first, inside]

theorem undo_fails_iff (positive : p.IsPositive) (fits : p.colors * p.bits * p.columns < wordSize)
    (least : 10 ≤ p.predictor) (greatest : p.predictor ≤ 15) (data : Bytes) :
    (∃ e, undo p data = .error e) ↔
      p.predictor = 15 ∧ ∃ index, (p.rowSize + 1) * (index + 1) ≤ data.length ∧
        4 < (data[(p.rowSize + 1) * index]?.getD 0).toNat := by
  have even : ∀ row ∈ wholePieces (p.rowSize + 1) data, row.length = p.rowSize + 1 :=
    fun row => length_of_mem_wholePieces (Nat.succ_pos _)
  rw [undo_eq_restoreRows positive fits least greatest,
    restoreRows_fails_iff least greatest (rowSize_pos positive fits) even,
    exists_mem_wholePieces (Nat.succ_pos _) fun tag => 4 < tag.toNat]

/-- Undoing a predictor takes encoded rows, and what is behind the last of them, to the rows that were
encoded, and any data that are taken to rows are these rows encoded. Rows fail by their tags alone. Likewise
for differences to the left, where every byte belongs to a row. -/
theorem predictors_are_undone (positive : p.IsPositive)
    (fits : p.colors * p.bits * p.columns < wordSize) :
    (10 ≤ p.predictor → p.predictor ≤ 15 → ∀ data : Bytes,
      (∀ samples, undo p data = .ok samples ↔
        ∃ rows stray, (∀ row ∈ rows, row.Fits p) ∧ stray.length ≤ p.rowSize ∧
          data = filteredRows p rows ++ stray ∧ samples = rows.flatMap (·.samples)) ∧
      ((∃ e, undo p data = .error e) ↔
        p.predictor = 15 ∧ ∃ index, (p.rowSize + 1) * (index + 1) ≤ data.length ∧
          4 < (data[(p.rowSize + 1) * index]?.getD 0).toNat)) ∧
    (p.predictor = 2 → p.bits = 8 → ∀ data samples : Bytes,
      undo p data = .ok samples ↔ data = leftDifferences p samples) := by
  refine ⟨fun least greatest data => ⟨fun samples => ?_, ?_⟩, fun horizontal depth data samples => ?_⟩
  · exact undo_eq_ok_iff_filteredRows positive fits least greatest
  · exact undo_fails_iff positive fits least greatest data
  · exact undo_eq_ok_iff_leftDifferences positive fits horizontal depth

end

/-- Rows of two pixels of two bytes each. -/
def widePixels (predictor : Int) : DecodeParams := ⟨predictor, 2, 2, 8, true⟩

/-- The second row is predicted from all three neighbours, and a byte is left behind it; behind a row of
differences to the left, a byte is a row. -/
theorem two_rows_are_undone :
    (∀ predictor, (widePixels predictor).IsPositive) ∧
      undo (widePixels 15) [3, 10, 20, 6, 11, 4, 1, 2, 251, 0, 7] =
        .ok [10, 20, 11, 21, 11, 22, 6, 22] ∧
      undo (widePixels 2) [1, 2, 3, 4, 9] = .ok [1, 2, 4, 6, 9] := by
  have positive (predictor : Int) : (widePixels predictor).IsPositive :=
    ⟨Nat.succ_pos _, Nat.succ_pos _, Nat.succ_pos _⟩
  refine ⟨positive, ?_, ?_⟩
  · have undone := ((predictors_are_undone (positive 15) (by decide)).1 (by decide) (by decide)
      [3, 10, 20, 6, 11, 4, 1, 2, 251, 0, 7]).1 [10, 20, 11, 21, 11, 22, 6, 22]
    refine undone.mpr
      ⟨[⟨3, .average, [10, 20, 11, 21]⟩, ⟨4, .nearest, [11, 22, 6, 22]⟩], [7], ?_, ?_, ?_, rfl⟩
    · decide
    · decide
    · decide
  · have undone := (predictors_are_undone (positive 2) (by decide)).2 (by decide) (by decide)
    refine (undone [1, 2, 3, 4, 9] [1, 2, 4, 6, 9]).mpr ?_
    have rows : pieces 4 ([1, 2, 4, 6, 9] : Bytes) = [[1, 2, 4, 6], [9]] := by simp [pieces]
    show _ = (pieces 4 _).flatMap _
    rw [rows]
    rfl

end Predictor

end PdfCanvas
