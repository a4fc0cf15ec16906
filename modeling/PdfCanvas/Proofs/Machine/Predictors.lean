import PdfCanvas.Filter.Predictor
import PdfCanvas.Proofs.Filter.Limits
import PdfCanvas.Proofs.Machine.Steps

/-!
# Predictors on a machine

Rows are restored byte by byte in a buffer, from the left: a byte is read together with bytes that are
restored already, at a distance to the left and in the row above, and is written back in its place. For
every index it has to be known that it lies in the buffer. What the loops leave in the buffers are the
rows that `Predictor.undo` says.
-/

namespace PdfCanvas

theorem DecodeParams.of_checkedMul {p : DecodeParams} {a b n : Nat} (fits : p.checkedMul a b = .ok n) :
    n = a * b := by
  unfold checkedMul at fits
  split at fits
  · exact (Except.ok.inj fits).symm
  · cases fits

/-- A row with bytes has pixels with bytes. -/
theorem DecodeParams.colors_pos {p : DecodeParams} {size : Nat} (width : p.rowBytes = .ok size)
    (some : size ≠ 0) : 0 < p.colors := by
  obtain ⟨pixel, fitsPixel, fits⟩ := bind_eq_ok.mp width
  obtain ⟨bits, fitsBits, made⟩ := bind_eq_ok.mp fits
  obtain rfl := Except.ok.inj made
  obtain rfl := of_checkedMul fitsPixel
  obtain rfl := of_checkedMul fitsBits
  apply Nat.pos_of_ne_zero
  rintro none
  rw [none, Nat.zero_mul, Nat.zero_mul] at some
  exact some rfl

namespace Machine

/-! ## Filling a buffer from the left -/

section

variable {α : Type} {target start : List α}

/-- A buffer that is filled with what it shall hold up to an index. -/
def filled (target start : List α) (index : Nat) : List α := target.take index ++ start.drop index

theorem getElem?_filled (same : target.length = start.length) (index place : Nat) :
    (filled target start index)[place]? = if place < index then target[place]? else start[place]? := by
  unfold filled
  grind

theorem length_filled (same : target.length = start.length) (index : Nat) :
    (filled target start index).length = target.length := by
  unfold filled
  grind

theorem put_filled (same : target.length = start.length) {index : Nat} {element : α}
    (there : target[index]? = some element) :
    put (filled target start index) index element = .ok (filled target start (index + 1)) := by
  have inside : index < target.length := (List.getElem?_eq_some_iff.mp there).1
  rw [put_ok (by rwa [length_filled same])]
  congr 1
  apply List.ext_getElem?
  intro place
  rw [List.getElem?_set, getElem?_filled same, getElem?_filled same, length_filled same]
  grind

/-- Takes a step for each index from one up to another. -/
def loop (first stop : Nat) (step : List α → Nat → Run (List α)) (buffer : List α) : Run (List α) :=
  (List.range' first (stop - first)).foldlM step buffer

/-- A loop whose rounds each put the element at their index fills the buffer. -/
theorem loop_ok {step : List α → Nat → Run (List α)} {first stop : Nat} (order : first ≤ stop)
    (inside : stop ≤ target.length)
    (each : ∀ index, first ≤ index → index < target.length →
      step (filled target start index) index = .ok (filled target start (index + 1))) :
    loop first stop step (filled target start first) = .ok (filled target start stop) := by
  obtain ⟨count, rfl⟩ := Nat.exists_eq_add_of_le order
  rw [loop, Nat.add_sub_cancel_left]
  clear order
  induction count generalizing first with
  | zero => rfl
  | succ count inductionHypothesis =>
    have others := inductionHypothesis (fun index after => each index (Nat.le_of_lt after)) (by omega)
    rw [List.range'_succ, List.foldlM_cons, each first (Nat.le_refl first) (by omega), ok_bind, others,
      Nat.succ_add, Nat.add_succ]

end

/-- The byte at a distance before an index; there is none, which counts as zero, if the index is less. -/
def byteBefore (distance : Nat) (bytes : Bytes) (index : Nat) : UInt8 :=
  if distance ≤ index then bytes[index - distance]?.getD 0 else 0

/-- What is behind the index does not matter. -/
theorem byteBefore_append {distance : Nat} (positive : 0 < distance) (bytes others : Bytes) :
    byteBefore distance (bytes ++ others) bytes.length = byteBefore distance bytes bytes.length := by
  unfold byteBefore
  grind

/-- Of bytes in reverse the one at the distance is that many places from the front. -/
theorem byteBefore_reverse {distance : Nat} (positive : 0 < distance) (before : Bytes) :
    byteBefore distance before.reverse before.length = before[distance - 1]?.getD 0 := by
  unfold byteBefore
  split
  · rename_i near
    rw [List.getElem?_reverse (by omega)]
    congr 2
    omega
  · rw [List.getElem?_eq_none (by omega)]
    rfl

def getBefore (distance : Nat) (bytes : Bytes) (index : Nat) : Run UInt8 :=
  if distance ≤ index then do get bytes (← sub index distance) else .ok 0

theorem getBefore_ok {distance index : Nat} {bytes : Bytes} (positive : 0 < distance)
    (inside : index ≤ bytes.length) :
    getBefore distance bytes index = .ok (byteBefore distance bytes index) := by
  unfold getBefore byteBefore
  split
  · rename_i far
    have below : index - distance < bytes.length := by omega
    rw [sub_ok far, ok_bind, get_ok (List.getElem?_eq_getElem below), List.getElem?_eq_getElem below]
    rfl
  · rfl

/-- In a buffer that is filled up to the index it is a byte of what the buffer shall hold. -/
theorem byteBefore_filled {distance index : Nat} {target start : Bytes} (positive : 0 < distance)
    (same : target.length = start.length) :
    byteBefore distance (filled target start index) index = byteBefore distance target index := by
  unfold byteBefore
  rw [getElem?_filled same]
  split
  · rw [if_pos (by omega)]
  · rfl

/-! ## Differences to the left -/

def addLeftAt (colors : Nat) (row : Bytes) (index : Nat) : Run Bytes := do
  let byte ← get row index
  let left ← get row (← sub index colors)
  put row index (byte + left)

def addLeft (colors : Nat) (row : Bytes) : Run Bytes :=
  loop colors row.length (addLeftAt colors) row

def undoDifferences (p : DecodeParams) (data : Bytes) : Run Bytes :=
  if p.bits ≠ 8 then refuse (.decode (.differencingDepth p.bits))
  else do
    let size ← lift p.rowBytes
    let output ← hold data
    let rows ← chunks size output
    let restored ← rows.mapM (addLeft p.colors)
    return restored.flatten

theorem getElem?_addLeft {colors : Nat} (positive : 0 < colors) (before row : Bytes) (index : Nat) :
    (Predictor.addLeft colors before row)[index]? =
      row[index]?.map (· + byteBefore colors (before.reverse ++ Predictor.addLeft colors before row)
        (before.length + index)) := by
  induction row generalizing before index with
  | nil => rfl
  | cons byte row inductionHypothesis =>
    rw [Predictor.addLeft]
    cases index with
    | zero =>
      have left := byteBefore_append positive before.reverse
      rw [List.length_reverse] at left
      rw [List.getElem?_cons_zero, List.getElem?_cons_zero, Option.map_some, Nat.add_zero, left,
        byteBefore_reverse positive]
    | succ index =>
      rw [List.getElem?_cons_succ, List.getElem?_cons_succ, inductionHypothesis, List.reverse_cons,
        List.append_assoc, List.length_cons, Nat.add_right_comm, Nat.add_assoc]
      rfl

/-- A buffer that is filled up to its end holds what it shall hold. -/
theorem filled_all {target start : Bytes} (same : target.length = start.length) {stop : Nat}
    (whole : target.length ≤ stop) : filled target start stop = target := by
  rw [filled, List.drop_eq_nil_of_le (by omega), List.append_nil, List.take_of_length_le whole]

theorem addLeft_ok {colors : Nat} (positive : 0 < colors) (row : Bytes) :
    addLeft colors row = .ok (Predictor.addLeft colors [] row) := by
  let target := Predictor.addLeft colors [] row
  have same : target.length = row.length := Predictor.length_addLeft colors [] row
  have restored (index : Nat) : target[index]? = row[index]?.map (· + byteBefore colors target index) := by
    have general := getElem?_addLeft positive [] row index
    rwa [List.reverse_nil, List.nil_append, List.length_nil, Nat.zero_add] at general
  have first : filled target row colors = row := by
    -- the bytes that have no neighbour on the left are their own
    apply List.ext_getElem?
    intro index
    rw [getElem?_filled same]
    split
    · rename_i near
      rw [restored, byteBefore, if_neg (by omega)]
      simp
    · rfl
  rcases Nat.lt_or_ge row.length colors with short | long
  · have unchanged : target = row := by rw [← first, filled_all same (by omega)]
    rw [addLeft, loop, Nat.sub_eq_zero_of_le (Nat.le_of_lt short)]
    exact congrArg Except.ok unchanged.symm
  · have each (index : Nat) (far : colors ≤ index) (inside : index < target.length) :
        addLeftAt colors (filled target row index) index = .ok (filled target row (index + 1)) := by
      obtain ⟨byte, there⟩ : ∃ byte, row[index]? = some byte :=
        ⟨_, List.getElem?_eq_getElem (same ▸ inside)⟩
      have encoded : (filled target row index)[index]? = some byte := by
        rw [getElem?_filled same, if_neg (Nat.lt_irrefl index), there]
      have left := getBefore_ok positive (length_filled same index ▸ Nat.le_of_lt inside)
      rw [getBefore, if_pos far, byteBefore_filled positive same, sub_ok far, ok_bind] at left
      have made := restored index
      rw [there, Option.map_some] at made
      rw [addLeftAt, get_ok encoded, ok_bind, sub_ok far, ok_bind, left, ok_bind, put_filled same made]
    have filling := loop_ok long (by omega) each
    rwa [first, filled_all same (by omega)] at filling

theorem undoDifferences_eq (p : DecodeParams) {data : Bytes} (held : data.length < memorySize) :
    undoDifferences p data = lift (Predictor.undoDifferences p data) := by
  unfold undoDifferences Predictor.undoDifferences
  rw [lift_unless]
  by_cases depth : p.bits ≠ 8
  · rw [if_pos depth, if_pos depth]
    rfl
  · rw [if_neg depth, if_neg depth]
    refine bind_lift fun size width => ?_
    rw [lift_unless, hold_ok held, ok_bind]
    by_cases none : size = 0
    · rw [if_pos none, chunks, if_pos none]
      rfl
    · have positive : 0 < p.colors := DecodeParams.colors_pos width none
      rw [if_neg none, chunks_ok none, ok_bind, mapM_ok fun row _ => addLeft_ok positive row]
      rfl

theorem hold_runsAs (data : Bytes) : RunsAs (hold data) (.ok data) := by
  unfold hold
  split
  · exact .inl rfl
  · exact .inr rfl

theorem undoDifferences_runsAs (p : DecodeParams) (data : Bytes) :
    RunsAs (undoDifferences p data) (Predictor.undoDifferences p data) := by
  by_cases held : data.length < memorySize
  · exact .inr (undoDifferences_eq p held)
  · have full : hold data = .error .memory := if_pos (Nat.not_lt.mp held)
    unfold undoDifferences Predictor.undoDifferences
    by_cases depth : p.bits ≠ 8
    · rw [if_pos depth, if_pos depth]
      exact .inr rfl
    · rw [if_neg depth, if_neg depth]
      refine RunsAs.bind (.inr rfl) fun size _ => ?_
      rw [full]
      exact .inl rfl

/-! ## Rows with filters -/

def gap (a b : Int) : Run Nat := do
  let difference ← fitSigned (a - b)
  let size ← fitSigned difference.natAbs
  return size.toNat

/-- The nearest neighbour, in signed numbers of sixteen bits. -/
def nearest (left up upLeft : UInt8) : Run UInt8 := do
  let sum ← fitSigned (left.toNat + up.toNat)
  let estimate ← fitSigned (sum - upLeft.toNat)
  let toLeft ← gap estimate left.toNat
  let toUp ← gap estimate up.toNat
  let toUpLeft ← gap estimate upLeft.toNat
  return if toLeft ≤ toUp ∧ toLeft ≤ toUpLeft then left else if toUp ≤ toUpLeft then up else upLeft

def predict (tag : Nat) (left up upLeft : UInt8) : Run UInt8 :=
  match tag with
  | 0 => .ok 0
  | 1 => .ok left
  | 2 => .ok up
  | 3 => do
    let sum ← add 16 left.toNat up.toNat
    return (← divide sum 2).toUInt8
  | 4 => nearest left up upLeft
  | _ => refuse (.decode (.rowTag tag))

/-- Restores a byte of a row in its buffer; `above` is the row above. -/
def restoreAt (tag distance : Nat) (above encoded current : Bytes) (index : Nat) : Run Bytes := do
  let left ← getBefore distance current index
  let up ← get above index
  let upLeft ← getBefore distance above index
  let predicted ← predict tag left up upLeft
  let byte ← get encoded index
  put current index (byte + predicted)

/-- The tag of a row: its first byte if rows have filters of their own, else that of all rows. -/
def rowTag (predictor : Int) (row : Bytes) : Run Nat :=
  if predictor = 15 then UInt8.toNat <$> get row 0 else .ok (predictor - 10).toNat

/-- Restores rows with tags in front. The buffers of a row and of the row above change places. -/
def restoreRows (predictor : Int) (size distance : Nat) :
    (above current : Bytes) → List Bytes → Run Bytes
  | _, _, [] => .ok []
  | above, current, row :: rest => do
    let tag ← rowTag predictor row
    let encoded ← slice row 1 row.length
    let restored ← loop 0 size (restoreAt tag distance above encoded) current
    return restored ++ (← restoreRows predictor size distance restored above rest)

def undoRowFilters (p : DecodeParams) (data : Bytes) : Run Bytes := do
  let size ← lift p.rowBytes
  let distance ← lift p.pixelBytes
  if size + 1 < wordSize ∧ size + 1 ≤ data.length then do
    let rows ← chunksExact (size + 1) data
    reserve (← mul 64 (← divide data.length (size + 1)) size) 1
    reserve size 1
    reserve size 1
    restoreRows p.predictor size distance (List.replicate size 0) (List.replicate size 0) rows
  else return []

theorem gap_ok {a b : Int} (near : (a - b).natAbs < 32768) : gap a b = .ok (a - b).natAbs := by
  rw [gap, fitSigned_ok (by omega) (by omega), ok_bind, fitSigned_ok (by omega) (by omega)]
  rfl

theorem nearest_ok (left up upLeft : UInt8) :
    nearest left up upLeft = .ok (Predictor.nearest left up upLeft) := by
  have leftFits := left.toNat_lt
  have upFits := up.toNat_lt
  have upLeftFits := upLeft.toNat_lt
  rw [nearest, fitSigned_ok (by omega) (by omega), ok_bind, fitSigned_ok (by omega) (by omega), ok_bind,
    gap_ok (by omega), ok_bind, gap_ok (by omega), ok_bind, gap_ok (by omega), ok_bind]
  rfl

theorem predict_eq (tag : Nat) (left up upLeft : UInt8) :
    predict tag left up upLeft =
      match Predictor.RowFilter.ofTag? tag with
      | some filter => .ok (filter.predict left up upLeft)
      | none => refuse (.decode (.rowTag tag)) := by
  match tag with
  | 0 | 1 | 2 => rfl
  | 3 =>
    have leftFits := left.toNat_lt
    have upFits := up.toNat_lt
    rw [predict, add_ok (by omega), ok_bind, divide_ok (by decide), ok_bind]
    rfl
  | 4 => exact nearest_ok left up upLeft
  | _ + 5 => rfl

theorem getElem?_restore (filter : Predictor.RowFilter) {distance : Nat} (positive : 0 < distance)
    (before : Bytes) {aboveBefore above encoded : Bytes} (level : aboveBefore.length = before.length)
    {index : Nat} {up byte : UInt8} (thereAbove : above[index]? = some up) (there : encoded[index]? = some byte) :
    (Predictor.restore filter distance before aboveBefore above encoded)[index]? =
      some (byte + filter.predict
        (byteBefore distance
          (before.reverse ++ Predictor.restore filter distance before aboveBefore above encoded)
          (before.length + index))
        up (byteBefore distance (aboveBefore.reverse ++ above) (before.length + index))) := by
  induction encoded generalizing before aboveBefore above index with
  | nil => cases there
  | cons first encoded inductionHypothesis =>
    cases above with
    | nil => cases thereAbove
    | cons firstUp above =>
      rw [Predictor.restore]
      cases index with
      | zero =>
        obtain rfl := Option.some.inj there
        obtain rfl := Option.some.inj thereAbove
        have left := byteBefore_append positive before.reverse
        have upLeft := byteBefore_append positive aboveBefore.reverse
        rw [List.length_reverse] at left upLeft
        rw [level] at upLeft
        rw [List.getElem?_cons_zero, Nat.add_zero, left, upLeft, byteBefore_reverse positive, ← level,
          byteBefore_reverse positive]
      | succ index =>
        rw [List.getElem?_cons_succ] at thereAbove there ⊢
        have deeper : (firstUp :: aboveBefore).length = before.length + 1 := congrArg Nat.succ level
        rw [inductionHypothesis (_ :: before) deeper thereAbove there, List.reverse_cons,
          List.reverse_cons, List.append_assoc, List.append_assoc, List.length_cons, Nat.add_right_comm,
          Nat.add_assoc]
        rfl

/-- A row that its tag names a filter for is restored as that filter says. -/
theorem restoreAt_loop_ok {tag distance size : Nat} (positive : 0 < distance) {filter : Predictor.RowFilter}
    (named : Predictor.RowFilter.ofTag? tag = some filter) {above encoded current : Bytes}
    (level : above.length = size) (width : encoded.length = size) (room : current.length = size) :
    loop 0 size (restoreAt tag distance above encoded) current =
      .ok (Predictor.restore filter distance [] [] above encoded) := by
  let target := Predictor.restore filter distance [] [] above encoded
  have targetSize : target.length = size := by
    rw [Predictor.length_restore, level, width, Nat.min_self]
  have same : target.length = current.length := targetSize.trans room.symm
  have each (index : Nat) (_ : 0 ≤ index) (inside : index < target.length) :
      restoreAt tag distance above encoded (filled target current index) index =
        .ok (filled target current (index + 1)) := by
    obtain ⟨_, up⟩ : ∃ up, above[index]? = some up := ⟨_, List.getElem?_eq_getElem (by omega)⟩
    obtain ⟨_, byte⟩ : ∃ byte, encoded[index]? = some byte := ⟨_, List.getElem?_eq_getElem (by omega)⟩
    have there := getElem?_restore filter positive [] List.length_nil up byte
    rw [List.reverse_nil, List.nil_append, List.nil_append, List.length_nil, Nat.zero_add] at there
    rw [restoreAt, getBefore_ok positive (by rw [length_filled same]; omega), ok_bind, get_ok up, ok_bind,
      getBefore_ok positive (by omega), ok_bind, predict_eq, named, byteBefore_filled positive same]
    dsimp only
    rw [ok_bind, get_ok byte, ok_bind, put_filled same there]
  have filling := loop_ok (Nat.zero_le size) (Nat.le_of_eq targetSize.symm) each
  rwa [filled_all same (Nat.le_of_eq targetSize)] at filling

theorem restoreAt_loop_refused {tag distance size : Nat} (positive : 0 < distance)
    (unnamed : Predictor.RowFilter.ofTag? tag = none) (above encoded current : Bytes)
    (wide : 0 < size) (level : above.length = size) :
    loop 0 size (restoreAt tag distance above encoded) current = refuse (.decode (.rowTag tag)) := by
  obtain ⟨size, rfl⟩ := Nat.exists_eq_add_one_of_ne_zero (Nat.ne_of_gt wide)
  obtain ⟨_, up⟩ : ∃ up, above[0]? = some up := ⟨_, List.getElem?_eq_getElem (level ▸ wide)⟩
  have first : restoreAt tag distance above encoded current 0 = refuse (.decode (.rowTag tag)) := by
    rw [restoreAt, getBefore_ok positive (Nat.zero_le _), ok_bind, get_ok up, ok_bind,
      getBefore_ok positive (Nat.zero_le _), ok_bind, predict_eq, unnamed]
    rfl
  rw [loop, Nat.sub_zero, List.range'_succ, List.foldlM_cons, first]
  rfl

/-- Rows are restored as `Predictor.restoreRows` says, whatever was in the buffer before. -/
theorem restoreRows_eq {predictor : Int} {size distance : Nat} (positive : 0 < distance)
    {above current : Bytes} (level : above.length = size) (room : current.length = size)
    {rows : List Bytes} (even : ∀ row ∈ rows, row.length = size + 1) :
    restoreRows predictor size distance above current rows =
      lift (Predictor.restoreRows predictor distance above rows) := by
  -- By induction on the rows; a row that is restored is the row above the next one.
  induction rows generalizing above current with
  | nil => rfl
  | cons row rest inductionHypothesis =>
    have others : ∀ row ∈ rest, row.length = size + 1 :=
      fun other member => even other (List.mem_cons_of_mem row member)
    have whole := even row List.mem_cons_self
    cases row with
    | nil => cases whole
    | cons tag encoded =>
      have width : encoded.length = size := Nat.succ.inj whole
      have read : rowTag predictor (tag :: encoded) =
          .ok (if predictor = 15 then tag.toNat else (predictor - 10).toNat) := by
        unfold rowTag
        split <;> rfl
      have cut : slice (tag :: encoded) 1 (tag :: encoded).length = .ok encoded := by
        rw [slice_ok (by rw [whole]; omega) (Nat.le_refl _), List.take_length]
        rfl
      rw [restoreRows, Predictor.restoreRows, read, ok_bind, cut, ok_bind]
      by_cases blank : encoded.isEmpty = true
      · -- without bytes nothing is restored, and the buffers are as empty as before
        obtain rfl : size = 0 := by rw [← width, List.isEmpty_iff.mp blank, List.length_nil]
        obtain rfl := List.length_eq_zero_iff.mp level
        obtain rfl := List.length_eq_zero_iff.mp room
        rw [if_pos blank, ← inductionHypothesis level room others]
        exact bind_pure (restoreRows predictor 0 distance [] [] rest)
      · have wide : 0 < size := by
          rw [← width]
          exact List.length_pos_iff.mpr (by simpa using blank)
        rw [if_neg blank, Predictor.rowFilter]
        dsimp only
        generalize (if predictor = 15 then tag.toNat else (predictor - 10).toNat) = number
        cases named : Predictor.RowFilter.ofTag? number with
        | none =>
          rw [restoreAt_loop_refused positive named above encoded current wide level]
          rfl
        | some filter =>
          have height : (Predictor.restore filter distance [] [] above encoded).length = size := by
            rw [Predictor.length_restore, level, width, Nat.min_self]
          rw [restoreAt_loop_ok positive named level width room, ok_bind,
            inductionHypothesis height level others]
          exact bind_lift fun _ _ => rfl

theorem undoRowFilters_runsAs (p : DecodeParams) {data : Bytes}
    (sized : data.length < SampleLayout.bufferSize) :
    RunsAs (undoRowFilters p data) (Predictor.undoRowFilters p data) := by
  refine RunsAs.bind (.inr rfl) fun size _ => ?_
  refine RunsAs.bind (.inr rfl) fun distance apart => ?_
  have positive : 0 < distance := by
    obtain ⟨_, _, made⟩ := bind_eq_ok.mp apart
    obtain rfl := Except.ok.inj made
    omega
  have word : SampleLayout.bufferSize < 1 <<< 64 := by decide
  have same : wordSize = 1 <<< 64 := rfl
  split
  next enough =>
    have least : min size data.length = size := by omega
    have stride : size + 1 ≠ 0 := by omega
    have total : data.length / (size + 1) * size ≤ data.length :=
      Nat.le_trans (Nat.mul_le_mul_left _ (Nat.le_succ size)) (Nat.div_mul_le_self data.length (size + 1))
    rw [chunksExact_ok stride, ok_bind, divide_ok stride, ok_bind, mul_ok (by omega), ok_bind, least]
    refine RunsAs.reserve (by omega) fun _ => ?_
    refine RunsAs.reserve (by omega) fun _ => ?_
    refine RunsAs.reserve (by omega) fun _ => ?_
    right
    refine restoreRows_eq positive List.length_replicate List.length_replicate fun row member => ?_
    exact length_of_mem_wholePieces size.succ_pos member
  next short =>
    -- there is not a single row
    have noRows : wholePieces (size + 1) data = [] := by
      rw [← List.length_eq_zero_iff, length_wholePieces size.succ_pos, Nat.div_eq_of_lt (by omega)]
    right
    rw [noRows]
    rfl

/-! ## Either kind -/

def undo (p : DecodeParams) (data : Bytes) : Run Bytes :=
  if p.predictor = 1 then hold data
  else if p.predictor = 2 then undoDifferences p data
  else if 10 ≤ p.predictor ∧ p.predictor ≤ 15 then undoRowFilters p data
  else refuse (.decode (.unknownPredictor p.predictor))

theorem undo_runsAs (p : DecodeParams) {data : Bytes} (sized : data.length < SampleLayout.bufferSize) :
    RunsAs (undo p data) (Predictor.undo p data) := by
  unfold undo Predictor.undo
  split
  · exact hold_runsAs data
  · split
    · exact undoDifferences_runsAs p data
    · split
      · exact undoRowFilters_runsAs p sized
      · exact .inr rfl

end Machine

/-! ## Parameters that a dictionary gives -/

namespace DecodeParams

/-- No size is zero. -/
structure IsPositive (p : DecodeParams) : Prop where
  columns : 0 < p.columns
  colors : 0 < p.colors
  bits : 0 < p.bits

theorem isPositive_standard : standard.IsPositive := ⟨by decide, by decide, by decide⟩

theorem isPositive_ofObject (object : Object) : (ofObject object).IsPositive := by
  have atLeastOne (value : Int) : 0 < positive value := Nat.le_max_left 1 value.toNat
  have given (integer : Option Int) (other : Nat) (some : 0 < other) :
      0 < (integer.map positive).getD other := by
    cases integer with
    | none => exact some
    | some value => exact atLeastOne value
  rw [ofObject]
  cases object.dictionary? with
  | none => exact isPositive_standard
  | some entries =>
    exact ⟨given _ _ (by decide), given _ _ (by decide), given _ _ (by decide)⟩

variable {p : DecodeParams}

theorem IsPositive.rowBytes_pos (positive : p.IsPositive) {size : Nat} (width : p.rowBytes = .ok size) :
    0 < size := by
  obtain ⟨pixel, fitsPixel, fits⟩ := bind_eq_ok.mp width
  obtain ⟨bits, fitsBits, made⟩ := bind_eq_ok.mp fits
  obtain rfl := Except.ok.inj made
  obtain rfl := of_checkedMul fitsPixel
  obtain rfl := of_checkedMul fitsBits
  have some := Nat.mul_pos (Nat.mul_pos positive.colors positive.bits) positive.columns
  unfold bytesOfBits
  split <;> omega

/-- Differences to the left are to be undone in rows of no bytes. -/
structure HasEmptyRows (p : DecodeParams) : Prop where
  horizontal : p.predictor = 2
  depth : p.bits = 8
  width : p.rowBytes = .ok 0

theorem IsPositive.not_hasEmptyRows (positive : p.IsPositive) : ¬ p.HasEmptyRows :=
  fun empty => Nat.lt_irrefl 0 (positive.rowBytes_pos empty.width)

theorem neverAborts_checkedMul (p : DecodeParams) (a b : Nat) :
    Machine.NeverAborts (p.checkedMul a b) := by
  unfold checkedMul
  split
  · exact Machine.neverAborts_ok _
  · exact Machine.neverAborts_error rfl

theorem neverAborts_rowBytes (p : DecodeParams) : Machine.NeverAborts p.rowBytes :=
  (neverAborts_checkedMul p _ _).bind fun _ _ =>
    (neverAborts_checkedMul p _ _).bind fun _ _ => Machine.neverAborts_ok _

theorem neverAborts_pixelBytes (p : DecodeParams) : Machine.NeverAborts p.pixelBytes :=
  (neverAborts_checkedMul p _ _).bind fun _ _ => Machine.neverAborts_ok _

end DecodeParams

namespace Predictor

open Machine

variable {p : DecodeParams}

theorem neverAborts_rowFilter (predictor : Int) (tag : UInt8) : NeverAborts (rowFilter predictor tag) := by
  rw [rowFilter]
  generalize RowFilter.ofTag? _ = named
  cases named with
  | none => exact neverAborts_error rfl
  | some filter => exact neverAborts_ok filter

theorem neverAborts_restoreRows (predictor : Int) (distance : Nat) (above : Bytes) (rows : List Bytes) :
    NeverAborts (restoreRows predictor distance above rows) := by
  fun_induction restoreRows predictor distance above rows with
  | case1 => exact neverAborts_ok []
  | case2 => exact neverAborts_ok []
  | case3 above tag encoded rest blank inductionHypothesis => exact inductionHypothesis
  | case4 above tag encoded rest some inductionHypothesis =>
    refine (neverAborts_rowFilter predictor tag).bind fun filter _ => ?_
    exact (inductionHypothesis filter).bind fun _ _ => neverAborts_ok _

theorem neverAborts_undo (some : ¬ p.HasEmptyRows) (data : Bytes) : NeverAborts (undo p data) := by
  unfold undo
  split
  · exact neverAborts_ok data
  · split
    next horizontal =>
      unfold undoDifferences
      refine NeverAborts.checked (fun _ => by rfl) fun depth => ?_
      refine p.neverAborts_rowBytes.bind fun size width => ?_
      refine NeverAborts.checked (fun none => ?_) fun _ => neverAborts_ok _
      exact absurd ⟨horizontal, Decidable.of_not_not depth, none ▸ width⟩ some
    next =>
      split
      · refine p.neverAborts_rowBytes.bind fun size _ => ?_
        refine p.neverAborts_pixelBytes.bind fun distance _ => ?_
        exact neverAborts_restoreRows p.predictor distance _ _
      · exact neverAborts_error rfl

end Predictor

end PdfCanvas
