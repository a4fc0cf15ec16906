import PdfCanvas.Image.Samples
import PdfCanvas.Proofs.Fields
import PdfCanvas.Proofs.Outcomes
import PdfCanvas.Proofs.Pieces

/-!
# Unpacking samples

Packed data whose size is admitted are unpacked to one sample for each component of each pixel. A sample is
the field of bits that its row and its place in the row give, whatever the number of bits.
-/

namespace PdfCanvas

namespace SampleLayout

variable {l : SampleLayout} {n : Nat}

theorem of_checkedMul {a b : Nat} (fits : l.checkedMul a b = .ok n) : n = a * b := by
  unfold checkedMul at fits
  split at fits
  · exact (Except.ok.inj fits).symm
  · cases fits

theorem of_rowBytes (fits : l.rowBytes = .ok n) :
    n = bytesOfBits (l.width * l.components * l.bits) := by
  obtain ⟨samples, fitsSamples, fits⟩ := bind_eq_ok.mp fits
  obtain ⟨bits, fitsBits, made⟩ := bind_eq_ok.mp fits
  obtain rfl := of_checkedMul fitsSamples
  obtain rfl := of_checkedMul fitsBits
  exact (Except.ok.inj made).symm

theorem checkSize_eq_ok {limits : DecodeLimits} (fits : l.checkSize limits = .ok n) :
    l.totalBytes = .ok n ∧ (limits.size ≠ 0 → n ≤ limits.size) := by
  obtain ⟨packed, total, checked⟩ := bind_eq_ok.mp fits
  obtain ⟨_, checked⟩ := unless_eq_ok.mp checked
  obtain ⟨within, made⟩ := unless_eq_ok.mp checked
  obtain rfl := Except.ok.inj made
  exact ⟨total, by omega⟩

theorem of_checkSize {limits : DecodeLimits} (fits : l.checkSize limits = .ok n) :
    n = bytesOfBits (l.width * l.components * l.bits) * l.height := by
  obtain ⟨total, _⟩ := checkSize_eq_ok fits
  obtain ⟨rowBytes, fitsRow, fitsAll⟩ := bind_eq_ok.mp total
  obtain rfl := of_rowBytes fitsRow
  exact of_checkedMul fitsAll

/-- The samples take two bytes each, and the pixels four. -/
theorem room_of_checkSize (fits : l.checkSize limits = .ok packed) :
    2 * (l.width * l.components * l.height) < bufferSize ∧ 4 * (l.width * l.height) < bufferSize := by
  obtain ⟨_, _, checked⟩ := bind_eq_ok.mp fits
  obtain ⟨room, _⟩ := unless_eq_ok.mp checked
  rw [Nat.not_le, Nat.max_lt] at room
  rw [Nat.mul_right_comm]
  exact room

theorem rowBytes_of_checkSize {limits : DecodeLimits} (fits : l.checkSize limits = .ok n) :
    l.rowBytes = .ok (bytesOfBits (l.width * l.components * l.bits)) ∧
      l.samplesPerRow = .ok (l.width * l.components) := by
  obtain ⟨rowBytes, fitsRow, _⟩ := bind_eq_ok.mp (checkSize_eq_ok fits).1
  obtain ⟨samples, fitsSamples, _⟩ := bind_eq_ok.mp fitsRow
  rw [fitsRow, fitsSamples, of_rowBytes fitsRow, of_checkedMul fitsSamples]
  exact ⟨rfl, rfl⟩

/-- The sample of a component of the pixel at a column and row of packed data. -/
def sampleAt (l : SampleLayout) (data : Bytes) (x y component : Nat) : Nat :=
  data.field (y * (8 * (l.width * l.components * l.bits ⌈/⌉ 8)) + (l.components * x + component) * l.bits)
    l.bits

/-- The samples of the pixel at a column and row, one for each component. -/
def pixelAt (l : SampleLayout) (samples : List Nat) (x y : Nat) : List Nat :=
  (samples.drop (l.components * (l.width * y + x))).take l.components

theorem getElem?_pixelAt (l : SampleLayout) (samples : List Nat) (x y : Nat) {component : Nat}
    (less : component < l.components) : (l.pixelAt samples x y)[component]? =
      samples[l.width * l.components * y + (l.components * x + component)]? := by
  rw [pixelAt, List.getElem?_take_of_lt less, List.getElem?_drop]
  congr 1
  grind

section

variable {samples : List Nat} {x y : Nat}

theorem pixel_lt (inside : x < l.width) (below : y < l.height) : l.width * y + x < l.width * l.height := by
  have row := Nat.mul_le_mul_left l.width (Nat.succ_le_of_lt below)
  rw [Nat.mul_succ] at row
  omega

theorem length_pixelAt (length : samples.length = l.width * l.components * l.height)
    (inside : x < l.width) (below : y < l.height) : (l.pixelAt samples x y).length = l.components := by
  have whole := Nat.mul_le_mul_left l.components (Nat.succ_le_of_lt (pixel_lt inside below))
  have total : samples.length = l.components * (l.width * l.height) := by
    rw [length, Nat.mul_comm l.width, Nat.mul_assoc]
  rw [Nat.mul_succ, ← total] at whole
  rw [pixelAt, List.length_take, List.length_drop]
  omega

/-- Samples are cut into pixels, row by row. -/
theorem getElem?_pixels (some : 0 < l.components)
    (length : samples.length = l.width * l.components * l.height)
    (inside : x < l.width) (below : y < l.height) :
    (wholePieces l.components samples)[l.width * y + x]? = .some (l.pixelAt samples x y) := by
  have whole : samples.length / l.components = l.width * l.height := by
    rw [length, Nat.mul_right_comm, Nat.mul_div_cancel _ some]
  exact getElem?_wholePieces some (whole ▸ pixel_lt inside below)

theorem exists_pixelAt (some : 0 < l.components)
    (length : samples.length = l.width * l.components * l.height) {pixel : List Nat}
    (member : pixel ∈ wholePieces l.components samples) :
    ∃ x < l.width, ∃ y < l.height, pixel = l.pixelAt samples x y := by
  obtain ⟨index, there⟩ := List.mem_iff_getElem?.mp member
  have inside : index < l.width * l.height := by
    have inside := (List.getElem?_eq_some_iff.mp there).1
    rwa [length_wholePieces some, length, Nat.mul_right_comm, Nat.mul_div_cancel _ some] at inside
  have wide : 0 < l.width := Nat.pos_of_mul_pos_right (Nat.zero_lt_of_lt inside)
  have column : index % l.width < l.width := Nat.mod_lt index wide
  have row : index / l.width < l.height := Nat.div_lt_of_lt_mul inside
  have same := getElem?_pixels some length column row
  rw [Nat.div_add_mod, there] at same
  exact ⟨_, column, _, row, Option.some.inj same⟩

end

end SampleLayout

namespace Samples

theorem getElem?_resize (size : Nat) (data : Bytes) (index : Nat) :
    (resize size data)[index]? = if index < size then some (data[index]?.getD 0) else none := by
  unfold resize
  grind

/-- The bytes of a row of packed data; missing ones are zero. -/
def packedRow (rowBytes : Nat) (data : Bytes) (y : Nat) : Bytes :=
  (List.range rowBytes).map fun index => data[rowBytes * y + index]?.getD 0

theorem getElem?_packedRow (rowBytes : Nat) (data : Bytes) (y index : Nat) :
    (packedRow rowBytes data y)[index]? =
      if index < rowBytes then some (data[rowBytes * y + index]?.getD 0) else none := by
  unfold packedRow
  grind

theorem slice_resize {rowBytes height y : Nat} (inside : y < height) (data : Bytes) :
    ((resize (rowBytes * height) data).drop (rowBytes * y)).take rowBytes =
      packedRow rowBytes data y := by
  apply List.ext_getElem?
  intro index
  rw [getElem?_packedRow, List.getElem?_take, List.getElem?_drop, getElem?_resize]
  by_cases inRow : index < rowBytes
  · have whole : rowBytes * (y + 1) ≤ rowBytes * height := Nat.mul_le_mul_left _ inside
    rw [Nat.mul_add_one] at whole
    rw [if_pos inRow, if_pos inRow, if_pos (by omega)]
  · rw [if_neg inRow, if_neg inRow]

theorem length_resize (size : Nat) (data : Bytes) : (resize size data).length = size := by
  unfold resize
  simp
  omega

theorem ofRow_nil (bits : Nat) : ofRow bits 0 [] = .ok [] := by
  simp [ofRow, words]

theorem rows_of_pieces {bits count rowBytes height : Nat} {data : Bytes} {rows : List (List Nat)}
    (blank : rowBytes = 0 → count = 0)
    (made : (wholePieces rowBytes (resize (rowBytes * height) data)).map (ofRow bits count) =
      rows.map .ok) :
    ∃ allRows : List (List Nat), rows.flatten = allRows.flatten ∧
      (List.range height).map (fun y => ofRow bits count (packedRow rowBytes data y)) =
        allRows.map .ok := by
  by_cases empty : rowBytes = 0
  · -- no bytes make no rows, but as many rows without samples are as good
    obtain rfl := empty
    obtain rfl := blank rfl
    have noRows : rows = [] := by
      simpa [wholePieces, pieces, resize] using made.symm
    refine ⟨List.replicate height [], by simp [noRows], ?_⟩
    have nothing (y : Nat) : ofRow bits 0 (packedRow 0 data y) = .ok [] := ofRow_nil bits
    simp only [nothing, List.map_const', List.length_range, List.map_replicate]
  · refine ⟨rows, rfl, ?_⟩
    have positive := Nat.pos_of_ne_zero empty
    have held : (resize (rowBytes * height) data).length / rowBytes = height := by
      rw [length_resize, Nat.mul_div_cancel_left height positive]
    rw [← made, wholePieces_eq positive held, List.map_map]
    apply List.map_congr_left
    intro y inside
    rw [Function.comp_apply, slice_resize (List.mem_range.mp inside)]

theorem length_words : (row : Bytes) → (words row).length = row.length / 2
  | [] => rfl
  | [_] => by simp [words]
  | high :: low :: rest => by
    have others := length_words rest
    rw [words, List.length_cons, others, List.length_cons, List.length_cons]
    omega

theorem length_fieldsOfByte (bits : Nat) (byte : UInt8) : (fieldsOfByte bits byte).length = 8 / bits := by
  rw [fieldsOfByte, List.length_map, List.length_range]

theorem even_fieldsOfByte (bits : Nat) (row : Bytes) :
    ∀ fields ∈ row.map (fieldsOfByte bits), fields.length = 8 / bits := by
  intro fields member
  obtain ⟨byte, _, rfl⟩ := List.mem_map.mp member
  exact length_fieldsOfByte bits byte

theorem length_ofRow {bits count : Nat} {row : Bytes} {samples : List Nat}
    (depth : bits ∈ [1, 2, 4, 8, 16]) (made : ofRow bits count row = .ok samples) :
    samples.length = count := by
  unfold ofRow at made
  split at made
  · cases made
  · rename_i long
    split at made
    · rename_i twoBytes
      subst twoBytes
      obtain rfl := Except.ok.inj made
      rw [List.length_take, length_words]
      omega
    · split at made
      · rename_i oneByte
        subst oneByte
        obtain rfl := Except.ok.inj made
        rw [List.length_map, List.length_take]
        omega
      · obtain rfl := Except.ok.inj made
        rw [List.length_take, List.flatMap_def,
          length_flatten_of_length (even_fieldsOfByte bits row), List.length_map]
        simp only [List.mem_cons, List.not_mem_nil, or_false] at depth
        rcases depth with rfl | rfl | rfl | rfl | rfl <;> omega

theorem ofRow_eq_ok {bits count : Nat} {row : Bytes} (long : count * bits ≤ row.length * 8) :
    ∃ samples, ofRow bits count row = .ok samples := by
  rw [ofRow, if_neg (Nat.not_lt.mpr long)]
  split
  · exact ⟨_, rfl⟩
  · split <;> exact ⟨_, rfl⟩

theorem getElem?_words : (row : Bytes) → (index : Nat) →
    (words row)[index]? = if index < row.length / 2 then some (row.field (16 * index) 16) else none
  | [], index => by simp [words]
  | [_], index => by simp [words]
  | high :: low :: rest, index => by
    rw [words]
    cases index with
    | zero =>
      have two := Bytes.field_word (high :: low :: rest) 0
      rw [Nat.mul_zero] at two ⊢
      rw [List.getElem?_cons_zero, two, if_pos (by rw [List.length_cons, List.length_cons]; omega)]
      rfl
    | succ index =>
      have there : 16 * (index + 1) = 8 * (2 * index + 2) := by omega
      have here : 16 * index = 8 * (2 * index) := by omega
      rw [List.getElem?_cons_succ, getElem?_words rest index, there, here, Bytes.field_word,
        Bytes.field_word]
      simp only [List.getElem?_cons_succ, List.length_cons]
      congr 1
      rw [eq_iff_iff]
      omega

theorem getElem?_fieldsOfByte {bits : Nat} (row : Bytes) (index : Nat) {place : Nat}
    (inside : place < 8 / bits) :
    (fieldsOfByte bits (row[index]?.getD 0))[place]? =
      some (row.field (8 * index + bits * place) bits) := by
  have within : bits * place + bits ≤ 8 := by
    rw [← Nat.mul_add_one]
    exact Nat.le_trans (Nat.mul_le_mul_left bits inside) (Nat.mul_div_le 8 bits)
  rw [fieldsOfByte, List.getElem?_map, List.getElem?_range inside, Option.map_some,
    Bytes.field_in_byte row index within, Nat.one_shiftLeft, Nat.mul_add_one]

/-- The samples of a row are the fields of its bytes. -/
theorem getElem?_ofRow {bits count x : Nat} (depth : bits ∈ [1, 2, 4, 8, 16]) (inside : x < count)
    {row : Bytes} {samples : List Nat} (made : ofRow bits count row = .ok samples) :
    samples[x]? = some (row.field (bits * x) bits) := by
  unfold ofRow at made
  split at made
  · cases made
  · rename_i short
    have long : bits * x + bits ≤ row.length * 8 := by
      have more := Nat.mul_le_mul_left bits (Nat.succ_le_of_lt inside)
      rw [Nat.mul_succ, Nat.mul_comm bits count] at more
      omega
    split at made
    · rename_i twoBytes
      subst twoBytes
      obtain rfl := Except.ok.inj made
      rw [List.getElem?_take_of_lt inside, getElem?_words, if_pos (by omega)]
    · split at made
      · rename_i oneByte
        subst oneByte
        obtain rfl := Except.ok.inj made
        have there : x < row.length := by omega
        rw [List.getElem?_map, List.getElem?_take_of_lt inside, Bytes.field_byte,
          List.getElem?_eq_getElem there]
        rfl
      · obtain rfl := Except.ok.inj made
        have known : 0 < bits ∧ 0 < 8 / bits ∧ bits * (8 / bits) = 8 := by
          simp only [List.mem_cons, List.not_mem_nil, or_false] at depth
          rcases depth with rfl | rfl | rfl | rfl | rfl <;> first | decide | contradiction
        -- the fields of the bytes are rows of as many samples each
        have found := getElem?_flatten_of_length (even_fieldsOfByte bits row)
          (Nat.mod_lt x known.2.1) (x / (8 / bits))
        rw [Nat.div_add_mod] at found
        have place : bits * x = 8 * (x / (8 / bits)) + bits * (x % (8 / bits)) := by
          have whole := congrArg (bits * ·) (Nat.div_add_mod x (8 / bits))
          simp only [Nat.mul_add, ← Nat.mul_assoc, known.2.2] at whole
          exact whole.symm
        have there : x / (8 / bits) < row.length := by
          have := known.1
          omega
        rw [List.getElem?_take_of_lt inside, List.flatMap_def, found, List.getElem?_map, place,
          ← getElem?_fieldsOfByte row _ (Nat.mod_lt x known.2.1), List.getElem?_eq_getElem there]
        rfl

theorem field_packedRow {rowBytes start count : Nat} (inside : start + count ≤ rowBytes * 8)
    (data : Bytes) (y : Nat) :
    (packedRow rowBytes data y).field start count = data.field (8 * (rowBytes * y) + start) count := by
  apply Bytes.field_congr
  intro index less
  rw [Nat.add_assoc, Bytes.bitAt_from_byte, Bytes.bitAt, getElem?_packedRow, if_pos (by omega)]
  rfl

section

variable {data : Bytes} {layout : SampleLayout} {limits : DecodeLimits} {samples : List Nat}

theorem checkSize_of_unpack (unpacked : unpack data layout limits = .ok samples) :
    ∃ size, layout.checkSize limits = .ok size := by
  rw [unpack] at unpacked
  obtain ⟨_, unpacked⟩ := unless_eq_ok.mp unpacked
  obtain ⟨size, fits, _⟩ := bind_eq_ok.mp unpacked
  exact ⟨size, fits⟩

/-- Unpacking goes row by row, and each row gives a sample for each component of its pixels. -/
theorem rows_of_unpack (unpacked : unpack data layout limits = .ok samples) :
    ∃ rows : List (List Nat), samples = rows.flatten ∧ rows.length = layout.height ∧
      (∀ row ∈ rows, row.length = layout.width * layout.components) ∧
      ∀ y row, rows[y]? = some row →
        ofRow layout.bits (layout.width * layout.components)
          (packedRow (bytesOfBits (layout.width * layout.components * layout.bits)) data y) = .ok row := by
  rw [unpack] at unpacked
  obtain ⟨depth, unpacked⟩ := unless_eq_ok.mp unpacked
  obtain ⟨size, fits, unpacked⟩ := bind_eq_ok.mp unpacked
  obtain ⟨rowBytes, fitsRow, unpacked⟩ := bind_eq_ok.mp unpacked
  obtain ⟨count, fitsCount, unpacked⟩ := bind_eq_ok.mp unpacked
  obtain ⟨_, unpacked⟩ := unless_eq_ok.mp unpacked
  obtain ⟨made, madeRows, whole⟩ := bind_eq_ok.mp unpacked
  obtain rfl := SampleLayout.of_checkSize fits
  obtain rfl := SampleLayout.of_rowBytes fitsRow
  obtain rfl := SampleLayout.of_checkedMul fitsCount
  obtain rfl := Except.ok.inj whole
  have known := Decidable.not_not.mp depth
  have blank (empty : bytesOfBits (layout.width * layout.components * layout.bits) = 0) :
      layout.width * layout.components = 0 := by
    have covered := le_bytesOfBits (layout.width * layout.components * layout.bits)
    rw [empty] at covered
    have positive : layout.bits ≠ 0 := by
      rintro zero
      simp [zero] at known
    exact (Nat.mul_eq_zero.mp (Nat.le_zero.mp covered)).resolve_right positive
  obtain ⟨rows, same, byRow⟩ := rows_of_pieces blank (mapM_eq_ok.mp madeRows)
  have height : rows.length = layout.height := by
    simpa using (congrArg List.length byRow).symm
  have each (y : Nat) (row : List Nat) (there : rows[y]? = some row) :
      ofRow layout.bits (layout.width * layout.components)
        (packedRow (bytesOfBits (layout.width * layout.components * layout.bits)) data y) = .ok row := by
    have below : y < layout.height := height ▸ (List.getElem?_eq_some_iff.mp there).1
    have atRow := congrArg (·[y]?) byRow
    simpa [there, below] using atRow
  refine ⟨rows, same, height, ?_, each⟩
  intro row member
  obtain ⟨y, there⟩ := List.mem_iff_getElem?.mp member
  exact length_ofRow known (each y row there)

theorem length_unpack (unpacked : unpack data layout limits = .ok samples) :
    samples.length = layout.width * layout.components * layout.height := by
  obtain ⟨rows, rfl, height, even, _⟩ := rows_of_unpack unpacked
  rw [length_flatten_of_length even, height]

theorem depth_of_unpack (unpacked : unpack data layout limits = .ok samples) :
    layout.bits ∈ [1, 2, 4, 8, 16] := by
  rw [unpack] at unpacked
  exact Decidable.not_not.mp (unless_eq_ok.mp unpacked).1

/-- A sample is a field of the data, in rows that start on a byte. -/
theorem getElem?_unpack (unpacked : unpack data layout limits = .ok samples) {x y : Nat}
    (inside : x < layout.width * layout.components) (below : y < layout.height) :
    samples[layout.width * layout.components * y + x]? =
      some (data.field (8 * (bytesOfBits (layout.width * layout.components * layout.bits) * y) +
        layout.bits * x) layout.bits) := by
  have depth := depth_of_unpack unpacked
  obtain ⟨rows, rfl, height, even, each⟩ := rows_of_unpack unpacked
  obtain ⟨row, there⟩ : ∃ row, rows[y]? = some row := ⟨_, List.getElem?_eq_getElem (height ▸ below)⟩
  have covered := le_bytesOfBits (layout.width * layout.components * layout.bits)
  have within := Nat.mul_le_mul_left layout.bits (Nat.succ_le_of_lt inside)
  rw [Nat.mul_succ, Nat.mul_comm layout.bits (_ * _)] at within
  rw [getElem?_flatten_of_length even inside, there, Option.bind_some,
    getElem?_ofRow depth inside (each y row there), field_packedRow (Nat.le_trans within covered)]

theorem getElem?_pixelAt_of_unpack (unpacked : unpack data layout limits = .ok samples)
    {x y component : Nat} (inside : x < layout.width) (below : y < layout.height)
    (less : component < layout.components) :
    (layout.pixelAt samples x y)[component]? = some (layout.sampleAt data x y component) := by
  have inRow : layout.components * x + component < layout.width * layout.components := by
    have next := Nat.mul_le_mul_left layout.components (Nat.succ_le_of_lt inside)
    rw [Nat.mul_succ, Nat.mul_comm _ layout.width] at next
    omega
  have row : y * (8 * (layout.width * layout.components * layout.bits ⌈/⌉ 8)) =
      8 * (bytesOfBits (layout.width * layout.components * layout.bits) * y) := by
    rw [bytesOfBits_eq, Nat.mul_comm y, Nat.mul_assoc]
  rw [SampleLayout.getElem?_pixelAt _ _ _ _ less, getElem?_unpack unpacked inRow below,
    SampleLayout.sampleAt, row, Nat.mul_comm layout.bits]

/-- Samples of eight bits are the bytes themselves; a byte that is missing is zero. -/
theorem getElem?_unpack_bytes (unpacked : unpack data layout limits = .ok samples)
    (depth : layout.bits = 8) {x y : Nat}
    (inside : x < layout.width * layout.components) (below : y < layout.height) :
    samples[layout.width * layout.components * y + x]? =
      some (data[layout.width * layout.components * y + x]?.getD 0).toNat := by
  have bytes : bytesOfBits (layout.width * layout.components * 8) = layout.width * layout.components := by
    simp [bytesOfBits]
  rw [getElem?_unpack unpacked inside below, depth, bytes, ← Nat.mul_add, Bytes.field_byte]

/-- Samples of one bit are the bits of the row's bytes; a byte that is missing is zero. -/
theorem getElem?_unpack_bits (unpacked : unpack data layout limits = .ok samples)
    (depth : layout.bits = 1) {x y : Nat}
    (inside : x < layout.width * layout.components) (below : y < layout.height) :
    samples[layout.width * layout.components * y + x]? =
      some (((data[bytesOfBits (layout.width * layout.components) * y + x / 8]?.getD 0).toNat >>>
        (7 - x % 8)) % 2) := by
  have inByte : x % 8 + 1 ≤ 8 := Nat.mod_lt x (by decide)
  have cut := Bytes.field_in_byte data (bytesOfBits (layout.width * layout.components) * y + x / 8) inByte
  rw [Nat.mul_add, Nat.add_assoc, Nat.div_add_mod, Nat.sub_add_eq, Nat.sub_right_comm] at cut
  rw [getElem?_unpack unpacked inside below, depth, Nat.mul_one, Nat.one_mul, cut]
  rfl

end

/-- Data are unpacked if the depth is one of the five and the size is admitted. -/
theorem unpack_eq_ok {layout : SampleLayout} {limits : DecodeLimits} {size : Nat}
    (depth : layout.bits ∈ [1, 2, 4, 8, 16]) (positive : 0 < layout.width * layout.components)
    (fits : layout.checkSize limits = .ok size) (data : Bytes) :
    ∃ samples, unpack data layout limits = .ok samples := by
  obtain ⟨fitsRow, fitsCount⟩ := SampleLayout.rowBytes_of_checkSize fits
  have covered := le_bytesOfBits (layout.width * layout.components * layout.bits)
  have bitsPositive : 0 < layout.bits := by
    apply Nat.pos_of_ne_zero
    intro zero
    simp [zero] at depth
  have rowPositive : 0 < bytesOfBits (layout.width * layout.components * layout.bits) := by
    have := Nat.mul_pos positive bitsPositive
    omega
  have addressable : ¬wordSize ≤ layout.width * layout.components * layout.height := by
    have room := (SampleLayout.room_of_checkSize fits).1
    simp only [SampleLayout.bufferSize, wordSize, Nat.one_shiftLeft] at room ⊢
    omega
  have each : ∀ row ∈ wholePieces (bytesOfBits (layout.width * layout.components * layout.bits))
      (resize size data), ∃ samples, ofRow layout.bits (layout.width * layout.components) row =
        .ok samples := by
    intro row member
    apply ofRow_eq_ok
    rw [length_of_mem_wholePieces rowPositive member]
    exact covered
  obtain ⟨rows, made⟩ := exists_mapM each
  rw [unpack]
  exact ⟨rows.flatten, unless_eq_ok.mpr ⟨not_not_intro depth, bind_eq_ok.mpr ⟨size, fits,
    bind_eq_ok.mpr ⟨_, fitsRow, bind_eq_ok.mpr ⟨_, fitsCount, unless_eq_ok.mpr ⟨addressable,
      bind_eq_ok.mpr ⟨rows, made, rfl⟩⟩⟩⟩⟩⟩⟩

/-- Also rows without samples are unpacked. -/
theorem exists_unpack {layout : SampleLayout} {limits : DecodeLimits} {size : Nat}
    (depth : layout.bits ∈ [1, 2, 4, 8, 16]) (fits : layout.checkSize limits = .ok size) (data : Bytes) :
    ∃ samples, unpack data layout limits = .ok samples := by
  rcases Nat.eq_zero_or_pos (layout.width * layout.components) with none | positive
  · have blank : size = 0 := by
      rw [SampleLayout.of_checkSize fits, none, Nat.zero_mul]
      exact Nat.zero_mul _
    obtain ⟨fitsRow, fitsCount⟩ := SampleLayout.rowBytes_of_checkSize fits
    have addressable : ¬wordSize ≤ layout.width * layout.components * layout.height := by
      rw [none, Nat.zero_mul]
      decide
    rw [unpack]
    refine ⟨[], unless_eq_ok.mpr ⟨not_not_intro depth, bind_eq_ok.mpr ⟨size, fits,
      bind_eq_ok.mpr ⟨_, fitsRow, bind_eq_ok.mpr ⟨_, fitsCount, unless_eq_ok.mpr ⟨addressable, ?_⟩⟩⟩⟩⟩⟩
    have empty : wholePieces 0 (resize 0 data) = [] := by
      rw [List.length_eq_zero_iff.mp (length_resize 0 data), ← wholePieces_max]
      exact wholePieces_of_short (by decide)
    rw [blank, none, Nat.zero_mul]
    show (List.mapM _ (wholePieces 0 _) >>= _) = _
    rw [empty]
    rfl
  · exact unpack_eq_ok depth positive fits data

end Samples

end PdfCanvas
