import PdfCanvas.Image.Basic
import PdfCanvas.Proofs.Image.Samples
import PdfCanvas.Proofs.Machine.Steps

/-!
# Samples on a machine

Samples are cut out of their rows by index and by shifts. What keeps every one of these steps within its
bounds is that the size of the samples was looked at first: the buffers that are made afterwards, and the
products that are not looked at any more, are less than what was.
-/

namespace PdfCanvas

/-! ## What the size of samples leaves room for -/

theorem bytesOfBits_le {bits : Nat} (count : Nat) (depth : bits ≤ 16) :
    bytesOfBits (count * bits) ≤ 2 * count := by
  have least : count * bits ≤ count * 16 := Nat.mul_le_mul_left count depth
  unfold bytesOfBits
  split <;> omega

namespace SampleLayout

variable {l : SampleLayout} {limits : DecodeLimits} {packed : Nat}

/-- The packed samples do not take more than the unpacked ones. -/
theorem packed_lt (fits : l.checkSize limits = .ok packed) (depth : l.bits ≤ 16) : packed < bufferSize := by
  have room := (room_of_checkSize fits).1
  have rows := Nat.mul_le_mul_right l.height (bytesOfBits_le (l.width * l.components) depth)
  rw [of_checkSize fits]
  rw [Nat.mul_assoc 2] at rows
  omega

theorem neverAborts_checkedMul (l : SampleLayout) (a b : Nat) :
    Machine.NeverAborts (l.checkedMul a b) := by
  unfold checkedMul
  split
  · exact Machine.neverAborts_ok _
  · exact Machine.neverAborts_error rfl

theorem neverAborts_rowBytes (l : SampleLayout) : Machine.NeverAborts l.rowBytes :=
  (neverAborts_checkedMul l _ _).bind fun _ _ =>
    (neverAborts_checkedMul l _ _).bind fun _ _ => Machine.neverAborts_ok _

theorem neverAborts_checkSize (l : SampleLayout) (limits : DecodeLimits) :
    Machine.NeverAborts (l.checkSize limits) := by
  unfold checkSize totalBytes
  refine Machine.NeverAborts.bind ?_ fun packed _ => ?_
  · exact (neverAborts_rowBytes l).bind fun _ _ => neverAborts_checkedMul l _ _
  · refine Machine.NeverAborts.checked (fun _ => by rfl) fun _ => ?_
    exact Machine.NeverAborts.checked (fun _ => by rfl) fun _ => Machine.neverAborts_ok packed

end SampleLayout

/-! ## Pieces of two -/

theorem wholePieces_two {α : Type} : (elements : List α) →
    wholePieces 2 elements = (Image.pairs elements).map fun pair => [pair.1, pair.2]
  | [] => by simp [wholePieces, pieces, Image.pairs]
  | [_] => by simp [wholePieces, pieces, Image.pairs]
  | first :: second :: rest => by
    have others := wholePieces_two rest
    rw [wholePieces] at others ⊢
    rw [pieces_eq (by decide) (List.cons_ne_nil first _), Image.pairs, List.map_cons, ← others]
    rfl

theorem words_eq : (row : Bytes) →
    words row = (Image.pairs row).map fun pair => 256 * pair.1.toNat + pair.2.toNat
  | [] => by simp [words, Image.pairs]
  | [_] => by simp [words, Image.pairs]
  | _ :: _ :: rest => by rw [words, Image.pairs, List.map_cons, words_eq rest]

namespace Machine

def pairOf {α : Type} (piece : List α) : Run (α × α) := do
  let first ← get piece 0
  let second ← get piece 1
  return (first, second)

theorem pairs_ok {α : Type} (elements : List α) :
    (do (← chunksExact 2 elements).mapM pairOf) = .ok (Image.pairs elements) := by
  have each : (Image.pairs elements).mapM (pairOf ∘ fun pair => [pair.1, pair.2]) =
      .ok ((Image.pairs elements).map id) := mapM_ok fun _ _ => rfl
  rw [chunksExact_ok (by decide), ok_bind, wholePieces_two, List.mapM_map, each, List.map_id]

/-! ## Unpacking -/

/-- The sample at an index of a row of samples that are parts of bytes. -/
def fieldAt (bits perByte mask : Nat) (row : Bytes) (index : Nat) : Run Nat := do
  let byte ← get row (← divide index perByte)
  let place ← add 64 (← modulo index perByte) 1
  let shift ← sub 8 (← mul 64 bits place)
  return (← shiftRight 16 byte.toNat shift) &&& mask

def sampleOfPair (piece : Bytes) : Run Nat := do
  let (high, low) ← pairOf piece
  return 256 * high.toNat + low.toNat

def unpackRow (bits count : Nat) (row : Bytes) : Run (List Nat) :=
  if bits = 8 then List.map UInt8.toNat <$> slice row 0 count
  else if bits = 16 then do
    let pairs ← chunksExact 2 row
    (pairs.take count).mapM sampleOfPair
  else do
    let perByte ← divide 8 bits
    let mask ← ones 16 bits
    (List.range count).mapM (fieldAt bits perByte mask row)

/-- Data of a size, filled up with zeros or cut off. -/
def resize (size : Nat) (data : Bytes) : Run Bytes :=
  if data.length < size then do
    reserve size 1
    return data ++ List.replicate (size - data.length) 0
  else slice data 0 size

def unpack (data : Bytes) (layout : SampleLayout) (limits : DecodeLimits) : Run (List Nat) :=
  if layout.bits ∉ [1, 2, 4, 8, 16] then refuse (.format (.sampleDepth layout.bits))
  else do
    let size ← lift (layout.checkSize limits)
    let rowBytes ← lift layout.rowBytes
    let data ← resize size data
    let count ← lift layout.samplesPerRow
    reserve (← mul 64 count layout.height) 2
    let rows ← chunksExact (max rowBytes 1) data
    let samples ← rows.mapM (unpackRow layout.bits count)
    return samples.flatten

theorem resize_safe {size : Nat} (bounded : size < SampleLayout.bufferSize) (data : Bytes) :
    Safe (resize size data) (.ok (Samples.resize size data)) := by
  unfold resize Samples.resize
  split
  next short =>
    rw [List.take_of_length_le (Nat.le_of_lt short)]
    exact Safe.reserve (by omega) (Safe.ok _)
  next long =>
    rw [slice_ok (Nat.zero_le size) (Nat.not_lt.mp long), Nat.sub_eq_zero_of_le (Nat.not_lt.mp long)]
    apply Safe.of_ok
    rw [List.drop_zero, List.replicate_zero, List.append_nil]

theorem fieldAt_ok {bits count index : Nat} (depth : bits ∈ [1, 2, 4]) {row : Bytes}
    (width : row.length = bytesOfBits (count * bits)) (inside : index < count) :
    ∃ field, fieldAt bits (8 / bits) (1 <<< bits - 1) row index = .ok field ∧
      (row.flatMap (Samples.fieldsOfByte bits))[index]? = some field := by
  have covered := le_bytesOfBits (count * bits)
  simp only [List.mem_cons, List.not_mem_nil, or_false] at depth
  obtain ⟨positive, whole, below⟩ :
      0 < 8 / bits ∧ bits * (8 / bits) = 8 ∧ index / (8 / bits) < row.length := by
    rcases depth with rfl | rfl | rfl <;> omega
  have small := Nat.div_le_self 8 bits
  have inByte := Nat.mod_lt index positive
  have last : bits * (index % (8 / bits) + 1) ≤ 8 :=
    Nat.le_trans (Nat.mul_le_mul_left bits inByte) (Nat.le_of_eq whole)
  have byte : row[index / (8 / bits)]? = some (row[index / (8 / bits)]) := List.getElem?_eq_getElem below
  have found := getElem?_flatten_of_length (Samples.even_fieldsOfByte bits row) inByte (index / (8 / bits))
  rw [Nat.div_add_mod, List.getElem?_map, byte, Option.map_some, Option.bind_some, Samples.fieldsOfByte,
    List.getElem?_map, List.getElem?_range inByte, Option.map_some] at found
  refine ⟨_, ?_, found⟩
  rw [fieldAt, divide_ok (Nat.ne_of_gt positive), ok_bind, get_ok byte, ok_bind,
    modulo_ok (Nat.ne_of_gt positive), ok_bind, add_ok (by omega), ok_bind, mul_ok (by omega), ok_bind,
    sub_ok last, ok_bind, shiftRight_ok (by omega), ok_bind, Nat.one_shiftLeft,
    Nat.and_two_pow_sub_one_eq_mod]
  rfl

/-- A row holds all of its samples, so that none of them is filled up. -/
theorem fields_ok {bits count : Nat} (depth : bits ∈ [1, 2, 4]) {row : Bytes}
    (width : row.length = bytesOfBits (count * bits)) :
    (List.range count).mapM (fieldAt bits (8 / bits) (1 <<< bits - 1) row) =
      .ok ((row.flatMap (Samples.fieldsOfByte bits)).take count) := by
  let fields := row.flatMap (Samples.fieldsOfByte bits)
  have each : ∀ index ∈ List.range count,
      fieldAt bits (8 / bits) (1 <<< bits - 1) row index = .ok (fields[index]?.getD 0) := by
    intro index member
    obtain ⟨field, read, there⟩ := fieldAt_ok depth width (List.mem_range.mp member)
    rw [read, there]
    rfl
  rw [mapM_ok each]
  congr 1
  apply List.ext_getElem?
  intro index
  rw [List.getElem?_map, List.getElem?_take]
  split
  next inside =>
    obtain ⟨field, _, there⟩ := fieldAt_ok depth width inside
    rw [List.getElem?_range inside, there, Option.map_some, there]
    rfl
  next outside => rw [List.getElem?_eq_none (by rw [List.length_range]; omega)]; rfl

theorem unpackRow_safe {bits count : Nat} {row : Bytes} (depth : bits ∈ [1, 2, 4, 8, 16])
    (width : row.length = bytesOfBits (count * bits)) :
    Safe (unpackRow bits count row) (Samples.ofRow bits count row) := by
  have covered := le_bytesOfBits (count * bits)
  rw [Samples.ofRow, if_neg (by omega)]
  unfold unpackRow
  by_cases twoBytes : bits = 16
  · subst twoBytes
    rw [if_neg (by decide), if_pos rfl, if_pos rfl, chunksExact_ok (by decide), ok_bind, wholePieces_two,
      words_eq, ← List.map_take, ← List.map_take, List.mapM_map]
    exact Safe.of_ok (mapM_ok fun pair _ => rfl)
  · by_cases oneByte : bits = 8
    · subst oneByte
      rw [if_pos rfl, if_neg (by decide), if_pos rfl, slice_ok (Nat.zero_le count) (by omega)]
      exact Safe.ok _
    · have parts : bits ∈ [1, 2, 4] := by
        simp only [List.mem_cons, List.not_mem_nil, or_false] at depth ⊢
        omega
      have shallow : bits < 16 := by
        simp only [List.mem_cons, List.not_mem_nil, or_false] at parts
        omega
      rw [if_neg oneByte, if_neg twoBytes, if_neg twoBytes, if_neg oneByte,
        divide_ok (by rintro rfl; simp at depth), ok_bind, ones_ok shallow, ok_bind, fields_ok parts width]
      exact Safe.ok _

/-- A row with fewer bytes than samples has no slice for them. -/
example : unpackRow 8 2 [0xFF] = .error .panic := rfl

theorem unpack_safe (data : Bytes) (layout : SampleLayout) (limits : DecodeLimits) :
    Safe (unpack data layout limits) (Samples.unpack data layout limits) := by
  unfold unpack Samples.unpack
  by_cases depth : layout.bits ∉ [1, 2, 4, 8, 16]
  · rw [if_pos depth, if_pos depth]
    exact Safe.refuse rfl
  · rw [if_neg depth, if_neg depth]
    have known := Decidable.not_not.mp depth
    refine Safe.bind (.lift (layout.neverAborts_checkSize limits)) fun size fits => ?_
    refine Safe.bind (.lift layout.neverAborts_rowBytes) fun rowBytes fitsRow => ?_
    obtain ⟨room, -⟩ := SampleLayout.room_of_checkSize fits
    have shallow : layout.bits ≤ 16 := by
      simp only [List.mem_cons, List.not_mem_nil, or_false] at known
      omega
    refine Safe.after (resize_safe (SampleLayout.packed_lt fits shallow) data) ?_
    refine Safe.bind (.lift (layout.neverAborts_checkedMul _ _)) fun count fitsCount => ?_
    obtain rfl := SampleLayout.of_checkedMul fitsCount
    obtain rfl := SampleLayout.of_rowBytes fitsRow
    obtain rfl := SampleLayout.of_checkSize fits
    have word : wordSize = 1 <<< 64 := rfl
    have half : SampleLayout.bufferSize = 1 <<< 63 := rfl
    -- the product and the buffer of the samples are not looked at again: `room` stands for both
    rw [mul_ok (by omega), ok_bind, if_neg (by omega)]
    refine Safe.reserve (by omega) ?_
    rw [chunksExact_ok (by omega), ok_bind, wholePieces_max]
    refine Safe.bind (.mapM fun row member => unpackRow_safe known ?_) fun rows _ => .ok rows.flatten
    -- rows of no bytes are cut in ones, out of data that was cut off to nothing
    rcases Nat.eq_zero_or_pos (bytesOfBits (layout.width * layout.components * layout.bits))
      with none | positive
    · rw [none] at member
      simp [Samples.resize, wholePieces, pieces] at member
    · exact length_of_mem_wholePieces positive member

end Machine

/-! ## Colours -/

namespace ColorSpace

/-- The colorants of a space fit in memory, where a name takes twenty-four bytes. -/
def fits : ColorSpace → Bool
  | .gray => true
  | .rgb => true
  | .cmyk => true
  | .indexed base _ _ => base.fits
  | .icc _ none _ => true
  | .icc _ (some alternate) _ => alternate.fits
  | .separation _ alternate _ => alternate.fits
  | .deviceN colorants alternate _ => 24 * colorants.length < Machine.memorySize && alternate.fits
  | .pattern none => true
  | .pattern (some underlying) => underlying.fits
  termination_by structural space => space

theorem components_lt : (space : ColorSpace) → space.fits = true →
    24 * space.components < Machine.memorySize
  | .gray, _ => by decide
  | .rgb, _ => by decide
  | .cmyk, _ => by decide
  | .indexed .., _ => by
    rw [components]
    decide
  | .icc count _ _, _ => by
    have byteSize := count.toNat_lt
    have room : Machine.memorySize = 1 <<< 60 := rfl
    rw [components]
    omega
  | .separation .., _ => by
    rw [components]
    decide
  | .deviceN colorants _ _, held => by
    rw [fits, Bool.and_eq_true, decide_eq_true_eq] at held
    exact held.1
  | .pattern none, _ => by
    rw [components]
    decide
  | .pattern (some underlying), held => by
    rw [components]
    rw [fits] at held
    exact components_lt underlying held
  termination_by structural space => space

end ColorSpace

theorem Floating.roundNat_le {format : FloatFormat} (limit : Nat) (x : Floating format) :
    x.roundNat limit ≤ limit := by
  unfold roundNat
  split
  · exact Nat.zero_le limit
  · split
    · exact Nat.min_le_left limit _
    · split
      · exact Nat.zero_le limit
      · exact Nat.le_refl limit

namespace Machine

/-- A colour whose components were moved between zero and one. -/
def fromUnit (color : Rgb) : Run Rgb := do
  bounds .zero .one
  return color

/-- The pixel of a colour whose components are mapped to their ranges. -/
def colorToRgb : ColorSpace → List Single → Run Rgb
  | .gray, values => fromUnit (ColorSpace.grayToRgb values)
  | .rgb, values => fromUnit (ColorSpace.rgbToRgb values)
  | .cmyk, values => fromUnit (ColorSpace.cmykToRgb values)
  | .indexed base limit table, values => do
    bounds .zero (Floating.ofNat limit.toNat)
    let index := (values.headD .zero).roundNat limit.toNat
    let first ← mul 64 index base.components
    let stop ← mul 64 (← add 64 index 1) base.components
    if table.length < stop then refuse (.format (.paletteEntry index))
    else do
      let entry ← slice table first stop
      reserve entry.length 4
      colorToRgb base (entry.map fun byte => Floating.ofNat byte.toNat / Floating.ofNat 255)
  | .icc _ (some alternate) _, values => colorToRgb alternate values
  | .icc components none _, values =>
    if components = 1 then fromUnit (ColorSpace.grayToRgb values)
    else if components = 3 then fromUnit (ColorSpace.rgbToRgb values)
    else if components = 4 then fromUnit (ColorSpace.cmykToRgb values)
    else refuse (.format (.profileCount components.toNat))
  | .separation .., values => fromUnit (ColorSpace.tintToRgb 1 values)
  | .deviceN colorants _ _, values => fromUnit (ColorSpace.tintToRgb colorants.length values)
  | .pattern _, _ => refuse (.format .patternColor)
  termination_by structural space => space

/-- The pixels of samples in a colour space, with a range for each component. -/
def toRgb (samples : List Nat) (layout : SampleLayout) (space : ColorSpace)
    (ranges : List (Single × Single)) : Run (Raster Rgb) :=
  if space.isPattern then refuse (.format .patternSamples)
  else do
    let maxSample ← ones 32 layout.bits
    reserve (← mul 64 (← mul 64 layout.width layout.height) 3) 1
    reserve layout.components 4
    let pixels ← chunksExact layout.components samples
    let painted ← pixels.mapM fun pixel =>
      colorToRgb space (pixel.zipWith (Samples.mapToRange maxSample) ranges)
    return ⟨layout.width, layout.height, painted⟩

theorem bounds_unit : bounds .zero .one = .ok () := if_pos (by decide +kernel)

theorem bounds_byte (byte : UInt8) : bounds .zero (Floating.ofNat byte.toNat) = .ok () := by
  have every : ∀ value : Fin 256, areBounds .zero (Floating.ofNat value.val) = true := by decide +kernel
  exact if_pos (every byte.toFin)

theorem fromUnit_safe (color : Rgb) : Safe (fromUnit color) (.ok color) := by
  apply Safe.of_ok
  rw [fromUnit, bounds_unit]
  rfl

theorem colorToRgb_safe : (space : ColorSpace) → space.fits = true → (values : List Single) →
    Safe (colorToRgb space values) (space.toRgb values)
  | .gray, _, values => fromUnit_safe (ColorSpace.grayToRgb values)
  | .rgb, _, values => fromUnit_safe (ColorSpace.rgbToRgb values)
  | .cmyk, _, values => fromUnit_safe (ColorSpace.cmykToRgb values)
  | .indexed base limit table, held, values => by
    rw [ColorSpace.fits] at held
    rw [colorToRgb, ColorSpace.toRgb, bounds_byte, ok_bind]
    have narrow := base.components_lt held
    have small : (values.headD .zero).roundNat limit.toNat ≤ limit.toNat := Floating.roundNat_le _ _
    have byteSize := limit.toNat_lt
    have room : memorySize = 1 <<< 60 := rfl
    have half : SampleLayout.bufferSize = 1 <<< 63 := rfl
    -- the index is at most a byte, whatever the range was: this alone bounds both products
    generalize (values.headD .zero).roundNat limit.toNat = index at small ⊢
    dsimp only
    have last : (index + 1) * base.components ≤ 256 * base.components :=
      Nat.mul_le_mul_right base.components (by omega)
    have next : (index + 1) * base.components = index * base.components + base.components :=
      Nat.succ_mul index base.components
    rw [mul_ok (by omega), ok_bind, add_ok (by omega), ok_bind, mul_ok (by omega), ok_bind]
    by_cases short : table.length < (index + 1) * base.components
    · rw [if_pos short, if_pos short]
      exact Safe.refuse rfl
    · have cut : (table.take ((index + 1) * base.components)).drop (index * base.components) =
          (table.drop (index * base.components)).take base.components := by
        rw [List.drop_take, next, Nat.add_sub_cancel_left]
      have size := List.length_take_le base.components (table.drop (index * base.components))
      rw [if_neg short, if_neg short, slice_ok (by omega) (by omega), ok_bind, cut]
      exact Safe.reserve (by omega) (colorToRgb_safe base held _)
  | .icc _ (some alternate) _, held, values => by
    rw [ColorSpace.fits] at held
    rw [colorToRgb, ColorSpace.toRgb]
    exact colorToRgb_safe alternate held values
  | .icc components none _, _, values => by
    rw [colorToRgb, ColorSpace.toRgb]
    split
    · exact fromUnit_safe (ColorSpace.grayToRgb values)
    · split
      · exact fromUnit_safe (ColorSpace.rgbToRgb values)
      · split
        · exact fromUnit_safe (ColorSpace.cmykToRgb values)
        · exact Safe.refuse rfl
  | .separation .., _, values => fromUnit_safe (ColorSpace.tintToRgb 1 values)
  | .deviceN colorants _ _, _, values => fromUnit_safe (ColorSpace.tintToRgb colorants.length values)
  | .pattern _, _, _ => Safe.refuse rfl
  termination_by structural space => space

theorem toRgb_safe (samples : List Nat) {layout : SampleLayout} {space : ColorSpace}
    (ranges : List (Single × Single)) (held : space.fits = true)
    (shape : layout.components = max space.components 1) (shallow : layout.bits ≤ 16)
    (room : 4 * (layout.width * layout.height) < SampleLayout.bufferSize) :
    Safe (toRgb samples layout space ranges) (Samples.toRgb samples layout space ranges) := by
  unfold toRgb Samples.toRgb
  refine Safe.checked rfl fun _ => ?_
  have narrow := space.components_lt held
  have memory : memorySize = 1 <<< 60 := rfl
  have half : SampleLayout.bufferSize = 1 <<< 63 := rfl
  have some : layout.components ≠ 0 := by omega
  dsimp only
  rw [ones_ok (by omega), ok_bind, mul_ok (by omega), ok_bind, mul_ok (by omega), ok_bind, if_neg some]
  refine Safe.reserve (by omega) (Safe.reserve (by omega) ?_)
  rw [chunksExact_ok some, ok_bind]
  refine Safe.bind (.mapM fun pixel _ => ?_) fun pixels _ => .ok _
  exact colorToRgb_safe space held _

end Machine

end PdfCanvas
