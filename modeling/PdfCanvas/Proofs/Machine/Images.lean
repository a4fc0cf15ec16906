import PdfCanvas.Proofs.Image.Masks
import PdfCanvas.Proofs.Machine.ColorSpaces
import PdfCanvas.Proofs.Machine.Filters
import PdfCanvas.Proofs.Machine.Samples

/-!
# Images on a machine

An image is read from its stream and decoded in single steps. Width, height, depth, colour space, decode
array, filters, data and masks come from the stream and need not fit together. Reading and decoding give
what they are said to give, or memory runs out, and no step is without a result.
-/

namespace PdfCanvas.Machine

/-! ## Reading an image -/

/-- A size that is present and fits 32 bits, under one of several keys. -/
def dimension (s : Stream) (keys : List String) : Run Nat :=
  match (s.getAny? keys).bind Object.integer? with
  | none => do refuse (.format (.noDimension (← get keys 0)))
  | some value =>
    if 0 < value ∧ value < 0x100000000 then .ok value.toNat
    else do refuse (.format (.badDimension (← get keys 0) value))

def colorKeyRanges (items : List Object) : Run (List (Nat × Nat)) := do
  let bounds ← lift (items.mapM Image.colorKeyBound)
  if (← modulo bounds.length 2) = 0 then (← chunksExact 2 bounds).mapM pairOf
  else refuse (.format (.colorKeyCount bounds.length))

def depth (s : Stream) : Run Nat :=
  if Image.flag s "ImageMask" "IM" then .ok 1
  else UInt8.toNat <$> clampByte 1 16
    (((s.getAny? ["BitsPerComponent", "BPC"]).bind Object.integer?).getD 8)

def readHeader (s : Stream) : Run Image := do
  let width ← dimension s ["Width", "W"]
  let height ← dimension s ["Height", "H"]
  let bits ← depth s
  return {
    stream := s
    target := none
    width
    height
    bits
    isStencil := Image.flag s "ImageMask" "IM"
    interpolate := Image.flag s "Interpolate" "I"
    decodeArray := ((s.getAny? ["Decode", "D"]).bind Object.array?).map fun items =>
      (items.filterMap Object.number?).map Floating.convert
    softMask := none
    mask := none
    colorKey := none
    limits := .standard }

/-- An image with the masks that its dictionary gives. -/
def readParts (s : Stream) (softMask mask : Run Image.MaskSource) : Run Image := do
  let image ← readHeader s
  let image :=
    match ← softMask with
    | .image softMask => { image with softMask := some softMask }
    | _ => image
  match ← mask with
  | .image mask => return { image with mask := some mask }
  | .colorKey ranges => return { image with colorKey := some ranges }
  | .absent => return image

mutual

def readMask (key : String) (allowsColorKey : Bool) : Object → Run Image.MaskSource
  | .stream entries data =>
    .image <$>
      readParts ⟨entries, data⟩ (readMaskEntries "SMask" false entries)
        (readMaskEntries "Mask" true entries)
  | .reference _ => .ok .absent
  | .null => .ok .absent
  | .array items =>
    if allowsColorKey then .colorKey <$> colorKeyRanges items
    else refuse (.format (.maskType key "Array"))
  | other => refuse (.format (.maskType key other.typeName))
  termination_by structural object => object

def readMaskEntries (key : String) (allowsColorKey : Bool) :
    List (String × Object) → Run Image.MaskSource
  | [] => .ok .absent
  | entry :: rest =>
    if entry.1 = key then readMaskEntry key allowsColorKey entry
    else readMaskEntries key allowsColorKey rest
  termination_by structural entries => entries

def readMaskEntry (key : String) (allowsColorKey : Bool) : String × Object → Run Image.MaskSource
  | (_, value) => readMask key allowsColorKey value
  termination_by structural entry => entry

end

def readImage (s : Stream) : Run Image :=
  readParts s (readMaskEntries "SMask" false s.entries) (readMaskEntries "Mask" true s.entries)

theorem dimension_safe (s : Stream) (key abbreviation : String) :
    Safe (dimension s [key, abbreviation]) (Image.dimension s key abbreviation) := by
  unfold dimension Image.dimension
  cases (s.getAny? [key, abbreviation]).bind Object.integer? with
  | none => exact .refuse rfl
  | some value =>
    dsimp only
    split
    · exact .ok value.toNat
    · exact .refuse rfl

theorem colorKeyRanges_safe (items : List Object) :
    Safe (colorKeyRanges items) (Image.colorKeyRanges items) := by
  have total : NeverAborts (items.mapM Image.colorKeyBound) := by
    refine NeverAborts.mapM fun object _ => ?_
    unfold Image.colorKeyBound
    grind [NeverAborts]
  refine Safe.bind (.lift total) fun bounds _ => ?_
  rw [modulo_ok (by decide), ok_bind]
  split
  · exact Safe.of_ok (pairs_ok bounds)
  · exact .refuse rfl

theorem readHeader_safe (s : Stream) : Safe (readHeader s) (Image.ofHeader s) := by
  refine (dimension_safe s "Width" "W").bind fun width _ => ?_
  refine (dimension_safe s "Height" "H").bind fun height _ => ?_
  have bits : Safe (depth s) (.ok (if Image.flag s "ImageMask" "IM" then 1 else (ColorSpace.clampByte 1 16
      (((s.getAny? ["BitsPerComponent", "BPC"]).bind Object.integer?).getD 8)).toNat)) := by
    unfold depth
    split
    · exact .ok 1
    · exact (clampByte_safe (by decide) _).map UInt8.toNat
  exact Safe.after bits (.ok _)

theorem readParts_safe (s : Stream) {softMaskRun maskRun : Run Image.MaskSource}
    {softMask mask : Except Error Image.MaskSource} (softMaskSafe : Safe softMaskRun softMask)
    (maskSafe : Safe maskRun mask) :
    Safe (readParts s softMaskRun maskRun) (Image.ofParts s softMask mask) := by
  refine (readHeader_safe s).bind fun image _ => ?_
  refine softMaskSafe.bind fun soft _ => ?_
  refine maskSafe.bind fun explicit _ => ?_
  cases explicit <;> exact .ok _

mutual

/-- Mask entries are read without a panic. By induction on the object, as a mask may have masks. -/
theorem readMask_safe (key : String) (allowsColorKey : Bool) : (object : Object) →
    Safe (readMask key allowsColorKey object) (Image.maskOfObject key allowsColorKey object)
  | .stream entries data =>
    (readParts_safe ⟨entries, data⟩ (readMaskEntries_safe "SMask" false entries)
      (readMaskEntries_safe "Mask" true entries)).map Image.MaskSource.image
  | .reference _ => .ok Image.MaskSource.absent
  | .null => .ok Image.MaskSource.absent
  | .array items => by
    rw [readMask, Image.maskOfObject]
    split
    · exact (colorKeyRanges_safe items).map Image.MaskSource.colorKey
    · exact .refuse rfl
  | .boolean _ => .refuse rfl
  | .integer _ => .refuse rfl
  | .real _ => .refuse rfl
  | .string _ => .refuse rfl
  | .name _ => .refuse rfl
  | .dictionary _ => .refuse rfl
  termination_by structural object => object

theorem readMaskEntries_safe (key : String) (allowsColorKey : Bool) : (entries : List (String × Object)) →
    Safe (readMaskEntries key allowsColorKey entries) (Image.maskOfEntries key allowsColorKey entries)
  | [] => .ok Image.MaskSource.absent
  | entry :: rest => by
    rw [readMaskEntries, Image.maskOfEntries]
    split
    · exact readMaskEntry_safe key allowsColorKey entry
    · exact readMaskEntries_safe key allowsColorKey rest
  termination_by structural entries => entries

theorem readMaskEntry_safe (key : String) (allowsColorKey : Bool) : (entry : String × Object) →
    Safe (readMaskEntry key allowsColorKey entry) (Image.maskOfEntry key allowsColorKey entry)
  | (_, value) => readMask_safe key allowsColorKey value
  termination_by structural entry => entry

end

theorem readImage_safe (s : Stream) : Safe (readImage s) (Image.ofStream s) :=
  readParts_safe s (readMaskEntries_safe "SMask" false s.entries)
    (readMaskEntries_safe "Mask" true s.entries)

/-! ## Decoding an image -/

/-- A colour space that was read is in memory. -/
def holdSpace (space : ColorSpace) : Run ColorSpace :=
  if space.fits then .ok space else .error .memory

def givenSpace (image : Image) : Run ColorSpace :=
  match image.stream.getAny? ["ColorSpace", "CS"] with
  | some object => readSpace object
  | none => if image.isStencil then .ok .gray else refuse (.format .undeterminedSpace)

def colorSpace (image : Image) : Run ColorSpace := do holdSpace (← givenSpace image)

/-- The data of the stream after the filters with the given names. -/
def filteredData (image : Image) (names : List String) : Run Bytes :=
  decodeStream image.stream.data names image.decodeParams? image.limits

def rawSamples (image : Image) : Run (List Nat × SampleLayout) := do
  let space ← colorSpace image
  let layout := image.layout space
  let _ ← lift (layout.checkSize image.limits)
  let data ← filteredData image image.filterNames
  let samples ← unpack data layout image.limits
  return (samples, layout)

def defaultRange (space : ColorSpace) (bits : Nat) : Run (Single × Single) :=
  match space with
  | .indexed .. => do return (Floating.zero, Floating.ofNat (← ones 32 (min bits 16)))
  | _ => .ok (Floating.zero, Floating.one)

def defaultRanges (image : Image) (space : ColorSpace) (components : Nat) :
    Run (List (Single × Single)) := do
  let range ← defaultRange space image.bits
  reserve components 8
  return List.replicate components range

def decodeRanges (image : Image) (space : ColorSpace) : Run (List (Single × Single)) :=
  let components := max space.components 1
  match image.decodeArray with
  | some bounds => do
    if bounds.length = (← mul 64 components 2) then (← chunksExact 2 bounds).mapM pairOf
    else defaultRanges image space components
  | none => defaultRanges image space components

def samplePixels (image : Image) : Run (List Nat × SampleLayout × Raster Rgb) := do
  let (samples, layout) ← rawSamples image
  let space ← colorSpace image
  let ranges ← decodeRanges image space
  let pixels ← toRgb samples layout space ranges
  return (samples, layout, pixels)

def jpegPixels (image : Image) : Run (Raster Rgb) := do
  let data ← filteredData image image.filterNames.dropLast
  return (← lift (Jpeg.decode data)).toRgb

/-- The pixels of an image, without regard to masks. -/
def pixels (image : Image) : Run (Raster Rgb) :=
  if image.isJpeg then jpegPixels image
  else do
    let (_, _, pixels) ← samplePixels image
    return pixels

theorem holdSpace_safe {α : Type} {space : ColorSpace} {next : ColorSpace → Run α} {x : Except Error α}
    (safe : space.fits = true → Safe (next space) x) : Safe (holdSpace space >>= next) x := by
  unfold holdSpace
  split
  next held => exact safe held
  next => exact .memory x

theorem givenSpace_safe (image : Image) : Safe (givenSpace image) image.colorSpace := by
  unfold givenSpace Image.colorSpace
  cases image.stream.getAny? ["ColorSpace", "CS"] with
  | some object => exact readSpace_safe object
  | none =>
    dsimp only
    split
    · exact .ok ColorSpace.gray
    · exact .refuse rfl

/-- What goes on with the colour space can rely on it that the space is in memory. -/
theorem colorSpace_bind_safe {α : Type} (image : Image) {next : ColorSpace → Run α}
    {x : ColorSpace → Except Error α}
    (safe : ∀ space, image.colorSpace = .ok space → space.fits = true → Safe (next space) (x space)) :
    Safe (colorSpace image >>= next) (image.colorSpace >>= x) := by
  rw [colorSpace, bind_assoc]
  exact (givenSpace_safe image).bind fun space known => holdSpace_safe (safe space known)

theorem colorSpace_safe (image : Image) : Safe (colorSpace image) image.colorSpace := by
  have safe : Safe (colorSpace image >>= pure) (image.colorSpace >>= pure) :=
    colorSpace_bind_safe image fun space _ _ => .ok space
  rwa [bind_pure, bind_pure] at safe

theorem filteredData_safe (image : Image) (names : List String) :
    Safe (filteredData image names) (image.filteredData names) := by
  refine decodeStream_safe ?_ image.stream.data names image.limits
  intro params given
  unfold Image.decodeParams? at given
  split at given
  · obtain ⟨object, _, rfl⟩ := Option.map_eq_some_iff.mp given
    exact DecodeParams.isPositive_ofObject object
  · obtain rfl := Option.some.inj given
    exact DecodeParams.isPositive_ofObject _
  · cases given

theorem rawSamples_safe (image : Image) : Safe (rawSamples image) image.rawSamples := by
  refine colorSpace_bind_safe image fun space _ _ => ?_
  refine Safe.bind (.lift ((image.layout space).neverAborts_checkSize image.limits)) fun _ _ => ?_
  refine (filteredData_safe image image.filterNames).bind fun data _ => ?_
  exact (unpack_safe data (image.layout space) image.limits).bind fun samples _ => .ok _

theorem defaultRanges_safe (image : Image) {space : ColorSpace} (held : space.fits = true) :
    Safe (defaultRanges image space (max space.components 1))
      (.ok (List.replicate (max space.components 1) (space.defaultRange image.bits))) := by
  have narrow := space.components_lt held
  have memory : memorySize = 1 <<< 60 := rfl
  have half : SampleLayout.bufferSize = 1 <<< 63 := rfl
  have range : Safe (defaultRange space image.bits) (.ok (space.defaultRange image.bits)) := by
    apply Safe.of_ok
    cases space with
    | indexed base limit table =>
      rw [defaultRange, ones_ok (by omega)]
      rfl
    | _ => rfl
  exact Safe.after range (Safe.reserve (by omega) (.ok _))

theorem decodeRanges_safe (image : Image) {space : ColorSpace} (held : space.fits = true) :
    Safe (decodeRanges image space) (.ok (image.decodeRanges space)) := by
  have narrow := space.components_lt held
  have memory : memorySize = 1 <<< 60 := rfl
  have default := defaultRanges_safe image held
  unfold decodeRanges Image.decodeRanges
  cases image.decodeArray with
  | none => exact default
  | some bounds =>
    dsimp only
    rw [mul_ok (by omega), ok_bind, Nat.mul_comm]
    split
    · exact Safe.of_ok (pairs_ok bounds)
    · exact default

theorem samplePixels_safe (image : Image) : Safe (samplePixels image) image.samplePixels := by
  refine (rawSamples_safe image).bind fun (samples, layout) sampled => ?_
  obtain ⟨space, known, sampled⟩ := bind_eq_ok.mp sampled
  obtain ⟨packed, fits, sampled⟩ := bind_eq_ok.mp sampled
  obtain ⟨data, _, sampled⟩ := bind_eq_ok.mp sampled
  obtain ⟨unpacked, unpacks, made⟩ := bind_eq_ok.mp sampled
  cases made
  -- the colour space is made a second time and is the one that the samples were laid out for
  refine colorSpace_bind_safe image fun same knownSame held => ?_
  obtain rfl := Except.ok.inj (known.symm.trans knownSame)
  obtain ⟨-, room⟩ := SampleLayout.room_of_checkSize fits
  rw [Samples.unpack] at unpacks
  obtain ⟨depth, -⟩ := unless_eq_ok.mp unpacks
  have known := Decidable.not_not.mp depth
  have shallow : (image.layout space).bits ≤ 16 := by
    simp only [List.mem_cons, List.not_mem_nil, or_false] at known
    omega
  refine Safe.after (decodeRanges_safe image held) ?_
  exact (toRgb_safe samples (image.decodeRanges space) held rfl shallow room).bind fun _ _ => .ok _

theorem pixels_safe (image : Image) : Safe (pixels image) image.pixels := by
  unfold pixels Image.pixels Image.pixelsIn
  split
  · refine (filteredData_safe image image.filterNames.dropLast).bind fun data _ => ?_
    exact (jpeg_safe data).bind fun _ _ => .ok _
  · exact (samplePixels_safe image).bind fun _ _ => .ok _

/-! ## Masks -/

/-- A picture that was made is in memory. -/
def holdPixels (colors : Raster Rgb) : Run Unit :=
  if memorySize ≤ 3 * (colors.width * colors.height) then .error .memory else .ok ()

/-- The pixel at a column and row, which must be there. -/
def pixelAt {α : Type} (r : Raster α) (x y : Nat) : Run α :=
  if x < r.width ∧ y < r.height then get r.pixels (r.width * y + x) else .error .panic

def fromPixels {α : Type} (width height : Nat) (pixel : Nat → Nat → Run α) : Run (Raster α) := do
  let rows ← (List.range height).mapM fun y => (List.range width).mapM fun x => pixel x y
  return ⟨width, height, rows.flatten⟩

/-- The opacity that a mask value stands for. -/
def opacity (isSoft : Bool) (value : UInt8) : Run UInt8 :=
  if isSoft then .ok value else do return (← sub 255 value.toNat).toUInt8

/-- Gives an image the opacity of a mask, which is brought to the size of the image. -/
def applyMask (image : Raster Rgb) (mask : Raster UInt8) (isSoft : Bool) : Run (Raster Rgba) := do
  holdPixels image
  reserve (← mul 64 image.width image.height) 4
  let values := Resample.resize mask image.width image.height
  fromPixels image.width image.height fun x y => do
    let color ← pixelAt image x y
    let value ← pixelAt values x y
    return ⟨color, ← opacity isSoft value⟩

/-- Makes the pixels of a colour key transparent and all others fully opaque. -/
def applyColorKey (image : Raster Rgb) (samples : List Nat) (components : Nat)
    (ranges : List (Nat × Nat)) : Run (Raster Rgba) := do
  holdPixels image
  reserve (← mul 64 image.width image.height) 4
  let keyed := (← chunksExact (max components 1) samples).map (Mask.isKeyed ranges)
  let painted := image.pixels.zipWith
    (fun color isKeyed => (⟨color, if isKeyed then 0 else 255⟩ : Rgba)) keyed
  return ⟨image.width, image.height,
    painted ++ List.replicate (image.pixels.length - painted.length) ⟨Rgb.ofGray 0, 0⟩⟩

def maskValues (image : Image) : Run (Raster UInt8) := do
  return (← pixels image).map Rgb.luma

/-- The pixels of an image with a colour key, which a JPEG picture does not have. -/
def keyedPicture (image : Image) (ranges : List (Nat × Nat)) : Run Picture := do
  if image.isJpeg then return .rgb (← pixels image)
  else
    let (samples, layout, pixels) ← samplePixels image
    return .rgba (← applyColorKey pixels samples layout.components ranges)

/-- The pixels of an image with the opacity that its masks give. -/
def decode (image : Image) : Run Picture :=
  match image.softMask, image.mask, image.colorKey with
  | some softMask, _, _ => do
    let colors ← pixels image
    return .rgba (← applyMask colors (← maskValues softMask) true)
  | none, some mask, _ => do
    let colors ← pixels image
    return .rgba (← applyMask colors (← maskValues mask) false)
  | none, none, some ranges => keyedPicture image ranges
  | none, none, none => do return .rgb (← pixels image)

theorem holdPixels_safe {α : Type} {colors : Raster Rgb} {next : Unit → Run α} {x : Except Error α}
    (safe : 3 * (colors.width * colors.height) < memorySize → Safe (next ()) x) :
    Safe (holdPixels colors >>= next) x := by
  unfold holdPixels
  split
  next => exact .memory x
  next held => exact safe (Nat.not_le.mp held)

/-- A list is made element by element if each element is made at its index. -/
theorem mapM_range_ok {α : Type} {f : Nat → Run α} {elements : List α}
    (each : ∀ index element, elements[index]? = some element → f index = .ok element) :
    (List.range elements.length).mapM f = .ok elements := by
  induction elements generalizing f with
  | nil => rfl
  | cons first rest inductionHypothesis =>
    have others := inductionHypothesis (f := f ∘ Nat.succ) fun index element there =>
      each (index + 1) element there
    rw [List.length_cons, List.range_succ_eq_map, List.mapM_cons, each 0 first rfl, ok_bind,
      List.mapM_map, others]
    rfl

/-- Elements are the rows of one width that they are cut into. -/
theorem flatten_rows {α : Type} {width height : Nat} {elements : List α}
    (size : elements.length = width * height) :
    ((List.range height).map fun y => (elements.drop (width * y)).take width).flatten = elements := by
  induction height generalizing elements with
  | zero => exact (List.eq_nil_of_length_eq_zero size).symm
  | succ height inductionHypothesis =>
    have rest : (elements.drop width).length = width * height := by
      rw [List.length_drop, size, Nat.mul_succ, Nat.add_sub_cancel]
    have below (y : Nat) : elements.drop (width * (y + 1)) = (elements.drop width).drop (width * y) := by
      rw [List.drop_drop, Nat.mul_succ, Nat.add_comm]
    rw [List.range_succ_eq_map, List.map_cons, List.map_map, List.flatten_cons, Nat.mul_zero, List.drop_zero]
    calc elements.take width ++
          ((List.range height).map fun y => (elements.drop (width * (y + 1))).take width).flatten
        = elements.take width ++ elements.drop width := by
          simp only [below]
          rw [inductionHypothesis rest]
      _ = elements := List.take_append_drop width elements

theorem fromPixels_ok {α : Type} {target : Raster α} (full : target.IsFull)
    {pixel : Nat → Nat → Run α}
    (each : ∀ x y color, x < target.width → y < target.height →
      target.pixels[target.width * y + x]? = some color → pixel x y = .ok color) :
    fromPixels target.width target.height pixel = .ok target := by
  obtain ⟨width, height, pixels⟩ := target
  dsimp only at each
  have size : pixels.length = width * height := full
  let row (y : Nat) : List α := (pixels.drop (width * y)).take width
  have whole (y : Nat) (below : y < height) : (row y).length = width := by
    have room := Nat.mul_le_mul_left width (Nat.succ_le_of_lt below)
    rw [Nat.mul_succ] at room
    rw [List.length_take, List.length_drop]
    omega
  have rows (y : Nat) (member : y ∈ List.range height) :
      ((List.range width).mapM fun x => pixel x y) = .ok (row y) := by
    have below := List.mem_range.mp member
    have made : ((List.range (row y).length).mapM fun x => pixel x y) = .ok (row y) := by
      refine mapM_range_ok fun x color found => ?_
      have inside : x < width := whole y below ▸ (List.getElem?_eq_some_iff.mp found).1
      rw [List.getElem?_take_of_lt inside, List.getElem?_drop] at found
      exact each x y color inside below found
    rwa [whole y below] at made
  dsimp only
  rw [fromPixels, mapM_ok rows, ok_bind, flatten_rows size]
  rfl

theorem pixelAt_ok {α : Type} {r : Raster α} {x y : Nat} {pixel : α} (inside : x < r.width)
    (below : y < r.height) (there : r.pixels[r.width * y + x]? = some pixel) :
    pixelAt r x y = .ok pixel := by
  rw [pixelAt, if_pos ⟨inside, below⟩, get_ok there]

theorem opacity_ok (isSoft : Bool) (value : UInt8) :
    opacity isSoft value = .ok (Mask.opacity isSoft value) := by
  have byteSize := value.toNat_lt
  unfold opacity Mask.opacity
  split
  · rfl
  · have same : (255 - value.toNat).toUInt8 = 255 - value := by
      have difference := UInt8.toNat_sub_of_le 255 value (UInt8.le_iff_toNat_le.mpr (by simp; omega))
      simp only [UInt8.reduceToNat] at difference
      rw [← difference]
      exact UInt8.ofNat_toNat
    rw [sub_ok (by omega), ok_bind, same]
    rfl

theorem applyMask_safe {image : Raster Rgb} {mask : Raster UInt8} (full : image.IsFull)
    (fullMask : mask.IsFull) (isSoft : Bool) :
    Safe (applyMask image mask isSoft) (.ok (Mask.apply image mask isSoft)) := by
  have memory : memorySize = 1 <<< 60 := rfl
  have half : SampleLayout.bufferSize = 1 <<< 63 := rfl
  refine holdPixels_safe fun held => ?_
  rw [mul_ok (by omega), ok_bind]
  refine Safe.reserve (by omega) (Safe.of_ok ?_)
  have size : (Mask.apply image mask isSoft).IsFull := by
    have same := Mask.length_resize full fullMask
    rw [Raster.IsFull, Mask.apply, List.length_zipWith, same, Nat.min_self]
    exact full
  -- a pixel of the product comes from one of each raster at its place, so that both are there
  refine fromPixels_ok size fun x y made inside below there => ?_
  obtain ⟨color, value, thereColor, thereValue, rfl⟩ := List.getElem?_zipWith_eq_some.mp there
  have drawn : pixelAt image x y = .ok color := pixelAt_ok inside below thereColor
  have found : pixelAt (Resample.resize mask image.width image.height) x y = .ok value :=
    pixelAt_ok (by rwa [Resample.width_resize]) (by rwa [Resample.height_resize])
      (by rwa [Resample.width_resize])
  rw [drawn, ok_bind, found, ok_bind, opacity_ok, ok_bind]
  rfl

theorem applyColorKey_safe (image : Raster Rgb) (samples : List Nat) (components : Nat)
    (ranges : List (Nat × Nat)) :
    Safe (applyColorKey image samples components ranges)
      (.ok (Mask.applyColorKey image samples components ranges)) := by
  have memory : memorySize = 1 <<< 60 := rfl
  have half : SampleLayout.bufferSize = 1 <<< 63 := rfl
  refine holdPixels_safe fun held => ?_
  rw [mul_ok (by omega), ok_bind]
  refine Safe.reserve (by omega) ?_
  rw [chunksExact_ok (by omega), ok_bind, wholePieces_max]
  exact .ok _

theorem maskValues_safe (image : Image) : Safe (maskValues image) image.maskValues :=
  (pixels_safe image).bind fun _ _ => .ok _

theorem keyedPicture_safe (image : Image) (ranges : List (Nat × Nat)) :
    Safe (keyedPicture image ranges) (image.keyedPicture ranges) := by
  unfold keyedPicture Image.keyedPicture Image.keyedPictureIn
  split
  · exact (pixels_safe image).bind fun _ _ => .ok _
  · refine (samplePixels_safe image).bind fun (samples, layout, colors) _ => ?_
    exact Safe.after (applyColorKey_safe colors samples layout.components ranges) (.ok _)

theorem masked_safe (image mask : Image) (isSoft : Bool) :
    Safe (do
        let colors ← pixels image
        return Picture.rgba (← applyMask colors (← maskValues mask) isSoft))
      (do return Picture.rgba (Mask.apply (← image.pixels) (← mask.maskValues) isSoft)) := by
  refine (pixels_safe image).bind fun colors made => ?_
  refine (maskValues_safe mask).bind fun values madeMask => ?_
  exact Safe.after (applyMask_safe (Image.isFull_pixels made) (Image.isFull_maskValues madeMask) isSoft)
    (.ok _)

theorem decode_safe (image : Image) : Safe (decode image) image.decode := by
  unfold decode Image.decode Image.decodeIn
  cases image.softMask with
  | some softMask => exact masked_safe image softMask true
  | none =>
    cases image.mask with
    | some mask => exact masked_safe image mask false
    | none =>
      cases image.colorKey with
      | some ranges => exact keyedPicture_safe image ranges
      | none => exact (pixels_safe image).bind fun _ _ => .ok _

/-- Whatever a stream holds, it is read as an image without a panic, and whatever limits the image is given
and whatever masks it has, its colour space, its pixels and its picture are made without one; the samples
are unpacked without one whatever they are said to be. Each run gives what it is said to give, or memory
runs out. -/
theorem images_are_decoded_without_panic :
    (∀ s : Stream, Safe (readImage s) (Image.ofStream s)) ∧
    (∀ (data : Bytes) (layout : SampleLayout) (limits : DecodeLimits),
      Safe (unpack data layout limits) (Samples.unpack data layout limits)) ∧
    ∀ (image : Image) (limits : DecodeLimits),
      Safe (colorSpace (image.withLimits limits)) (image.withLimits limits).colorSpace ∧
      Safe (pixels (image.withLimits limits)) (image.withLimits limits).pixels ∧
      Safe (decode (image.withLimits limits)) (image.withLimits limits).decode :=
  ⟨readImage_safe, unpack_safe, fun image limits =>
    ⟨colorSpace_safe (image.withLimits limits), pixels_safe (image.withLimits limits),
      decode_safe (image.withLimits limits)⟩⟩

def blackAndWhite : Stream where
  entries := [("Width", .integer 2), ("Height", .integer 1), ("ColorSpace", .name "DeviceGray")]
  data := [0x00, 0xFF]

example : (readImage blackAndWhite >>= decode).toOption =
    some (.rgb ⟨2, 1, [Rgb.ofGray 0x00, Rgb.ofGray 0xFF]⟩) := by
  decide +kernel

end PdfCanvas.Machine
