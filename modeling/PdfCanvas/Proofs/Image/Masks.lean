import PdfCanvas.Proofs.Image.Pixels

/-!
# Masks

What becomes of the masks of an image when it is decoded. The colours are those of the image without its
masks; the opacity is given by the soft mask, or without one by the explicit mask, or without either by
the colour key.
-/

namespace PdfCanvas

namespace Picture

/-- The colours without the opacity. -/
def colors : Picture → Raster Rgb
  | .rgb raster => raster
  | .rgba raster => raster.map Rgba.color

/-- The opacity, if the picture has one. -/
def alpha? : Picture → Option (Raster UInt8)
  | .rgb _ => none
  | .rgba raster => some (raster.map Rgba.alpha)

def alphaAt? (picture : Picture) (x y : Nat) : Option UInt8 :=
  picture.alpha?.bind fun alpha => alpha.pixel? x y

end Picture

/-! ## One mask -/

namespace Mask

section

variable {α : Type} {opacity : α → UInt8} {colors : List Rgb} {values : List α}

theorem map_color_zipWith (same : values.length = colors.length) :
    (colors.zipWith (fun color value => (⟨color, opacity value⟩ : Rgba)) values).map Rgba.color =
      colors := by
  apply List.ext_getElem
  · rw [List.length_map, List.length_zipWith, same, Nat.min_self]
  · intro index _ _
    rw [List.getElem_map, List.getElem_zipWith]

theorem map_alpha_zipWith (same : values.length = colors.length) :
    (colors.zipWith (fun color value => (⟨color, opacity value⟩ : Rgba)) values).map Rgba.alpha =
      values.map opacity := by
  apply List.ext_getElem
  · rw [List.length_map, List.length_zipWith, same, Nat.min_self, List.length_map, same]
  · intro index _ _
    rw [List.getElem_map, List.getElem_zipWith, List.getElem_map]

end

section

variable {image : Raster Rgb} {mask : Raster UInt8}

theorem length_resize (full : image.IsFull) (fullMask : mask.IsFull) :
    (Resample.resize mask image.width image.height).pixels.length = image.pixels.length := by
  rw [Resample.isFull_resize fullMask, Resample.width_resize, Resample.height_resize, full]

theorem colors_apply (full : image.IsFull) (fullMask : mask.IsFull) (isSoft : Bool) :
    (apply image mask isSoft).map Rgba.color = image := by
  rw [apply, Raster.map, map_color_zipWith (length_resize full fullMask)]

/-- The opacity is that of the mask in the size of the image. -/
theorem alpha_apply (full : image.IsFull) (fullMask : mask.IsFull) (isSoft : Bool) :
    (apply image mask isSoft).map Rgba.alpha =
      (Resample.resize mask image.width image.height).map (opacity isSoft) := by
  rw [apply, Raster.map, map_alpha_zipWith (length_resize full fullMask), Raster.map,
    Resample.width_resize, Resample.height_resize]

end

theorem map_opacity_soft (values : Raster UInt8) : values.map (opacity true) = values := by
  have kept : opacity true = id := rfl
  rw [Raster.map, kept, List.map_id]

section

variable {image : Raster Rgb} {samples : List Nat} {components : Nat}

/-- Where there are samples for all pixels, a colour key looks at all of them. -/
theorem applyColorKey_eq (many : (wholePieces components samples).length = image.pixels.length)
    (ranges : List (Nat × Nat)) : applyColorKey image samples components ranges =
      ⟨image.width, image.height, image.pixels.zipWith
        (fun color isKeyed => (⟨color, if isKeyed then 0 else 255⟩ : Rgba))
        ((wholePieces components samples).map (isKeyed ranges))⟩ := by
  rw [applyColorKey, List.length_zipWith, List.length_map, many, Nat.min_self, Nat.sub_self,
    List.replicate_zero, List.append_nil]

theorem colors_applyColorKey (many : (wholePieces components samples).length = image.pixels.length)
    (ranges : List (Nat × Nat)) :
    (applyColorKey image samples components ranges).map Rgba.color = image := by
  rw [applyColorKey_eq many, Raster.map, map_color_zipWith (by rw [List.length_map, many])]

theorem alpha_applyColorKey (many : (wholePieces components samples).length = image.pixels.length)
    (ranges : List (Nat × Nat)) :
    (applyColorKey image samples components ranges).map Rgba.alpha =
      ⟨image.width, image.height, (wholePieces components samples).map fun pixel =>
        if isKeyed ranges pixel then 0 else 255⟩ := by
  rw [applyColorKey_eq many, Raster.map, map_alpha_zipWith (by rw [List.length_map, many]), List.map_map]
  rfl

end

end Mask

namespace Image

/-! ## Plain masks -/

/-- An image whose bytes are its gray values, one for each pixel. -/
structure IsPlainGray (image : Image) : Prop where
  unfiltered : image.filterNames = []
  depth : image.bits = 8
  space : image.colorSpace = .ok .gray
  undecoded : image.decodeArray = none

/-- A stencil whose bits are its values, in rows that start on a byte. -/
structure IsPlainStencil (image : Image) : Prop where
  unfiltered : image.filterNames = []
  isStencil : image.isStencil = true
  depth : image.bits = 1
  spaceless : image.stream.getAny? ["ColorSpace", "CS"] = none
  undecoded : image.decodeArray = none

/-- The bit of a stencil at a column and row, the first bit of a byte the most significant; a byte that is
missing is zero. -/
def bitAt (image : Image) (x y : Nat) : Bool :=
  (image.stream.data[bytesOfBits image.width * y + x / 8]?.getD 0).toNat.testBit (7 - x % 8)

theorem header_of_ofHeader {s : Stream} {image : Image} (read : ofHeader s = .ok image) :
    image.stream = s ∧ image.limits = .standard ∧ image.softMask = none ∧ image.mask = none := by
  obtain ⟨width, _, read⟩ := bind_eq_ok.mp read
  obtain ⟨height, _, read⟩ := bind_eq_ok.mp read
  obtain rfl := Except.ok.inj read
  exact ⟨rfl, rfl, rfl, rfl⟩

/-- Only the masks are added to the header. -/
theorem exists_header_of_ofParts {s : Stream} {softSource source : Except Error MaskSource} {image : Image}
    (made : ofParts s softSource source = .ok image) :
    ∃ header, ofHeader s = .ok header ∧ image =
      { header with softMask := image.softMask, mask := image.mask, colorKey := image.colorKey } := by
  obtain ⟨header, read, made⟩ := bind_eq_ok.mp made
  obtain ⟨softMask, _, made⟩ := bind_eq_ok.mp made
  obtain ⟨mask, _, made⟩ := bind_eq_ok.mp made
  refine ⟨header, read, ?_⟩
  cases header
  cases softMask <;> cases mask <;> cases made <;> rfl

variable {image : Image}

theorem isJpeg_of_unfiltered (unfiltered : image.filterNames = []) : image.isJpeg = false := by
  rw [isJpeg, unfiltered]
  rfl

/-- The samples of an unfiltered image come from its own data. -/
theorem of_pixels_of_unfiltered (unfiltered : image.filterNames = []) {space : ColorSpace}
    (known : image.colorSpace = .ok space) {colors : Raster Rgb} (drawn : image.pixels = .ok colors) :
    ∃ samples, Samples.unpack image.stream.data (image.layout space) image.limits = .ok samples ∧
      Samples.toRgb samples (image.layout space) space (image.decodeRanges space) = .ok colors := by
  have sampled := isJpeg_of_unfiltered unfiltered
  obtain ⟨samples, layout, made⟩ := (pixels_of_sampled sampled).mp drawn
  obtain ⟨found, data, isSpace, rfl, filtered, unpacked, painted⟩ := of_samplePixels made
  obtain rfl := Except.ok.inj (known.symm.trans isSpace)
  rw [filteredData, unfiltered, decodeStream, decodeFilters] at filtered
  obtain rfl := Except.ok.inj filtered
  exact ⟨samples, unpacked, painted⟩

theorem pixels_of_unfiltered (unfiltered : image.filterNames = []) {space : ColorSpace}
    (known : image.colorSpace = .ok space) {size : Nat} {samples : List Nat}
    (fits : (image.layout space).checkSize image.limits = .ok size)
    (unpacked : Samples.unpack image.stream.data (image.layout space) image.limits = .ok samples) :
    image.pixels = Samples.toRgb samples (image.layout space) space (image.decodeRanges space) := by
  have filtered : image.filteredData image.filterNames = .ok image.stream.data := by
    rw [filteredData, unfiltered]
    rfl
  have sampled : image.rawSamples = .ok (samples, image.layout space) := by
    rw [rawSamples, known]
    exact bind_eq_ok.mpr ⟨space, rfl, bind_eq_ok.mpr ⟨size, fits, bind_eq_ok.mpr ⟨_, filtered,
      bind_eq_ok.mpr ⟨samples, unpacked, rfl⟩⟩⟩⟩
  rw [rawSamples] at sampled
  rw [pixels, pixelsIn, isJpeg_of_unfiltered unfiltered, if_neg Bool.false_ne_true, samplePixelsIn,
    sampled, known]
  show ((Samples.toRgb samples _ space _ >>= _) >>= _) = _
  cases Samples.toRgb samples (image.layout space) space (image.decodeRanges space) <;> rfl

theorem maskValues_eq_ok {values : Raster UInt8} :
    image.maskValues = .ok values ↔ ∃ colors, image.pixels = .ok colors ∧ values = colors.map Rgb.luma := by
  rw [maskValues, maskValuesIn, ← pixels, bind_eq_ok]
  simp only [pure, Except.pure, Except.ok.injEq, eq_comm]

theorem isFull_maskValues {values : Raster UInt8} (made : image.maskValues = .ok values) :
    values.IsFull := by
  obtain ⟨colors, drawn, rfl⟩ := maskValues_eq_ok.mp made
  exact (isFull_pixels drawn).map _

/-- The gray values of an unfiltered image in the gray space come from its own data. -/
theorem of_maskValues (unfiltered : image.filterNames = []) (space : image.colorSpace = .ok .gray)
    (undecoded : image.decodeArray = none) {values : Raster UInt8}
    (made : image.maskValues = .ok values) :
    ∃ samples, Samples.unpack image.stream.data (image.layout .gray) image.limits = .ok samples ∧
      ∀ x y, x < image.width → values.pixel? x y = samples[image.width * y + x]?.map fun sample =>
        ColorSpace.channel (ColorSpace.component
          [Samples.mapToRange (image.layout .gray).maxSample sample (Floating.zero, Floating.one)] 0) := by
  obtain ⟨colors, drawn, rfl⟩ := maskValues_eq_ok.mp made
  obtain ⟨samples, unpacked, painted⟩ := of_pixels_of_unfiltered unfiltered space drawn
  have ranges : image.decodeRanges .gray = [(Floating.zero, Floating.one)] := by
    rw [decodeRanges, undecoded]
    rfl
  rw [ranges] at painted
  obtain ⟨_, width, _, _⟩ := Samples.of_toRgb painted
  have sameWidth : colors.width = image.width := width
  refine ⟨samples, unpacked, ?_⟩
  intro x y inside
  rw [Raster.pixel?_map, Raster.pixel?, sameWidth, if_pos inside, Samples.pixels_of_gray rfl painted,
    List.getElem?_map, Option.map_map]
  congr 1
  funext sample
  exact Rgb.luma_ofGray _

theorem layout_gray_row (image : Image) :
    (image.layout .gray).width * (image.layout .gray).components = image.width :=
  Nat.mul_one _

theorem IsPlainGray.value (plain : image.IsPlainGray) {values : Raster UInt8}
    (made : image.maskValues = .ok values) {x y : Nat} (inside : x < image.width)
    (below : y < image.height) :
    values.pixel? x y = some (image.stream.data[image.width * y + x]?.getD 0) := by
  obtain ⟨samples, unpacked, value⟩ :=
    of_maskValues plain.unfiltered plain.space plain.undecoded made
  have greatest : (image.layout .gray).maxSample = 255 := by
    rw [SampleLayout.maxSample, layout, plain.depth]
    rfl
  have inRow : x < (image.layout .gray).width * (image.layout .gray).components := by
    rwa [layout_gray_row]
  have sample := Samples.getElem?_unpack_bytes unpacked plain.depth inRow below
  rw [layout_gray_row] at sample
  generalize image.stream.data[image.width * y + x]?.getD 0 = byte at sample ⊢
  rw [value x y inside, sample, Option.map_some, greatest,
    ColorSpace.channel_of_byte ⟨byte.toNat, byte.toNat_lt⟩]
  exact congrArg some UInt8.ofNat_toNat

theorem IsPlainStencil.value (plain : image.IsPlainStencil) {values : Raster UInt8}
    (made : image.maskValues = .ok values) {x y : Nat} (inside : x < image.width)
    (below : y < image.height) :
    values.pixel? x y = some (if image.bitAt x y then 255 else 0) := by
  have space : image.colorSpace = .ok .gray := by
    rw [colorSpace, plain.spaceless, if_pos plain.isStencil]
  obtain ⟨samples, unpacked, value⟩ := of_maskValues plain.unfiltered space plain.undecoded made
  have greatest : (image.layout .gray).maxSample = 1 := by
    rw [SampleLayout.maxSample, layout, plain.depth]
    rfl
  have inRow : x < (image.layout .gray).width * (image.layout .gray).components := by
    rwa [layout_gray_row]
  have sample := Samples.getElem?_unpack_bits unpacked plain.depth inRow below
  rw [layout_gray_row, Nat.shiftRight_eq_div_pow, ← Nat.toNat_testBit] at sample
  change samples[image.width * y + x]? = some (image.bitAt x y).toNat at sample
  rw [value x y inside, sample, Option.map_some, greatest,
    ColorSpace.channel_of_bit ⟨(image.bitAt x y).toNat, Bool.toNat_lt _⟩]
  cases image.bitAt x y <;> rfl

/-! ## The mask that counts -/

/-- The mask that gives the opacity, and whether it is a soft one. -/
def opacityMask? (image : Image) : Option (Image × Bool) :=
  match image.softMask, image.mask with
  | some softMask, _ => some (softMask, true)
  | none, some mask => some (mask, false)
  | none, none => none

section

variable {picture : Picture} {mask : Image} {isSoft : Bool}

theorem decode_eq : image.decode =
    match image.softMask, image.mask, image.colorKey with
    | some softMask, _, _ => do
      return .rgba (Mask.apply (← image.pixels) (← softMask.maskValues) true)
    | none, some mask, _ => do
      return .rgba (Mask.apply (← image.pixels) (← mask.maskValues) false)
    | none, none, some ranges => image.keyedPicture ranges
    | none, none, none => do return .rgb (← image.pixels) :=
  rfl

theorem decode_of_mask (given : image.opacityMask? = some (mask, isSoft)) :
    image.decode = .ok picture ↔ ∃ colors values, image.pixels = .ok colors ∧
      mask.maskValues = .ok values ∧ picture = .rgba (Mask.apply colors values isSoft) := by
  have steps : image.decode = do
      return .rgba (Mask.apply (← image.pixels) (← mask.maskValues) isSoft) := by
    unfold opacityMask? at given
    rw [decode_eq]
    split at given <;> cases given <;> simp [*]
  rw [steps]
  constructor
  · intro decoded
    obtain ⟨colors, drawn, decoded⟩ := bind_eq_ok.mp decoded
    obtain ⟨values, masked, whole⟩ := bind_eq_ok.mp decoded
    exact ⟨colors, values, drawn, masked, (Except.ok.inj whole).symm⟩
  · rintro ⟨colors, values, drawn, masked, rfl⟩
    exact bind_eq_ok.mpr ⟨colors, drawn, bind_eq_ok.mpr ⟨values, masked, rfl⟩⟩

theorem of_decode_colorKey (sampled : image.isJpeg = false) (unmasked : image.opacityMask? = none)
    {ranges : List (Nat × Nat)} (given : image.colorKey = some ranges)
    (decoded : image.decode = .ok picture) :
    ∃ samples layout colors, image.samplePixels = .ok (samples, layout, colors) ∧
      picture = .rgba (Mask.applyColorKey colors samples layout.components ranges) := by
  have steps : image.decode = image.keyedPicture ranges := by
    unfold opacityMask? at unmasked
    rw [decode_eq]
    split at unmasked <;> simp_all
  rw [steps, keyedPicture, keyedPictureIn, sampled, if_neg Bool.false_ne_true] at decoded
  obtain ⟨⟨samples, layout, colors⟩, drawn, whole⟩ := bind_eq_ok.mp decoded
  exact ⟨samples, layout, colors, drawn, (Except.ok.inj whole).symm⟩

theorem of_decode_unmasked (unmasked : image.opacityMask? = none) (keyless : image.colorKey = none)
    (decoded : image.decode = .ok picture) :
    ∃ colors, image.pixels = .ok colors ∧ picture = .rgb colors := by
  have steps : image.decode = do return .rgb (← image.pixels) := by
    unfold opacityMask? at unmasked
    rw [decode_eq]
    split at unmasked <;> simp_all
  rw [steps] at decoded
  obtain ⟨colors, drawn, whole⟩ := bind_eq_ok.mp decoded
  exact ⟨colors, drawn, (Except.ok.inj whole).symm⟩

/-- The colours of a masked image are kept, and its opacity is that of the mask in the image's size. -/
theorem of_decode_mask (sampled : image.isJpeg = false)
    (given : image.opacityMask? = some (mask, isSoft)) (decoded : image.decode = .ok picture) :
    ∃ values, image.pixels = .ok picture.colors ∧ mask.maskValues = .ok values ∧
      picture.alpha? =
        some ((Resample.resize values image.width image.height).map (Mask.opacity isSoft)) := by
  obtain ⟨colors, values, drawn, masked, rfl⟩ := (decode_of_mask given).mp decoded
  obtain ⟨full, width, height⟩ := size_of_pixels sampled drawn
  have fullMask := isFull_maskValues masked
  refine ⟨values, ?_, masked, ?_⟩
  · rw [Picture.colors, Mask.colors_apply full fullMask, drawn]
  · rw [Picture.alpha?, Mask.alpha_apply full fullMask, width, height]

theorem pixels_of_decode (sampled : image.isJpeg = false) (decoded : image.decode = .ok picture) :
    image.pixels = .ok picture.colors := by
  cases given : image.opacityMask? with
  | some mask =>
    obtain ⟨_, kept, _⟩ := of_decode_mask sampled given decoded
    exact kept
  | none =>
    cases keyed : image.colorKey with
    | some ranges =>
      obtain ⟨samples, layout, colors, made, rfl⟩ := of_decode_colorKey sampled given keyed decoded
      have drawn := (pixels_of_sampled sampled).mpr ⟨samples, layout, made⟩
      obtain ⟨space, data, _, _, _, _, painted⟩ := of_samplePixels made
      rw [Picture.colors, Mask.colors_applyColorKey (Samples.length_pixels_of_toRgb painted), drawn]
    | none =>
      obtain ⟨colors, drawn, rfl⟩ := of_decode_unmasked given keyed decoded
      exact drawn

theorem alpha?_eq_none (sampled : image.isJpeg = false) (decoded : image.decode = .ok picture) :
    picture.alpha? = none ↔ image.opacityMask? = none ∧ image.colorKey = none := by
  cases given : image.opacityMask? with
  | some mask =>
    obtain ⟨_, _, _, alpha⟩ := of_decode_mask sampled given decoded
    simp [alpha]
  | none =>
    cases keyed : image.colorKey with
    | some ranges =>
      obtain ⟨_, _, _, _, rfl⟩ := of_decode_colorKey sampled given keyed decoded
      simp [Picture.alpha?]
    | none =>
      obtain ⟨_, _, rfl⟩ := of_decode_unmasked given keyed decoded
      simp [Picture.alpha?]

/-- What does not count for the opacity does not count for the picture. -/
theorem decode_eq_of_mask (given : image.opacityMask? = some (mask, isSoft))
    (decoded : image.decode = .ok picture) {other : Image}
    (givenOther : other.opacityMask? = some (mask, isSoft)) (same : other.pixels = image.pixels) :
    other.decode = .ok picture := by
  rw [decode_of_mask givenOther, same, ← decode_of_mask given]
  exact decoded

theorem alphaAt?_of_mask (sampled : image.isJpeg = false)
    (given : image.opacityMask? = some (mask, isSoft)) (sampledMask : mask.isJpeg = false)
    (width : mask.width = image.width) (height : mask.height = image.height)
    (decoded : image.decode = .ok picture) :
    ∃ values, mask.maskValues = .ok values ∧
      ∀ x y, picture.alphaAt? x y = (values.pixel? x y).map (Mask.opacity isSoft) := by
  obtain ⟨values, _, masked, alpha⟩ := of_decode_mask sampled given decoded
  obtain ⟨colors, drawn, rfl⟩ := maskValues_eq_ok.mp masked
  obtain ⟨_, widthColors, heightColors⟩ := size_of_pixels sampledMask drawn
  refine ⟨_, masked, ?_⟩
  intro x y
  have sameWidth : (colors.map Rgb.luma).width = image.width := widthColors.trans width
  have sameHeight : (colors.map Rgb.luma).height = image.height := heightColors.trans height
  rw [Picture.alphaAt?, alpha, Option.bind_some, Raster.pixel?_map, ← sameWidth, ← sameHeight,
    Resample.resize_same]

end

/-! ## Decoded pictures -/

/-- A decoded picture is put together from the image and the mask that counts. -/
structure IsComposite (image : Image) (picture : Picture) : Prop where
  /-- The colours are those of the image without masks, one for each column and row. -/
  colors : ∃ colors, image.pixels = .ok colors ∧ colors.IsFull ∧ colors.width = image.width ∧
    colors.height = image.height ∧ picture.colors = colors
  unmasked : picture.alpha? = none ↔
    image.softMask = none ∧ image.mask = none ∧ image.colorKey = none
  /-- A soft mask gives the opacity whatever other masks there are. -/
  bySoftMask : ∀ softMask, image.softMask = some softMask →
    (∃ values, softMask.maskValues = .ok values ∧
      picture.alpha? = some (Resample.resize values image.width image.height)) ∧
    ∀ mask colorKey, { image with mask, colorKey }.decode = .ok picture
  /-- Without a soft mask an explicit mask gives it whatever colour key there is. -/
  byMask : image.softMask = none → ∀ mask, image.mask = some mask →
    (∃ values, mask.maskValues = .ok values ∧
      picture.alpha? = some ((Resample.resize values image.width image.height).map (255 - ·))) ∧
    ∀ colorKey, { image with colorKey }.decode = .ok picture
  grayMask : ∀ softMask, image.softMask = some softMask → softMask.IsPlainGray →
    softMask.width = image.width → softMask.height = image.height →
    ∀ x y, x < image.width → y < image.height →
      picture.alphaAt? x y = some (softMask.stream.data[image.width * y + x]?.getD 0)
  stencilMask : image.softMask = none → ∀ mask, image.mask = some mask → mask.IsPlainStencil →
    mask.width = image.width → mask.height = image.height →
    ∀ x y, x < image.width → y < image.height →
      picture.alphaAt? x y = some (if mask.bitAt x y then 0 else 255)

/-- Decoding puts the picture together from samples and masks, whatever the masks are. -/
theorem masks_composite (sampled : image.isJpeg = false) {picture : Picture}
    (decoded : image.decode = .ok picture) : image.IsComposite picture where
  colors := by
    have drawn := pixels_of_decode sampled decoded
    obtain ⟨full, width, height⟩ := size_of_pixels sampled drawn
    exact ⟨_, drawn, full, width, height, rfl⟩
  unmasked := by
    rw [alpha?_eq_none sampled decoded]
    cases soft : image.softMask <;> cases mask : image.mask <;> simp [opacityMask?, soft, mask]
  bySoftMask := by
    intro softMask soft
    have given (mask : Option Image) (colorKey : Option (List (Nat × Nat))) :
        { image with mask, colorKey }.opacityMask? = some (softMask, true) := by
      rw [opacityMask?, soft]
    have counts : image.opacityMask? = some (softMask, true) := given image.mask image.colorKey
    constructor
    · obtain ⟨values, _, masked, alpha⟩ := of_decode_mask sampled counts decoded
      exact ⟨values, masked, alpha.trans (congrArg some (Mask.map_opacity_soft _))⟩
    · intro mask colorKey
      exact decode_eq_of_mask counts decoded (given mask colorKey) rfl
  byMask := by
    intro noSoft mask explicit
    have given (colorKey : Option (List (Nat × Nat))) :
        { image with colorKey }.opacityMask? = some (mask, false) := by
      rw [opacityMask?, noSoft, explicit]
    have counts : image.opacityMask? = some (mask, false) := given image.colorKey
    constructor
    · obtain ⟨values, _, masked, alpha⟩ := of_decode_mask sampled counts decoded
      exact ⟨values, masked, alpha⟩
    · intro colorKey
      exact decode_eq_of_mask counts decoded (given colorKey) rfl
  grayMask := by
    intro softMask soft plain width height x y inside below
    have counts : image.opacityMask? = some (softMask, true) := by rw [opacityMask?, soft]
    obtain ⟨values, masked, alpha⟩ := alphaAt?_of_mask sampled counts
      (isJpeg_of_unfiltered plain.unfiltered) width height decoded
    rw [alpha, plain.value masked (width ▸ inside) (height ▸ below), width]
    rfl
  stencilMask := by
    intro noSoft mask explicit plain width height x y inside below
    have counts : image.opacityMask? = some (mask, false) := by rw [opacityMask?, noSoft, explicit]
    obtain ⟨values, masked, alpha⟩ := alphaAt?_of_mask sampled counts
      (isJpeg_of_unfiltered plain.unfiltered) width height decoded
    rw [alpha, plain.value masked (width ▸ inside) (height ▸ below)]
    cases mask.bitAt x y <;> rfl

/-- The stream of two gray pixels, with a stencil for the second one. -/
def stencilledStream : Stream where
  entries := [("Width", .integer 2), ("Height", .integer 1), ("ColorSpace", .name "DeviceGray"),
    ("Mask", .stream [("Width", .integer 2), ("Height", .integer 1), ("ImageMask", .boolean true)]
      [0x40])]
  data := [7, 200]

theorem stencil_leaves_out_its_pixel : ∃ image, ofStream stencilledStream = .ok image ∧
    image.IsComposite (.rgba ⟨2, 1, [⟨Rgb.ofGray 7, 255⟩, ⟨Rgb.ofGray 200, 0⟩]⟩) := by
  obtain ⟨image, read⟩ : ∃ image, ofStream stencilledStream = .ok image := ⟨_, rfl⟩
  have sampled : image.isJpeg = false := by
    cases read
    decide +kernel
  have decoded : image.decode.toOption =
      some (.rgba ⟨2, 1, [⟨Rgb.ofGray 7, 255⟩, ⟨Rgb.ofGray 200, 0⟩]⟩) := by
    cases read
    decide +kernel
  exact ⟨image, read, masks_composite sampled (eq_ok_of_toOption decoded)⟩

end Image

end PdfCanvas
