import PdfCanvas.Proofs.Filter.Limits
import PdfCanvas.Proofs.Image.Masks

/-!
# Limits of images and of their masks

Limits that are set on an image hold for its own stream. A mask is an image with limits of its own, which are
the standard ones for every mask that is read with the image, however deep, and no setting changes them. So an
image with narrow limits can be decoded with a mask that exceeds them, but none that exceeds the standard ones.
-/

namespace PdfCanvas.Image

/-! ## Masks at any depth -/

/-- A mask of an image, or a mask of one of its masks. -/
inductive Masks : Image → Image → Prop where
  | soft {mask image : Image} (given : image.softMask = some mask) : Masks mask image
  | explicit {mask image : Image} (given : image.mask = some mask) : Masks mask image
  | nested {inner mask image : Image} (inside : Masks inner mask) (outside : Masks mask image) :
      Masks inner image

/-- An image with the standard limits, all masks of which have them too. -/
inductive IsStandard : Image → Prop where
  | intro {image : Image} (limits : image.limits = .standard)
      (softMask : ∀ mask, image.softMask = some mask → IsStandard mask)
      (mask : ∀ mask, image.mask = some mask → IsStandard mask) : IsStandard image

theorem IsStandard.of_masks {mask image : Image} (part : mask.Masks image) (standard : image.IsStandard) :
    mask.IsStandard := by
  induction part with
  | soft given => cases standard with | intro _ softMask _ => exact softMask _ given
  | explicit given => cases standard with | intro _ _ mask => exact mask _ given
  | nested _ _ inside outside => exact inside (outside standard)

theorem isStandard_ofParts {s : Stream} {softSource source : Except Error MaskSource} {image : Image}
    (soft : ∀ mask, softSource = .ok (.image mask) → mask.IsStandard)
    (explicit : ∀ mask, source = .ok (.image mask) → mask.IsStandard)
    (made : ofParts s softSource source = .ok image) : image.IsStandard := by
  obtain ⟨header, read, made⟩ := bind_eq_ok.mp made
  obtain ⟨softMask, readSoft, made⟩ := bind_eq_ok.mp made
  obtain ⟨mask, readMask, made⟩ := bind_eq_ok.mp made
  obtain ⟨_, limits, noSoft, noMask⟩ := header_of_ofHeader read
  have kept : image.limits = .standard ∧
      (∀ found, image.softMask = some found → softMask = .image found) ∧
      ∀ found, image.mask = some found → mask = .image found := by
    cases softMask <;> cases mask <;> cases made <;> simp [limits, noSoft, noMask]
  obtain ⟨own, ofSoft, ofMask⟩ := kept
  refine .intro own (fun found given => ?_) (fun found given => ?_)
  · exact soft found (ofSoft found given ▸ readSoft)
  · exact explicit found (ofMask found given ▸ readMask)

mutual

theorem isStandard_ofObject : {object : Object} → {key : String} → {allows : Bool} → {mask : Image} →
    maskOfObject key allows object = .ok (.image mask) → mask.IsStandard
  | .stream entries data, key, allows, mask, read => by
    rw [maskOfObject] at read
    obtain ⟨_, made, whole⟩ := map_eq_ok.mp read
    cases whole
    exact isStandard_ofParts (fun _ => isStandard_ofEntries) (fun _ => isStandard_ofEntries) made
  | .array items, key, allows, mask, read => by
    rw [maskOfObject] at read
    split at read
    · obtain ⟨_, _, whole⟩ := map_eq_ok.mp read
      cases whole
    · cases read
  | .reference _, _, _, _, read | .null, _, _, _, read | .boolean _, _, _, _, read
  | .integer _, _, _, _, read | .real _, _, _, _, read | .string _, _, _, _, read
  | .name _, _, _, _, read | .dictionary _, _, _, _, read => by cases read
  termination_by structural object => object

theorem isStandard_ofEntries : {entries : List (String × Object)} → {key : String} → {allows : Bool} →
    {mask : Image} → maskOfEntries key allows entries = .ok (.image mask) → mask.IsStandard
  | [], _, _, _, read => by cases read
  | entry :: rest, key, allows, mask, read => by
    rw [maskOfEntries] at read
    split at read
    · exact isStandard_ofEntry read
    · exact isStandard_ofEntries read
  termination_by structural entries => entries

theorem isStandard_ofEntry : {entry : String × Object} → {key : String} → {allows : Bool} →
    {mask : Image} → maskOfEntry key allows entry = .ok (.image mask) → mask.IsStandard
  | (_, _), _, _, _, read => isStandard_ofObject read
  termination_by structural entry => entry

end

theorem isStandard_ofStream {s : Stream} {image : Image} (made : ofStream s = .ok image) :
    image.IsStandard :=
  isStandard_ofParts (fun _ => isStandard_ofEntries) (fun _ => isStandard_ofEntries) made

/-- Limits that are set on an image change neither its masks nor theirs. -/
theorem masks_withLimits {mask image : Image} {limits : DecodeLimits}
    (part : mask.Masks (image.withLimits limits)) : mask.Masks image := by
  generalize same : image.withLimits limits = limited at part
  induction part generalizing image with
  | soft given => subst same; exact .soft given
  | explicit given => subst same; exact .explicit given
  | nested inside _ _ outside => exact .nested inside (outside same)

/-! ## Sizes -/

/-- The packed samples of an image take up at most so many bytes, and so do the data that they come from
if those are filtered. -/
def StaysWithin (image : Image) (bound : Nat) : Prop :=
  ∃ space size data, image.colorSpace = .ok space ∧ (image.layout space).totalBytes = .ok size ∧
    image.filteredData image.filterNames = .ok data ∧ size ≤ bound ∧
    (image.filterNames ≠ [] → data.length ≤ bound)

theorem staysWithin_of_pixels {image : Image} (sampled : image.isJpeg = false)
    (limited : image.limits.size ≠ 0) {colors : Raster Rgb} (drawn : image.pixels = .ok colors) :
    image.StaysWithin image.limits.size := by
  obtain ⟨samples, layout, made⟩ := (pixels_of_sampled sampled).mp drawn
  obtain ⟨space, data, known, rfl, filtered, unpacked, _⟩ := of_samplePixels made
  obtain ⟨size, fits⟩ := Samples.checkSize_of_unpack unpacked
  obtain ⟨total, within⟩ := SampleLayout.checkSize_eq_ok fits
  refine ⟨space, size, data, known, total, filtered, within limited, fun some => ?_⟩
  exact (admits_of_decodeStream some filtered).1 limited

theorem masks_of_opacityMask? {image mask : Image} {isSoft : Bool}
    (given : image.opacityMask? = some (mask, isSoft)) : mask.Masks image := by
  unfold opacityMask? at given
  split at given
  · next soft =>
    cases given
    exact .soft soft
  · next explicit =>
    cases given
    exact .explicit explicit
  · cases given

/-- An image that was read and got limits stays within them when it is decoded. The mask that counts stays
within the standard ones, which every mask that was read with the image keeps. -/
theorem limits_stay_with_the_image {s : Stream} {image : Image} (made : ofStream s = .ok image)
    {limits : DecodeLimits} (limited : 0 < limits.size) (sampled : image.isJpeg = false)
    {picture : Picture} (decoded : (image.withLimits limits).decode = .ok picture) :
    (image.withLimits limits).StaysWithin limits.size ∧
      (∀ mask isSoft, (image.withLimits limits).opacityMask? = some (mask, isSoft) →
        mask.isJpeg = false → mask.StaysWithin DecodeLimits.standard.size) ∧
      ∀ mask : Image, mask.Masks (image.withLimits limits) → mask.limits = .standard := by
  have standard (mask : Image) (part : mask.Masks (image.withLimits limits)) :
      mask.limits = .standard := by
    cases IsStandard.of_masks (masks_withLimits part) (isStandard_ofStream made) with
    | intro own _ _ => exact own
  refine ⟨?_, fun mask isSoft given sampledMask => ?_, standard⟩
  · have drawn : (image.withLimits limits).pixels = .ok picture.colors :=
      pixels_of_decode sampled decoded
    exact staysWithin_of_pixels sampled (Nat.ne_of_gt limited) drawn
  · obtain ⟨_, values, _, masked, _⟩ := (decode_of_mask given).mp decoded
    obtain ⟨colors, drawn, _⟩ := maskValues_eq_ok.mp masked
    have own := standard mask (masks_of_opacityMask? given)
    have limited : mask.limits.size ≠ 0 := by
      rw [own]
      decide
    rw [← own]
    exact staysWithin_of_pixels sampledMask limited drawn

/-- The stream of two black and white pixels in one byte, with a soft mask of two bytes that has a stencil
of its own. -/
def narrowStream : Stream where
  entries := [("Width", .integer 2), ("Height", .integer 1), ("BitsPerComponent", .integer 1),
    ("ColorSpace", .name "DeviceGray"), ("Filter", .name "ASCIIHexDecode"),
    ("SMask", .stream [("Width", .integer 2), ("Height", .integer 1), ("ColorSpace", .name "DeviceGray"),
        ("Filter", .name "ASCIIHexDecode"),
        ("Mask", .stream [("Width", .integer 1), ("Height", .integer 1), ("ImageMask", .boolean true)] [0])]
      (utf8 "0102>"))]
  data := utf8 "80>"

theorem narrow_image_decodes : ∃ (image softMask : Image) (picture : Picture),
    ofStream narrowStream = .ok image ∧ image.isJpeg = false ∧ image.softMask = some softMask ∧
      softMask.isJpeg = false ∧ (image.withLimits ⟨100, 1⟩).decode = .ok picture := by
  obtain ⟨image, read⟩ : ∃ image, ofStream narrowStream = .ok image := ⟨_, rfl⟩
  obtain ⟨softMask, given⟩ : ∃ softMask, image.softMask = some softMask := by
    cases read
    exact ⟨_, rfl⟩
  have decoded : (image.withLimits ⟨100, 1⟩).decode.toOption =
      some (.rgba ⟨2, 1, [⟨Rgb.ofGray 255, 1⟩, ⟨Rgb.ofGray 0, 2⟩]⟩) := by
    cases read
    decide +kernel
  refine ⟨image, softMask, _, read, ?_, given, ?_, eq_ok_of_toOption decoded⟩
  · cases read
    decide +kernel
  · cases read
    cases given
    decide +kernel

/-- The image stays within a limit of one byte, its mask within the standard limit, and also the stencil of
the mask has that one. -/
theorem narrow_image_stays_within_one_byte :
    ∃ image softMask stencil : Image, ofStream narrowStream = .ok image ∧
      image.softMask = some softMask ∧ softMask.mask = some stencil ∧
      (image.withLimits ⟨100, 1⟩).StaysWithin 1 ∧
      softMask.StaysWithin DecodeLimits.standard.size ∧ stencil.limits = .standard := by
  obtain ⟨image, softMask, picture, read, sampled, given, sampledMask, decoded⟩ := narrow_image_decodes
  obtain ⟨stencil, inner⟩ : ∃ stencil, softMask.mask = some stencil := by
    cases read
    cases given
    exact ⟨_, rfl⟩
  obtain ⟨own, counting, masks⟩ := limits_stay_with_the_image read (by decide) sampled decoded
  have counts : (image.withLimits ⟨100, 1⟩).opacityMask? = some (softMask, true) := by
    cases read
    cases given
    rfl
  refine ⟨image, softMask, stencil, read, given, inner, own, counting _ _ counts sampledMask, ?_⟩
  exact masks stencil (.nested (.explicit inner) (.soft given))

/-- With the same limit the mask that counts takes up two bytes, packed and filtered. -/
theorem mask_exceeds_the_limit_of_its_image :
    ∃ (image mask : Image) (picture : Picture), ofStream narrowStream = .ok image ∧
      image.isJpeg = false ∧ mask.isJpeg = false ∧ (image.withLimits ⟨100, 1⟩).decode = .ok picture ∧
      (image.withLimits ⟨100, 1⟩).opacityMask? = some (mask, true) ∧ ¬ mask.StaysWithin 1 := by
  obtain ⟨image, mask, picture, read, sampled, given, sampledMask, decoded⟩ := narrow_image_decodes
  have counts : (image.withLimits ⟨100, 1⟩).opacityMask? = some (mask, true) := by
    cases read
    cases given
    rfl
  have filtered : mask.filterNames ≠ [] ∧ mask.filteredData mask.filterNames = .ok [1, 2] := by
    cases read
    cases given
    exact ⟨by decide, rfl⟩
  refine ⟨image, mask, picture, read, sampled, sampledMask, decoded, counts, ?_⟩
  rintro ⟨_, _, data, _, _, made, _, short⟩
  rw [filtered.2] at made
  obtain rfl := Except.ok.inj made
  exact absurd (short filtered.1) (by decide)

end PdfCanvas.Image
