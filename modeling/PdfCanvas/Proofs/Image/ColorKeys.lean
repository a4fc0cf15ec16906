import PdfCanvas.Proofs.Image.Masks

/-!
# Colour keys

A mask array gives ranges of sample values. A pixel is left out if its samples lie in their ranges; a
component that the array gives no range for is not looked at, although a pixel is to be left out only where
every sample lies in a range. The pixels that stay keep their colours.
-/

namespace PdfCanvas

namespace Image

/-! ## Reading the ranges -/

/-- The items of an array are the bounds of ranges, one range after the other. -/
def HoldRanges (items : List Object) (ranges : List (Nat × Nat)) : Prop :=
  items.map Object.integer? =
    ranges.flatMap fun range => [some (range.1 : Int), some (range.2 : Int)]

theorem integer?_of_colorKeyBound {object : Object} {bound : Nat}
    (read : colorKeyBound object = .ok bound) : object.integer? = some (bound : Int) := by
  unfold colorKeyBound at read
  split at read
  next value given =>
    split at read
    next within =>
      cases read
      rw [given, Int.toNat_of_nonneg within.1]
    next => cases read
  next => cases read

theorem flatMap_pairs {α β : Type} (f : α → β) : (elements : List α) → elements.length % 2 = 0 →
    (pairs elements).flatMap (fun pair => [f pair.1, f pair.2]) = elements.map f
  | [], _ => rfl
  | [_], odd => by cases odd
  | first :: second :: rest, even => by
    have others := flatMap_pairs f rest (by simp only [List.length_cons] at even; omega)
    rw [pairs, List.flatMap_cons, others]
    rfl

theorem holdRanges_of_colorKeyRanges {items : List Object} {ranges : List (Nat × Nat)}
    (read : colorKeyRanges items = .ok ranges) : HoldRanges items ranges := by
  obtain ⟨bounds, readBounds, read⟩ := bind_eq_ok.mp read
  split at read
  next even =>
    cases read
    rw [HoldRanges, flatMap_pairs (fun bound : Nat => some (bound : Int)) bounds even]
    exact map_eq_of_mapM (fun _ _ => integer?_of_colorKeyBound) readBounds
  next => cases read

theorem maskOfEntries_of_get? {key : String} {allows : Bool} {entries : Dictionary} {object : Object}
    (given : entries.get? key = some object) :
    maskOfEntries key allows entries = maskOfObject key allows object := by
  unfold Dictionary.get? at given
  induction entries with
  | nil => cases given
  | cons entry rest inductionHypothesis =>
    obtain ⟨name, value⟩ := entry
    rw [List.lookup_cons] at given
    rw [maskOfEntries]
    by_cases same : name = key
    · subst same
      rw [beq_self_eq_true] at given
      cases given
      rw [if_pos rfl, maskOfEntry]
    · rw [beq_false_of_ne (Ne.symm same)] at given
      rw [if_neg same]
      exact inductionHypothesis given

/-- An image whose mask is an array has the ranges in it for a colour key, and no explicit mask. -/
theorem of_ofStream_of_array {s : Stream} {image : Image} (read : ofStream s = .ok image)
    {items : List Object} (array : s.get? "Mask" = some (.array items)) :
    image.mask = none ∧ ∃ ranges, image.colorKey = some ranges ∧ HoldRanges items ranges := by
  rw [ofStream, maskOfEntries_of_get? array, maskOfObject, if_pos rfl] at read
  obtain ⟨header, readHeader, read⟩ := bind_eq_ok.mp read
  obtain ⟨softMask, _, read⟩ := bind_eq_ok.mp read
  obtain ⟨source, readKey, read⟩ := bind_eq_ok.mp read
  obtain ⟨ranges, readRanges, rfl⟩ := map_eq_ok.mp readKey
  obtain ⟨_, _, _, noMask⟩ := header_of_ofHeader readHeader
  refine ⟨?_, ranges, ?_, holdRanges_of_colorKeyRanges readRanges⟩
  · cases softMask <;> cases read <;> exact noMask
  · cases softMask <;> cases read <;> rfl

end Image

/-! ## Pixels in the ranges -/

namespace Mask

/-- Whether a sample lies in a range; both bounds belong to it. -/
def InRange (range : Nat × Nat) (sample : Nat) : Prop := range.1 ≤ sample ∧ sample ≤ range.2

theorem isKeyed_iff : {ranges : List (Nat × Nat)} → {samples : List Nat} →
    (isKeyed ranges samples = true ↔ ∀ (component : Nat) (range : Nat × Nat) (sample : Nat),
      ranges[component]? = some range → samples[component]? = some sample → InRange range sample)
  | [], _ => by simp [isKeyed]
  | _ :: _, [] => by simp [isKeyed]
  | range :: ranges, sample :: samples => by
    have others := @isKeyed_iff ranges samples
    rw [isKeyed] at others ⊢
    rw [List.zip_cons_cons, List.all_cons, Bool.and_eq_true, others, Bool.and_eq_true,
      decide_eq_true_eq, decide_eq_true_eq]
    constructor
    · rintro ⟨first, rest⟩ component
      cases component with
      | zero =>
        rintro _ _ ⟨⟩ ⟨⟩
        exact first
      | succ component => exact rest component
    · intro each
      exact ⟨each 0 range sample rfl rfl, fun component => each (component + 1)⟩

/-- A pixel of unpacked data is keyed if no sample lies outside the range of its component. -/
theorem isKeyed_pixelAt_iff {data : Bytes} {layout : SampleLayout} {limits : DecodeLimits}
    {samples : List Nat} (unpacked : Samples.unpack data layout limits = .ok samples) {x y : Nat}
    (inside : x < layout.width) (below : y < layout.height) {ranges : List (Nat × Nat)} :
    isKeyed ranges (layout.pixelAt samples x y) = true ↔ ∀ component < layout.components, ∀ range,
      ranges[component]? = some range → InRange range (layout.sampleAt data x y component) := by
  rw [isKeyed_iff]
  constructor
  · intro inRanges component less range there
    exact inRanges component range _ there
      (Samples.getElem?_pixelAt_of_unpack unpacked inside below less)
  · intro inRanges component range sample there found
    have less : component < layout.components := by
      rw [← SampleLayout.length_pixelAt (Samples.length_unpack unpacked) inside below]
      exact (List.getElem?_eq_some_iff.mp found).1
    rw [Samples.getElem?_pixelAt_of_unpack unpacked inside below less] at found
    cases found
    exact inRanges component less range there

end Mask

namespace Image

variable {image : Image} {picture : Picture}

/-- Without other masks the pixels in the ranges of the colour key are left out. -/
theorem alphaAt?_of_colorKey (sampled : image.isJpeg = false) (unmasked : image.opacityMask? = none)
    {ranges : List (Nat × Nat)} (given : image.colorKey = some ranges)
    (decoded : image.decode = .ok picture) :
    ∃ space data, image.colorSpace = .ok space ∧ image.filteredData image.filterNames = .ok data ∧
      ∀ x < image.width, ∀ y < image.height, ∃ alpha, picture.alphaAt? x y = some alpha ∧
        (alpha = 0 ∨ alpha = 255) ∧
        (alpha = 0 ↔ ∀ component < (image.layout space).components, ∀ range,
          ranges[component]? = some range →
            Mask.InRange range ((image.layout space).sampleAt data x y component)) := by
  obtain ⟨samples, _, colors, made, rfl⟩ := of_decode_colorKey sampled unmasked given decoded
  obtain ⟨space, data, known, rfl, filtered, unpacked, painted⟩ := of_samplePixels made
  obtain ⟨some, width, _, _⟩ := Samples.of_toRgb painted
  have count := Samples.length_pixels_of_toRgb painted
  refine ⟨space, data, known, filtered, ?_⟩
  intro x inside y below
  have pixel := SampleLayout.getElem?_pixels (Nat.pos_of_ne_zero some)
    (Samples.length_unpack unpacked) inside below
  rw [← Mask.isKeyed_pixelAt_iff unpacked inside below]
  refine ⟨if Mask.isKeyed ranges ((image.layout space).pixelAt samples x y) then 0 else 255, ?_, ?_⟩
  · rw [Picture.alphaAt?, Picture.alpha?, Option.bind_some, Mask.alpha_applyColorKey count,
      Raster.pixel?, if_pos (width ▸ inside), width, List.getElem?_map, pixel, Option.map_some]
  · split <;> simp [*]

/-- Whether the samples of a pixel all lie in a range of their own. -/
def IsInside (image : Image) (space : ColorSpace) (data : Bytes) (ranges : List (Nat × Nat))
    (x y : Nat) : Prop :=
  ∀ component < (image.layout space).components, ∃ range, ranges[component]? = some range ∧
    Mask.InRange range ((image.layout space).sampleAt data x y component)

/-- The colours are those of the image without the key. A pixel is left out where no sample lies outside the
range of its component; if the array has a range for each component, these are the pixels that lie inside. -/
theorem pixels_in_ranges_are_left_out {s : Stream} (read : ofStream s = .ok image) {items : List Object}
    (array : s.get? "Mask" = some (.array items)) (noSoftMask : image.softMask = none)
    (sampled : image.isJpeg = false) (target : Option Ref) (limits : DecodeLimits)
    (decoded : { image with target, limits }.decode = .ok picture) :
    { image with target, limits }.pixels = .ok picture.colors ∧
    ∃ ranges space data, HoldRanges items ranges ∧ image.colorSpace = .ok space ∧
      { image with target, limits }.filteredData image.filterNames = .ok data ∧
      ∀ x < image.width, ∀ y < image.height, ∃ alpha, picture.alphaAt? x y = some alpha ∧
        (alpha = 0 ∨ alpha = 255) ∧
        (alpha = 0 ↔ ∀ component < (image.layout space).components, ∀ range,
          ranges[component]? = some range →
            Mask.InRange range ((image.layout space).sampleAt data x y component)) ∧
        ((image.layout space).components ≤ ranges.length →
          (alpha = 0 ↔ image.IsInside space data ranges x y)) := by
  obtain ⟨noMask, ranges, keyed, hold⟩ := of_ofStream_of_array read array
  have unmasked : { image with target, limits }.opacityMask? = none := by
    rw [opacityMask?, noSoftMask, noMask]
  have sampled : { image with target, limits }.isJpeg = false := sampled
  obtain ⟨space, data, known, filtered, each⟩ := alphaAt?_of_colorKey sampled unmasked keyed decoded
  refine ⟨pixels_of_decode sampled decoded, ranges, space, data, hold, known, filtered, ?_⟩
  intro x inside y below
  obtain ⟨alpha, there, values, leftOut⟩ := each x inside y below
  refine ⟨alpha, there, values, leftOut, ?_⟩
  intro enough
  refine leftOut.trans ⟨?_, ?_⟩
  · intro inRanges component less
    have there := List.getElem?_eq_getElem (Nat.lt_of_lt_of_le less enough)
    exact ⟨_, there, inRanges component less _ there⟩
  · intro isInside component less range there
    obtain ⟨same, thereSame, lies⟩ := isInside component less
    obtain rfl := Option.some.inj (there.symm.trans thereSame)
    exact lies

/-- Two gray pixels, the first of which is in the range of the key. -/
def keyedStream : Stream where
  entries := [("Width", .integer 2), ("Height", .integer 1), ("ColorSpace", .name "DeviceGray"),
    ("Mask", .array [.integer 0, .integer 10])]
  data := [10, 11]

theorem sample_of_ten_is_left_out : ∃ image, ofStream keyedStream = .ok image ∧
    image.decode = .ok (.rgba ⟨2, 1, [⟨Rgb.ofGray 10, 0⟩, ⟨Rgb.ofGray 11, 255⟩]⟩) ∧
    image.pixels = .ok ⟨2, 1, [Rgb.ofGray 10, Rgb.ofGray 11]⟩ := by
  obtain ⟨image, read⟩ : ∃ image, ofStream keyedStream = .ok image := ⟨_, rfl⟩
  have decoded : image.decode.toOption =
      some (.rgba ⟨2, 1, [⟨Rgb.ofGray 10, 0⟩, ⟨Rgb.ofGray 11, 255⟩]⟩) := by
    cases read
    decide +kernel
  have decoded := eq_ok_of_toOption decoded
  have noSoftMask : image.softMask = none := by
    cases read
    rfl
  have sampled : image.isJpeg = false := by
    cases read
    rfl
  have array : keyedStream.get? "Mask" = some (.array [.integer 0, .integer 10]) := rfl
  exact ⟨image, read, decoded,
    (pixels_in_ranges_are_left_out read array noSoftMask sampled image.target image.limits decoded).1⟩

/-- An RGB pixel, with a range for the first of its three components only. -/
def partlyKeyedStream : Stream where
  entries := [("Width", .integer 1), ("Height", .integer 1), ("ColorSpace", .name "DeviceRGB"),
    ("Mask", .array [.integer 0, .integer 10])]
  data := [5, 200, 200]

/-- The pixel is left out although two of its components have no range. -/
theorem components_without_range_count_as_inside : ∃ image,
    ofStream partlyKeyedStream = .ok image ∧ image.colorSpace = .ok .rgb ∧
    (∃ picture, image.decode = .ok picture ∧ picture.alphaAt? 0 0 = some 0) ∧
    ¬ image.IsInside .rgb partlyKeyedStream.data [(0, 10)] 0 0 := by
  obtain ⟨image, read⟩ : ∃ image, ofStream partlyKeyedStream = .ok image := ⟨_, rfl⟩
  have decoded : image.decode.toOption = some (.rgba ⟨1, 1, [⟨⟨5, 200, 200⟩, 0⟩]⟩) := by
    cases read
    decide +kernel
  have space : image.colorSpace = .ok .rgb := by
    cases read
    rfl
  refine ⟨image, read, space, ⟨_, eq_ok_of_toOption decoded, rfl⟩, ?_⟩
  intro isInside
  have components : 1 < (image.layout .rgb).components := by
    cases read
    decide
  obtain ⟨range, there, _⟩ := isInside 1 components
  cases there

end Image

end PdfCanvas
