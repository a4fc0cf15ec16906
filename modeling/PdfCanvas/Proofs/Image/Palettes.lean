import PdfCanvas.Proofs.Image.DeviceColors

/-!
# Palette images

A sample of a palette image counts as the index that it is, in spite of the roundings on its way: it is mapped
to the range of all samples and rounded back. Samples beyond the greatest index count as that one. The bytes of
the entry are the channels of the pixel, and a palette that ends before the end of an entry has no colour for it.
-/

namespace PdfCanvas

namespace ColorSpace

variable {base : ColorSpace} {limit : UInt8} {table : Bytes} {index : Nat}

/-- The colour of an entry. Each channel is the byte of its component; gray has one for all channels. -/
def entryColor (base : ColorSpace) (table : Bytes) (index : Nat) : Rgb :=
  let byte (channel : Nat) : UInt8 :=
    table[index * base.components + channel % base.components]?.getD 0
  ⟨byte 0, byte 1, byte 2⟩

theorem bytes_entryColor (some : 0 < base.components)
    (whole : (index + 1) * base.components ≤ table.length) {channel : Nat} (isChannel : channel < 3) :
    (entryColor base table index).bytes[channel]? =
      table[index * base.components + channel % base.components]? := by
  have there : index * base.components + channel % base.components < table.length := by
    have inside := Nat.mod_lt channel some
    rw [Nat.add_mul, Nat.one_mul] at whole
    omega
  have byte : (entryColor base table index).bytes[channel]? =
      Option.some (table[index * base.components + channel % base.components]?.getD 0) := by
    match channel, isChannel with
    | 0, _ | 1, _ | 2, _ => rfl
  rw [byte, List.getElem?_eq_getElem there, Option.getD_some]

theorem IsScaled.toRgb_entry (isScaled : base.IsScaled)
    (whole : (index + 1) * base.components ≤ table.length) :
    base.toRgb (((table.drop (index * base.components)).take base.components).map fun byte =>
      Floating.ofNat byte.toNat / Floating.ofNat 255) = .ok (entryColor base table index) := by
  have channels (place : Nat) (inside : place < base.components) :
      channel (component (((table.drop (index * base.components)).take base.components).map fun byte =>
        Floating.ofNat byte.toNat / Floating.ofNat 255) place) =
          table[index * base.components + place]?.getD 0 := by
    have there : index * base.components + place < table.length := by
      rw [Nat.add_mul, Nat.one_mul] at whole
      omega
    rw [component, List.getElem?_map, List.getElem?_take_of_lt inside, List.getElem?_drop,
      List.getElem?_eq_getElem there]
    exact Samples.channel_of_part _
  rcases isScaled with rfl | rfl
  · have gray := channels 0 (by decide)
    rw [toRgb, grayToRgb, gray]
    rfl
  · have red := channels 0 (by decide)
    have green := channels 1 (by decide)
    have blue := channels 2 (by decide)
    rw [toRgb, rgbToRgb, red, green, blue]
    rfl

/-- The sample is the index, up to the greatest one. -/
theorem toRgb_indexed (isScaled : base.IsScaled) {most sample : Nat} (positive : 0 < most)
    (within : sample ≤ most) (small : most < 2 ^ 16) :
    (indexed base limit table).toRgb
        [Samples.mapToRange most sample (Floating.zero, Floating.ofNat most)] =
      if table.length < (min sample limit.toNat + 1) * base.components then
        .error (.format (.paletteEntry (min sample limit.toNat)))
      else .ok (entryColor base table (min sample limit.toNat)) := by
  have rounded := Samples.roundNat_mapToRange positive within small limit.toNat
  rw [Nat.min_comm] at rounded
  rw [toRgb, List.headD_cons, rounded]
  split
  next => rfl
  next enough => exact isScaled.toRgb_entry (Nat.le_of_not_lt enough)

end ColorSpace

namespace Image

variable {image : Image} {base : ColorSpace} {limit : UInt8} {table : Bytes}

/-- The entry of a palette that the sample of a pixel asks for. -/
def paletteIndex (image : Image) (limit : UInt8) (x y : Nat) : Nat :=
  min ((SampleLayout.mk image.width image.height 1 image.bits).sampleAt image.stream.data x y 0)
    limit.toNat

theorem decodeRanges_of_indexed (undecoded : image.decodeArray = none) (depth : image.bits ≤ 16) :
    image.decodeRanges (.indexed base limit table) =
      [(Floating.zero, Floating.ofNat (2 ^ image.bits - 1))] := by
  rw [decodeRanges, undecoded]
  show [(Floating.zero, Floating.ofNat (1 <<< min image.bits 16 - 1))] = _
  rw [Nat.min_eq_left depth, Nat.one_shiftLeft]

theorem toRgb_paletteIndex (undecoded : image.decodeArray = none) (isScaled : base.IsScaled)
    {samples : List Nat} (unpacked : Samples.unpack image.stream.data
      (image.layout (.indexed base limit table)) image.limits = .ok samples)
    {x y : Nat} (inside : x < image.width) (below : y < image.height) :
    (ColorSpace.indexed base limit table).toRgb
        (((image.layout (.indexed base limit table)).pixelAt samples x y).zipWith
          (Samples.mapToRange (image.layout (.indexed base limit table)).maxSample)
          (image.decodeRanges (.indexed base limit table))) =
      if table.length < (image.paletteIndex limit x y + 1) * base.components then
        .error (.format (.paletteEntry (image.paletteIndex limit x y)))
      else .ok (base.entryColor table (image.paletteIndex limit x y)) := by
  have shape : image.layout (.indexed base limit table) =
      ⟨image.width, image.height, 1, image.bits⟩ := rfl
  rw [shape] at unpacked ⊢
  have depth : image.bits ∈ [1, 2, 4, 8, 16] := Samples.depth_of_unpack unpacked
  have bits : 0 < image.bits ∧ image.bits ≤ 16 := by
    simp only [List.mem_cons, List.not_mem_nil, or_false] at depth
    omega
  obtain ⟨sample, single⟩ := List.length_eq_one_iff.mp
    (SampleLayout.length_pixelAt (Samples.length_unpack unpacked) inside below)
  have there := Samples.getElem?_pixelAt_of_unpack unpacked inside below Nat.one_pos
  rw [single] at there
  obtain rfl := Option.some.inj there
  have within := Bytes.field_lt image.stream.data
    (y * (8 * (image.width * 1 * image.bits ⌈/⌉ 8)) + (1 * x + 0) * image.bits) image.bits
  have wide : 2 ^ image.bits ≤ 2 ^ 16 := Nat.pow_le_pow_right Nat.two_pos bits.2
  have two : 2 ^ 1 ≤ 2 ^ image.bits := Nat.pow_le_pow_right Nat.two_pos bits.1
  have greatest : (SampleLayout.mk image.width image.height 1 image.bits).maxSample =
      2 ^ image.bits - 1 := congrArg (· - 1) (Nat.one_shiftLeft _)
  rw [single, decodeRanges_of_indexed undecoded bits.2, greatest]
  exact ColorSpace.toRgb_indexed isScaled (by omega) (Nat.le_sub_one_of_lt within) (by omega)

/-- The pixels of an unfiltered palette image are the entries that their samples ask for. There are none if
one of these entries is not in the palette, and that is the only failure. -/
theorem palette_entries_are_looked_up (unfiltered : image.filterNames = [])
    (undecoded : image.decodeArray = none) (known : image.colorSpace = .ok (.indexed base limit table))
    (device : base = .gray ∨ base = .rgb) (depth : image.bits ∈ [1, 2, 4, 8, 16]) {size : Nat}
    (fits : (image.layout (.indexed base limit table)).checkSize image.limits = .ok size) :
    ((∃ fault, image.pixels = .error (.format fault)) ↔ ∃ x < image.width, ∃ y < image.height,
      table.length < (image.paletteIndex limit x y + 1) * base.components) ∧
    (∀ e, image.pixels = .error e → ∃ x < image.width, ∃ y < image.height,
      e = .format (.paletteEntry (image.paletteIndex limit x y))) ∧
    ((∀ x < image.width, ∀ y < image.height,
        (image.paletteIndex limit x y + 1) * base.components ≤ table.length) →
      ∃ raster, image.pixels = .ok raster ∧ raster.IsFull ∧ raster.width = image.width ∧
        raster.height = image.height ∧
        ∀ x < image.width, ∀ y < image.height, ∃ color, raster.pixel? x y = some color ∧
          ∀ channel < 3, color.bytes[channel]? =
            table[image.paletteIndex limit x y * base.components + channel % base.components]?) := by
  have isScaled : base.IsScaled := device
  obtain ⟨samples, unpacked⟩ := Samples.exists_unpack depth fits image.stream.data
  have length := Samples.length_unpack unpacked
  have drawn := pixels_of_unfiltered unfiltered known fits unpacked
  have colored {x y : Nat} (inside : x < image.width) (below : y < image.height) :=
    toRgb_paletteIndex undecoded isScaled unpacked inside below
  -- a failure is that of some pixel, and it is the palette that fails there
  have fault {e : Error} (refused : image.pixels = .error e) : ∃ x < image.width, ∃ y < image.height,
      e = .format (.paletteEntry (image.paletteIndex limit x y)) ∧
        table.length < (image.paletteIndex limit x y + 1) * base.components := by
    rw [drawn] at refused
    obtain ⟨x, inside, y, below, refused⟩ :=
      Samples.fault_of_toRgb rfl Nat.one_ne_zero length refused
    rw [colored inside below] at refused
    split at refused
    next short => exact ⟨x, inside, y, below, (Except.error.inj refused).symm, short⟩
    next => cases refused
  refine ⟨⟨?_, ?_⟩, ?_, ?_⟩
  · rintro ⟨e, refused⟩
    obtain ⟨x, inside, y, below, _, short⟩ := fault refused
    exact ⟨x, inside, y, below, short⟩
  · rintro ⟨x, inside, y, below, short⟩
    cases outcome : image.pixels with
    | error e =>
      obtain ⟨_, _, _, _, rfl, _⟩ := fault outcome
      exact ⟨_, rfl⟩
    | ok raster =>
      obtain ⟨_, _, made⟩ := Samples.pixel?_of_toRgb (drawn ▸ outcome) length inside below
      rw [colored inside below, if_pos short] at made
      cases made
  · intro e refused
    obtain ⟨x, inside, y, below, isFault, _⟩ := fault refused
    exact ⟨x, inside, y, below, isFault⟩
  · intro whole
    cases outcome : image.pixels with
    | error e =>
      obtain ⟨x, inside, y, below, _, short⟩ := fault outcome
      exact absurd (whole x inside y below) (Nat.not_le.mpr short)
    | ok raster =>
      obtain ⟨full, width, height⟩ := size_of_pixels (isJpeg_of_unfiltered unfiltered) outcome
      refine ⟨raster, rfl, full, width, height, ?_⟩
      intro x inside y below
      obtain ⟨color, there, made⟩ := Samples.pixel?_of_toRgb (drawn ▸ outcome) length inside below
      rw [colored inside below, if_neg (Nat.not_lt.mpr (whole x inside y below))] at made
      obtain rfl := Except.ok.inj made
      exact ⟨_, there, fun channel isChannel =>
        ColorSpace.bytes_entryColor isScaled.components_pos (whole x inside y below) isChannel⟩

/-- Two pixels of sixteen bits each, the second one beyond the palette. -/
def wordPalette (table : Bytes) : Stream where
  entries := [("Width", .integer 2), ("Height", .integer 1), ("BitsPerComponent", .integer 16),
    ("ColorSpace", .array [.name "Indexed", .name "DeviceRGB", .integer 1, .string table])]
  data := [0x00, 0x00, 0x03, 0x00]

theorem ofStream_wordPalette (table : Bytes) : ∃ image, ofStream (wordPalette table) = .ok image ∧
    image.filterNames = [] ∧ image.decodeArray = none ∧
    image.colorSpace = .ok (.indexed .rgb 1 table) ∧ image.bits ∈ [1, 2, 4, 8, 16] ∧
    (image.layout (.indexed .rgb 1 table)).checkSize image.limits = .ok 4 ∧
    1 < image.width ∧ 0 < image.height ∧ image.paletteIndex 1 1 0 = 1 := by
  have depth : 16 ∈ [1, 2, 4, 8, 16] := by decide
  have fits : (SampleLayout.mk 2 1 1 16).checkSize .standard = .ok 4 :=
    eq_ok_of_toOption (by decide +kernel)
  have last : min ((SampleLayout.mk 2 1 1 16).sampleAt [0x00, 0x00, 0x03, 0x00] 1 0 0)
      (1 : UInt8).toNat = 1 := by decide +kernel
  exact ⟨_, rfl, rfl, rfl, rfl, depth, fits, Nat.one_lt_two, Nat.one_pos, last⟩

/-- The second entry is taken for the second pixel, as long as none of its bytes is missing. -/
theorem last_entry_is_looked_up_beyond_the_palette :
    (∃ image raster color, ofStream (wordPalette [1, 2, 3, 4, 5, 6]) = .ok image ∧
      image.pixels = .ok raster ∧ raster.pixel? 1 0 = some color ∧
      ∀ channel < 3, color.bytes[channel]? = [4, 5, 6][channel]?) ∧
    ∃ image fault, ofStream (wordPalette [1, 2, 3, 4, 5]) = .ok image ∧
      image.pixels = .error (.format fault) := by
  constructor
  · obtain ⟨image, read, unfiltered, undecoded, known, depth, fits, inside, below, last⟩ :=
      ofStream_wordPalette [1, 2, 3, 4, 5, 6]
    obtain ⟨-, -, made⟩ :=
      palette_entries_are_looked_up unfiltered undecoded known (.inr rfl) depth fits
    have whole (x y : Nat) : (image.paletteIndex 1 x y + 1) * 3 ≤ 6 :=
      Nat.mul_le_mul_right 3 (Nat.succ_le_succ (Nat.min_le_right _ _))
    obtain ⟨raster, drawn, _, _, _, colors⟩ := made fun x _ y _ => whole x y
    obtain ⟨color, there, channels⟩ := colors 1 inside 0 below
    refine ⟨image, raster, color, read, drawn, there, ?_⟩
    intro channel isChannel
    rw [channels channel isChannel, last]
    match channel, isChannel with
    | 0, _ | 1, _ | 2, _ => rfl
  · obtain ⟨image, read, unfiltered, undecoded, known, depth, fits, inside, below, last⟩ :=
      ofStream_wordPalette [1, 2, 3, 4, 5]
    obtain ⟨fails, -, -⟩ :=
      palette_entries_are_looked_up unfiltered undecoded known (.inr rfl) depth fits
    obtain ⟨fault, refused⟩ := fails.mpr ⟨1, inside, 0, below, by rw [last]; decide⟩
    exact ⟨image, fault, read, refused⟩

end Image

end PdfCanvas
