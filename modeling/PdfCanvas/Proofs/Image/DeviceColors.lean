import PdfCanvas.Proofs.Image.Masks

/-!
# Gray and RGB images

The pixels of an image in gray or RGB are the samples that stand where they do, scaled to eight bits as
exactly as eight bits allow. Samples that have eight bits are kept as they are.
-/

namespace PdfCanvas

namespace ColorSpace

/-- The spaces whose components are scaled to channels. -/
def IsScaled (space : ColorSpace) : Prop := space = .gray ∨ space = .rgb

variable {space : ColorSpace}

theorem IsScaled.components_pos (scaled : space.IsScaled) : 0 < space.components := by
  rcases scaled with rfl | rfl <;> decide

theorem IsScaled.defaultRange (scaled : space.IsScaled) (bits : Nat) :
    space.defaultRange bits = (Floating.zero, Floating.one) := by
  rcases scaled with rfl | rfl <;> rfl

/-- Each channel is the scaled sample of its component; gray has one for all channels. -/
theorem IsScaled.channels (scaled : space.IsScaled) {pixel : List Nat}
    (length : pixel.length = space.components) {most : Nat} {color : Rgb}
    (painted : space.toRgb (pixel.zipWith (Samples.mapToRange most)
      (List.replicate space.components (Floating.zero, Floating.one))) = .ok color)
    {channel : Nat} (isChannel : channel < 3) :
    ∃ sample, pixel[channel % space.components]? = some sample ∧
      color.bytes[channel]? = some (Samples.scaled most sample) := by
  rcases scaled with rfl | rfl
  · obtain ⟨sample, rfl⟩ := List.length_eq_one_iff.mp length
    obtain rfl := Except.ok.inj painted
    refine ⟨sample, by rw [components, Nat.mod_one]; rfl, ?_⟩
    match channel, isChannel with
    | 0, _ | 1, _ | 2, _ => rfl
  · obtain ⟨red, green, blue, rfl⟩ := List.length_eq_three.mp length
    obtain rfl := Except.ok.inj painted
    match channel, isChannel with
    | 0, _ => exact ⟨red, rfl, rfl⟩
    | 1, _ => exact ⟨green, rfl, rfl⟩
    | 2, _ => exact ⟨blue, rfl, rfl⟩

end ColorSpace

namespace Image

variable {image : Image} {space : ColorSpace} {raster : Raster Rgb}

/-- Unfiltered gray and RGB images are drawn sample by sample. -/
theorem channels_of_unfiltered (unfiltered : image.filterNames = []) (undecoded : image.decodeArray = none)
    (known : image.colorSpace = .ok space) (isScaled : space.IsScaled) (drawn : image.pixels = .ok raster)
    {x y channel : Nat} (inside : x < image.width) (below : y < image.height) (isChannel : channel < 3) :
    image.bits ∈ [1, 2, 4, 8, 16] ∧ ∃ color, raster.pixel? x y = some color ∧
      color.bytes[channel]? = some (Samples.scaled (image.layout space).maxSample
        ((image.layout space).sampleAt image.stream.data x y (channel % space.components))) := by
  obtain ⟨samples, unpacked, painted⟩ := of_pixels_of_unfiltered unfiltered known drawn
  have positive := isScaled.components_pos
  have components : (image.layout space).components = space.components := Nat.max_eq_left positive
  have ranges : image.decodeRanges space =
      List.replicate space.components (Floating.zero, Floating.one) := by
    rw [decodeRanges, undecoded, isScaled.defaultRange]
    exact congrArg (List.replicate · _) components
  have length := SampleLayout.length_pixelAt (Samples.length_unpack unpacked) inside below
  obtain ⟨color, there, colored⟩ :=
    Samples.pixel?_of_toRgb painted (Samples.length_unpack unpacked) inside below
  have less : channel % space.components < (image.layout space).components := by
    rw [components]
    exact Nat.mod_lt channel positive
  rw [ranges] at colored
  obtain ⟨sample, found, isScaled⟩ := isScaled.channels (length.trans components) colored isChannel
  rw [Samples.getElem?_pixelAt_of_unpack unpacked inside below less] at found
  cases found
  exact ⟨Samples.depth_of_unpack unpacked, color, there, isScaled⟩

theorem sampleAt_bytes {layout : SampleLayout} (depth : layout.bits = 8) (data : Bytes)
    (x y component : Nat) : layout.sampleAt data x y component =
      (data[layout.width * layout.components * y + (layout.components * x + component)]?.getD 0).toNat := by
  have row : layout.width * layout.components * 8 ⌈/⌉ 8 = layout.width * layout.components := by
    rw [← bytesOfBits_eq, bytesOfBits, Nat.mul_div_cancel _ (by decide), Nat.mul_mod_left, if_pos rfl,
      Nat.add_zero]
  have start : y * (8 * (layout.width * layout.components)) + (layout.components * x + component) * 8 =
      8 * (layout.width * layout.components * y + (layout.components * x + component)) := by ring
  rw [SampleLayout.sampleAt, depth, row, start, Bytes.field_byte]

/-- The channels of unfiltered gray and RGB images are nearest to their samples in the range of eight bits;
samples of eight bits are the bytes of the data. -/
theorem device_samples_are_scaled_exactly (unfiltered : image.filterNames = [])
    (undecoded : image.decodeArray = none) (known : image.colorSpace = .ok space)
    (device : space = .gray ∨ space = .rgb) (drawn : image.pixels = .ok raster) :
    raster.IsFull ∧ raster.width = image.width ∧ raster.height = image.height ∧
      ∀ x < image.width, ∀ y < image.height, ∃ color, raster.pixel? x y = some color ∧
        ∀ channel < 3, ∃ value, color.bytes[channel]? = some value ∧
          IsNearest value.toNat (255 * (image.layout space).sampleAt image.stream.data x y
            (channel % space.components) / (2 ^ image.bits - 1 : Nat)) ∧
          (image.bits = 8 → value = image.stream.data[image.width * space.components * y +
            (space.components * x + channel % space.components)]?.getD 0) := by
  have isScaled : space.IsScaled := device
  obtain ⟨full, width, height⟩ := size_of_pixels (isJpeg_of_unfiltered unfiltered) drawn
  refine ⟨full, width, height, ?_⟩
  intro x inside y below
  have channels {channel : Nat} (isChannel : channel < 3) :=
    channels_of_unfiltered unfiltered undecoded known isScaled drawn inside below isChannel
  obtain ⟨depth, color, there, _⟩ := channels (by decide : 0 < 3)
  refine ⟨color, there, ?_⟩
  intro channel isChannel
  obtain ⟨_, same, thereSame, value⟩ := channels isChannel
  obtain rfl := Option.some.inj (there.symm.trans thereSame)
  have components : (image.layout space).components = space.components :=
    Nat.max_eq_left isScaled.components_pos
  have greatest : (image.layout space).maxSample = 2 ^ image.bits - 1 :=
    congrArg (· - 1) (Nat.one_shiftLeft _)
  rw [greatest] at value
  refine ⟨_, value, Samples.scaled_isNearest depth (Bytes.field_lt _ _ _), ?_⟩
  intro eight
  have isByte : (image.layout space).sampleAt image.stream.data x y (channel % space.components) = _ :=
    sampleAt_bytes eight _ _ _ _
  rw [components] at isByte
  rw [eight, isByte, (Samples.scaled_of_factor (by decide : (2 ^ 8 - 1) * 1 = 255)
    (Nat.le_of_lt_succ (UInt8.toNat_lt _))).1, Nat.one_mul]
  exact UInt8.ofNat_toNat

/-- Two gray pixels of sixteen bits each, the last byte of which is missing. -/
def shortWords : Stream where
  entries := [("Width", .integer 2), ("Height", .integer 1), ("BitsPerComponent", .integer 16),
    ("ColorSpace", .name "DeviceGray")]
  data := [0x80, 0x80, 0x01]

theorem words_are_scaled_exactly : ∃ image, ofStream shortWords = .ok image ∧
    image.pixels = .ok ⟨2, 1, [Rgb.ofGray 128, Rgb.ofGray 1]⟩ ∧
    ∀ x < 2, ∃ color, (⟨2, 1, [Rgb.ofGray 128, Rgb.ofGray 1]⟩ : Raster Rgb).pixel? x 0 = some color ∧
      ∀ channel < 3, ∃ value, color.bytes[channel]? = some value ∧
        IsNearest value.toNat
          (255 * (image.layout .gray).sampleAt shortWords.data x 0 (channel % 1) / (2 ^ 16 - 1 : Nat)) := by
  obtain ⟨image, read⟩ : ∃ image, ofStream shortWords = .ok image := ⟨_, rfl⟩
  have drawn : image.pixels.toOption = some ⟨2, 1, [Rgb.ofGray 128, Rgb.ofGray 1]⟩ := by
    cases read
    decide +kernel
  have drawn := eq_ok_of_toOption drawn
  cases read
  obtain ⟨_, _, _, channels⟩ := device_samples_are_scaled_exactly rfl rfl rfl (.inl rfl) drawn
  refine ⟨_, rfl, drawn, ?_⟩
  intro x inside
  obtain ⟨color, there, each⟩ := channels x inside 0 (by decide)
  refine ⟨color, there, ?_⟩
  intro channel isChannel
  obtain ⟨value, isValue, nearest, _⟩ := each channel isChannel
  exact ⟨value, isValue, nearest⟩

end Image

end PdfCanvas
