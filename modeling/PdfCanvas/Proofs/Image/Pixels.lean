import PdfCanvas.Image.Decode
import PdfCanvas.Proofs.Image.Channels
import PdfCanvas.Proofs.Image.Samples

/-!
# Pixels

An image that gives pixels gives as many as its size says, whether they come from samples or from a JPEG
picture, and a raster that is brought to another size has that size.
-/

namespace PdfCanvas

namespace Raster

variable {α β : Type}

/-- There is a pixel for each column and row. -/
def IsFull (r : Raster α) : Prop := r.pixels.length = r.width * r.height

/-- The pixel at a column and row. -/
def pixel? (r : Raster α) (x y : Nat) : Option α :=
  if x < r.width then r.pixels[r.width * y + x]? else none

theorem pixel?_map (r : Raster α) (f : α → β) (x y : Nat) :
    (r.map f).pixel? x y = (r.pixel? x y).map f := by
  unfold pixel? map
  split
  · exact List.getElem?_map
  · rfl

theorem isFull_ofFn (width height : Nat) (pixel : Nat → Nat → α) :
    (ofFn width height pixel).IsFull := by
  have even : ∀ row ∈ (List.range height).map fun y => (List.range width).map fun x => pixel x y,
      row.length = width := by
    intro row member
    obtain ⟨y, _, rfl⟩ := List.mem_map.mp member
    rw [List.length_map, List.length_range]
  rw [IsFull, ofFn, List.flatMap_def, length_flatten_of_length even, List.length_map, List.length_range]

theorem IsFull.map {r : Raster α} (full : r.IsFull) (f : α → β) : (r.map f).IsFull := by
  rw [IsFull, Raster.map, List.length_map]
  exact full

end Raster

/-! ## Full rasters -/

namespace Resample

theorem isFull_resize {raster : Raster UInt8} (full : raster.IsFull) (width height : Nat) :
    (resize raster width height).IsFull := by
  unfold resize
  split
  · exact full
  · have even (rows : List (List Single)) :
        ∀ row ∈ rows.map fun row => (windows raster.width width).map (weigh row), row.length = width := by
      intro row member
      obtain ⟨source, _, rfl⟩ := List.mem_map.mp member
      rw [List.length_map, windows, List.length_map, List.length_range]
    rw [Raster.IsFull, List.length_map, List.flatMap_def, length_flatten_of_length (even _),
      List.length_map, List.length_map, windows, List.length_map, List.length_range]

theorem width_resize (raster : Raster UInt8) (width height : Nat) :
    (resize raster width height).width = width := by
  unfold resize
  split
  · rename_i same
    exact same.1
  · rfl

theorem height_resize (raster : Raster UInt8) (width height : Nat) :
    (resize raster width height).height = height := by
  unfold resize
  split
  · rename_i same
    exact same.2
  · rfl

theorem resize_same (raster : Raster UInt8) : resize raster raster.width raster.height = raster :=
  if_pos ⟨rfl, rfl⟩

end Resample

namespace Jpeg

theorem isFull_ofPlanes? {frame : Frame} {model : Option ColorModel} {planes : List (Plane × Spread)}
    {decoded : Decoded} (made : Decoded.ofPlanes? frame model planes = some decoded) :
    decoded.toRgb.IsFull := by
  unfold Decoded.ofPlanes? at made
  split at made
  · obtain rfl := Option.some.inj made
    exact (Raster.isFull_ofFn _ _ _).map _
  · obtain ⟨known, _, made⟩ := Option.bind_eq_some_iff.mp made
    obtain rfl := Option.some.inj made
    exact Raster.isFull_ofFn _ _ _
  · cases made

theorem isFull_decode {data : Bytes} {decoded : Decoded} (made : decode data = .ok decoded) :
    decoded.toRgb.IsFull := by
  unfold decode at made
  split at made
  · split at made
    · rename_i read
      obtain rfl := Except.ok.inj made
      obtain ⟨header, _, drawn⟩ := Option.bind_eq_some_iff.mp read
      obtain ⟨frame, _, drawn⟩ := Option.bind_eq_some_iff.mp drawn
      obtain ⟨planes, _, drawn⟩ := Option.bind_eq_some_iff.mp drawn
      exact isFull_ofPlanes? drawn
    · cases made
  · cases made

end Jpeg

/-! ## Colours of gray samples -/

namespace ColorSpace

theorem channel_of_byte (byte : Fin 256) :
    channel (component [Samples.mapToRange 255 byte.val (Floating.zero, Floating.one)] 0) =
      byte.val.toUInt8 := by
  have scaled := (Samples.scaled_of_factor (by decide : 255 * 1 = 255) (Nat.le_of_lt_succ byte.isLt)).1
  rwa [Nat.one_mul] at scaled

theorem channel_of_bit (bit : Fin 2) :
    channel (component [Samples.mapToRange 1 bit.val (Floating.zero, Floating.one)] 0) =
      (255 * bit.val).toUInt8 :=
  (Samples.scaled_of_factor (by decide : 1 * 255 = 255) (Nat.le_of_lt_succ bit.isLt)).1

end ColorSpace

theorem Rgb.luma_ofGray (value : UInt8) : (Rgb.ofGray value).luma = value := by
  have mean : (2126 * value.toNat + 7152 * value.toNat + 722 * value.toNat) / 10000 = value.toNat := by
    omega
  rw [Rgb.ofGray, Rgb.luma, mean]
  exact UInt8.ofNat_toNat

namespace Samples

variable {samples : List Nat} {layout : SampleLayout} {space : ColorSpace}
  {ranges : List (Single × Single)} {raster : Raster Rgb}

/-- Each pixel is the colour of its own samples. -/
theorem of_toRgb (painted : toRgb samples layout space ranges = .ok raster) :
    layout.components ≠ 0 ∧ raster.width = layout.width ∧ raster.height = layout.height ∧
      (wholePieces layout.components samples).map
        (fun pixel => space.toRgb (pixel.zipWith (mapToRange layout.maxSample) ranges)) =
          raster.pixels.map .ok := by
  rw [toRgb] at painted
  obtain ⟨_, painted⟩ := unless_eq_ok.mp painted
  obtain ⟨some, painted⟩ := unless_eq_ok.mp painted
  obtain ⟨pixels, made, whole⟩ := bind_eq_ok.mp painted
  obtain rfl := Except.ok.inj whole
  exact ⟨some, rfl, rfl, mapM_eq_ok.mp made⟩

theorem length_pixels_of_toRgb (painted : toRgb samples layout space ranges = .ok raster) :
    (wholePieces layout.components samples).length = raster.pixels.length := by
  obtain ⟨_, _, _, made⟩ := of_toRgb painted
  simpa using congrArg List.length made

theorem isFull_toRgb (painted : toRgb samples layout space ranges = .ok raster)
    (length : samples.length = layout.width * layout.components * layout.height) : raster.IsFull := by
  obtain ⟨some, width, height, _⟩ := of_toRgb painted
  have whole : samples.length = layout.components * (layout.width * layout.height) := by
    rw [length, Nat.mul_comm layout.width, Nat.mul_assoc]
  have count := length_pixels_of_toRgb painted
  have positive := Nat.pos_of_ne_zero some
  rw [length_wholePieces positive, whole, Nat.mul_div_cancel_left _ positive] at count
  rw [Raster.IsFull, ← count, width, height]

/-- A pixel is the colour of the samples that stand where it does. -/
theorem pixel?_of_toRgb (painted : toRgb samples layout space ranges = .ok raster)
    (length : samples.length = layout.width * layout.components * layout.height) {x y : Nat}
    (inside : x < layout.width) (below : y < layout.height) :
    ∃ color, raster.pixel? x y = some color ∧
      space.toRgb ((layout.pixelAt samples x y).zipWith (mapToRange layout.maxSample) ranges) =
        .ok color := by
  obtain ⟨some, width, _, made⟩ := of_toRgb painted
  have there := congrArg (·[layout.width * y + x]?) made
  simp only [List.getElem?_map, Option.map_some,
    SampleLayout.getElem?_pixels (Nat.pos_of_ne_zero some) length inside below] at there
  obtain ⟨color, found, colored⟩ := Option.map_eq_some_iff.mp there.symm
  refine ⟨color, ?_, colored.symm⟩
  rw [Raster.pixel?, width, if_pos inside, found]

/-- The samples of some pixel have no colour if those of all pixels together have none. -/
theorem fault_of_toRgb (drawable : space.isPattern = false) (some : layout.components ≠ 0)
    (length : samples.length = layout.width * layout.components * layout.height) {e : Error}
    (refused : toRgb samples layout space ranges = .error e) :
    ∃ x < layout.width, ∃ y < layout.height,
      space.toRgb ((layout.pixelAt samples x y).zipWith (mapToRange layout.maxSample) ranges) =
        .error e := by
  rw [toRgb, drawable, if_neg Bool.false_ne_true, if_neg some] at refused
  rcases bind_eq_error.mp refused with failed | ⟨_, _, made⟩
  · obtain ⟨pixel, member, fault⟩ := of_mapM_eq_error failed
    obtain ⟨x, inside, y, below, rfl⟩ :=
      SampleLayout.exists_pixelAt (Nat.pos_of_ne_zero some) length member
    exact ⟨x, inside, y, below, fault⟩
  · cases made

theorem pixels_of_gray (single : layout.components = 1)
    (painted : toRgb samples layout .gray [(Floating.zero, Floating.one)] = .ok raster) :
    raster.pixels = samples.map fun sample => Rgb.ofGray (ColorSpace.channel
      (ColorSpace.component [mapToRange layout.maxSample sample (Floating.zero, Floating.one)] 0)) := by
  obtain ⟨_, _, _, made⟩ := of_toRgb painted
  rw [single, wholePieces_one, List.map_map] at made
  symm
  apply (List.map_inj_right fun _ _ => Except.ok.inj).mp
  rw [← made, List.map_map]
  rfl

end Samples

/-! ## Pixels of an image -/

namespace Image

variable {image : Image}

theorem of_samplePixels {samples : List Nat} {layout : SampleLayout} {raster : Raster Rgb}
    (made : image.samplePixels = .ok (samples, layout, raster)) :
    ∃ space data, image.colorSpace = .ok space ∧ layout = image.layout space ∧
      image.filteredData image.filterNames = .ok data ∧
      Samples.unpack data layout image.limits = .ok samples ∧
      Samples.toRgb samples layout space (image.decodeRanges space) = .ok raster := by
  obtain ⟨⟨raw, shape⟩, sampled, made⟩ := bind_eq_ok.mp made
  obtain ⟨space, known, made⟩ := bind_eq_ok.mp made
  obtain ⟨pixels, painted, whole⟩ := bind_eq_ok.mp made
  obtain ⟨same, knownSame, sampled⟩ := bind_eq_ok.mp sampled
  obtain ⟨size, _, sampled⟩ := bind_eq_ok.mp sampled
  obtain ⟨data, filtered, sampled⟩ := bind_eq_ok.mp sampled
  obtain ⟨unpacked, unpacks, made⟩ := bind_eq_ok.mp sampled
  cases known.symm.trans knownSame
  cases made
  cases whole
  exact ⟨space, data, known, rfl, filtered, unpacks, painted⟩

theorem pixels_of_sampled (sampled : image.isJpeg = false) {colors : Raster Rgb} :
    image.pixels = .ok colors ↔ ∃ samples layout, image.samplePixels = .ok (samples, layout, colors) := by
  rw [pixels, pixelsIn, sampled, if_neg Bool.false_ne_true, bind_eq_ok]
  constructor
  · rintro ⟨⟨samples, layout, made⟩, ran, whole⟩
    cases whole
    exact ⟨samples, layout, ran⟩
  · rintro ⟨samples, layout, ran⟩
    exact ⟨_, ran, rfl⟩

theorem size_of_pixels (sampled : image.isJpeg = false) {colors : Raster Rgb}
    (made : image.pixels = .ok colors) :
    colors.IsFull ∧ colors.width = image.width ∧ colors.height = image.height := by
  obtain ⟨samples, layout, made⟩ := (pixels_of_sampled sampled).mp made
  obtain ⟨space, data, _, rfl, _, unpacked, painted⟩ := of_samplePixels made
  obtain ⟨_, width, height, _⟩ := Samples.of_toRgb painted
  exact ⟨Samples.isFull_toRgb painted (Samples.length_unpack unpacked), width, height⟩

/-- Also the pixels of a JPEG picture fill the size that the picture gives. -/
theorem isFull_pixels {colors : Raster Rgb} (made : image.pixels = .ok colors) : colors.IsFull := by
  by_cases jpeg : image.isJpeg = true
  · rw [pixels, pixelsIn, if_pos jpeg] at made
    obtain ⟨data, _, made⟩ := bind_eq_ok.mp made
    obtain ⟨decoded, decodes, whole⟩ := bind_eq_ok.mp made
    obtain rfl := Except.ok.inj whole
    exact Jpeg.isFull_decode decodes
  · exact (size_of_pixels (Bool.eq_false_iff.mpr jpeg) made).1

end Image

end PdfCanvas
