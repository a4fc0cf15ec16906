import PdfCanvas.ColorSpace
import PdfCanvas.Limits
import PdfCanvas.Raster

/-!
# Samples

The samples of an image are numbers of 1, 2, 4, 8 or 16 bits, in rows that start on a byte. They are
mapped to the range that the image gives for each component, and from there to eight bit red, green and
blue. Sizes are held in 64 bit words.
-/

namespace PdfCanvas

/-- How the samples of an image are laid out. -/
structure SampleLayout where
  width : Nat
  height : Nat
  components : Nat
  bits : Nat
  deriving DecidableEq, Repr

namespace SampleLayout

/-- The size of a buffer is below this bound. -/
def bufferSize : Nat := 1 <<< 63

/-- A product that fits a word. -/
def checkedMul (l : SampleLayout) (a b : Nat) : Except Error Nat :=
  if a * b < wordSize then .ok (a * b)
  else .error (.format (.imageTooLarge l.width l.height l.components l.bits))

def samplesPerRow (l : SampleLayout) : Except Error Nat := l.checkedMul l.width l.components

/-- The bytes of a row. -/
def rowBytes (l : SampleLayout) : Except Error Nat := do
  let bits ← l.checkedMul (← l.samplesPerRow) l.bits
  return bytesOfBits bits

/-- The bytes of all rows. -/
def totalBytes (l : SampleLayout) : Except Error Nat := do
  l.checkedMul (← l.rowBytes) l.height

/-- The bytes of all rows, if they, the samples and the pixels fit in memory and the limit. -/
def checkSize (l : SampleLayout) (limits : DecodeLimits) : Except Error Nat := do
  let packed ← l.totalBytes
  let pixels := l.width * l.height
  if bufferSize ≤ max (2 * (pixels * l.components)) (4 * pixels) then
    throw (.format (.imageTooLarge l.width l.height l.components l.bits))
  if 0 < limits.size ∧ limits.size < packed then
    throw (.decode (.imageLimit l.width l.height packed limits.size))
  return packed

/-- The greatest sample. -/
def maxSample (l : SampleLayout) : Nat := 1 <<< l.bits - 1

end SampleLayout

namespace Samples

/-- The numbers of `bits` bits that a byte holds, the most significant first. -/
def fieldsOfByte (bits : Nat) (byte : UInt8) : List Nat :=
  (List.range (8 / bits)).map fun i => (byte.toNat >>> (8 - bits * (i + 1))) % (1 <<< bits)

/-- The samples of a row. A row too short for them has none. -/
def ofRow (bits count : Nat) (row : Bytes) : Except Error (List Nat) :=
  if row.length * 8 < count * bits then .error (.abort .indexOutOfRange)
  else if bits = 16 then .ok ((words row).take count)
  else if bits = 8 then .ok ((row.take count).map UInt8.toNat)
  else .ok ((row.flatMap (fieldsOfByte bits)).take count)

/-- Data cut off or filled up with zeros to a size. -/
def resize (size : Nat) (data : Bytes) : Bytes :=
  data.take size ++ List.replicate (size - data.length) 0

/-- The samples of packed data, row by row. Data that are short are filled up with zeros, data that are
left over are not looked at. -/
def unpack (data : Bytes) (layout : SampleLayout) (limits : DecodeLimits) :
    Except Error (List Nat) := do
  if layout.bits ∉ [1, 2, 4, 8, 16] then throw (.format (.sampleDepth layout.bits))
  let size ← layout.checkSize limits
  let rowBytes ← layout.rowBytes
  let count ← layout.samplesPerRow
  if wordSize ≤ count * layout.height then throw (.abort .overflow)
  let rows ← (wholePieces rowBytes (resize size data)).mapM (ofRow layout.bits count)
  return rows.flatten

end Samples

namespace ColorSpace

/-- A part of a colour as a number of eight bits. -/
def channel (value : Single) : UInt8 := ((value * Floating.ofNat 255).roundNat 255).toUInt8

/-- A component of a colour, within 0 and 1; one that is missing is zero. -/
def component (values : List Single) (index : Nat) : Single :=
  (values[index]?.getD .zero).clamp .zero .one

def grayToRgb (values : List Single) : Rgb := Rgb.ofGray (channel (component values 0))

def rgbToRgb (values : List Single) : Rgb :=
  ⟨channel (component values 0), channel (component values 1), channel (component values 2)⟩

/-- Each ink takes away its complementary colour, and black takes away all three. -/
def cmykToRgb (values : List Single) : Rgb :=
  let left := Floating.one - component values 3
  let part (index : Nat) : UInt8 := channel ((Floating.one - component values index) * left)
  ⟨part 0, part 1, part 2⟩

/-- The tint of several colorants is their mean, and the more there is the darker is the colour. -/
def tintToRgb (count : Nat) (values : List Single) : Rgb :=
  let sum := (List.range count).foldl (fun sum i => sum + component values i) Floating.zero
  Rgb.ofGray (channel (Floating.one - sum / Floating.ofNat (max count 1)))

/-- The pixel of a colour whose components are mapped to their ranges. An index is rounded to an entry of
the table; a profile is stood in for by its alternate, or by the device space of as many components. -/
def toRgb : ColorSpace → List Single → Except Error Rgb
  | .gray, values => .ok (grayToRgb values)
  | .rgb, values => .ok (rgbToRgb values)
  | .cmyk, values => .ok (cmykToRgb values)
  | .indexed base limit table, values =>
    let index := (values.headD .zero).roundNat limit.toNat
    let entry := (table.drop (index * base.components)).take base.components
    if table.length < (index + 1) * base.components then .error (.format (.paletteEntry index))
    else base.toRgb (entry.map fun byte => Floating.ofNat byte.toNat / Floating.ofNat 255)
  | .icc _ (some alternate) _, values => alternate.toRgb values
  | .icc components none _, values =>
    if components = 1 then .ok (grayToRgb values)
    else if components = 3 then .ok (rgbToRgb values)
    else if components = 4 then .ok (cmykToRgb values)
    else .error (.format (.profileCount components.toNat))
  | .separation .., values => .ok (tintToRgb 1 values)
  | .deviceN colorants _ _, values => .ok (tintToRgb colorants.length values)
  | .pattern _, _ => .error (.format .patternColor)
  termination_by structural space => space

/-- Whether the space gives no colour by itself. -/
def isPattern : ColorSpace → Bool
  | .pattern _ => true
  | _ => false

end ColorSpace

namespace Samples

/-- A sample mapped to a range, the greatest sample to its end. -/
def mapToRange (maxSample sample : Nat) (range : Single × Single) : Single :=
  range.1 + Floating.ofNat sample * (range.2 - range.1) / Floating.ofNat maxSample

/-- The pixels of samples in a colour space, with a range for each component. -/
def toRgb (samples : List Nat) (layout : SampleLayout) (space : ColorSpace)
    (ranges : List (Single × Single)) : Except Error (Raster Rgb) := do
  if space.isPattern then throw (.format .patternSamples)
  if layout.components = 0 then throw (.abort .emptyChunk)
  let pixels ← (wholePieces layout.components samples).mapM fun pixel =>
    space.toRgb (pixel.zipWith (mapToRange layout.maxSample) ranges)
  return ⟨layout.width, layout.height, pixels⟩

end Samples

end PdfCanvas
