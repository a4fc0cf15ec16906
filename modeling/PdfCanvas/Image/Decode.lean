import PdfCanvas.Filter
import PdfCanvas.Image.Basic
import PdfCanvas.Image.Mask
import PdfCanvas.Image.Samples

/-!
# Decoding images

From the stream of an image to its pixels: the filters are undone, samples become colours, and the mask
that counts becomes the opacity. Of several masks the soft mask counts, then the explicit one, then the
colour key.

An image in use keeps its colour space and its picture once they were asked for, so what decodes an image
is told where the colour space comes from.
-/

namespace PdfCanvas.Image

/-- Whether the last filter leaves a JPEG picture. -/
def isJpeg (image : Image) : Bool :=
  match image.filterNames.getLast? with
  | some name => Filter.ofName? name = some .dct
  | none => false

/-- The decode parameters that the dictionary gives: those in the dictionary, or in the first dictionary
of an array. -/
def decodeParams? (image : Image) : Option DecodeParams :=
  match image.stream.getAny? ["DecodeParms", "DP"] with
  | some (.array items) => (items.find? (·.dictionary?.isSome)).map DecodeParams.ofObject
  | some (.dictionary entries) => some (DecodeParams.ofObject (.dictionary entries))
  | _ => none

/-- The data of the stream after the filters with the given names. -/
def filteredData (image : Image) (names : List String) : Except Error Bytes :=
  decodeStream image.stream.data names image.decodeParams? image.limits

/-- The layout of samples in a colour space. -/
def layout (image : Image) (space : ColorSpace) : SampleLayout :=
  ⟨image.width, image.height, max space.components 1, image.bits⟩

/-- The samples of the image, with their layout in a colour space. -/
def rawSamplesIn (image : Image) (asked : Except Error ColorSpace) :
    Except Error (List Nat × SampleLayout) := do
  let space ← asked
  let layout := image.layout space
  let _ ← layout.checkSize image.limits
  let data ← image.filteredData image.filterNames
  let samples ← Samples.unpack data layout image.limits
  return (samples, layout)

/-- The range of each component: from the decode array if it has one for each, else the default. -/
def decodeRanges (image : Image) (space : ColorSpace) : List (Single × Single) :=
  let components := max space.components 1
  match image.decodeArray with
  | some bounds =>
    if bounds.length = 2 * components then pairs bounds
    else List.replicate components (space.defaultRange image.bits)
  | none => List.replicate components (space.defaultRange image.bits)

/-- The picture that a JPEG image is, in its own size. -/
def jpegPixels (image : Image) : Except Error (Raster Rgb) := do
  let data ← image.filteredData image.filterNames.dropLast
  return (← Jpeg.decode data).toRgb

/-- The pixels of the samples of an image in a colour space. -/
def samplePixelsIn (image : Image) (asked : Except Error ColorSpace) :
    Except Error (List Nat × SampleLayout × Raster Rgb) := do
  let (samples, layout) ← image.rawSamplesIn asked
  let space ← asked
  let pixels ← Samples.toRgb samples layout space (image.decodeRanges space)
  return (samples, layout, pixels)

/-- The pixels of an image in a colour space, without regard to masks. -/
def pixelsIn (image : Image) (asked : Except Error ColorSpace) : Except Error (Raster Rgb) :=
  if image.isJpeg then image.jpegPixels
  else do
    let (_, _, pixels) ← image.samplePixelsIn asked
    return pixels

/-- The values that an image has as a mask. -/
def maskValuesIn (image : Image) (asked : Except Error ColorSpace) : Except Error (Raster UInt8) := do
  return (← image.pixelsIn asked).map Rgb.luma

/-- The pixels of an image with a colour key, which a JPEG picture does not have. -/
def keyedPictureIn (image : Image) (asked : Except Error ColorSpace) (ranges : List (Nat × Nat)) :
    Except Error Picture := do
  if image.isJpeg then return .rgb (← image.pixelsIn asked)
  else
    let (samples, layout, pixels) ← image.samplePixelsIn asked
    return .rgba (Mask.applyColorKey pixels samples layout.components ranges)

/-- The pixels of an image with the opacity that its masks give, in a colour space of its own and colour
spaces of its masks. -/
def decodeIn (image : Image) (asked : Except Error ColorSpace)
    (ofSoftMask ofMask : Image → Except Error ColorSpace) : Except Error Picture :=
  match image.softMask, image.mask, image.colorKey with
  | some softMask, _, _ => do
    return .rgba (Mask.apply (← image.pixelsIn asked) (← softMask.maskValuesIn (ofSoftMask softMask))
      true)
  | none, some mask, _ => do
    return .rgba (Mask.apply (← image.pixelsIn asked) (← mask.maskValuesIn (ofMask mask)) false)
  | none, none, some ranges => image.keyedPictureIn asked ranges
  | none, none, none => do return .rgb (← image.pixelsIn asked)

/-! ### In the colour space that the dictionary gives -/

def rawSamples (image : Image) : Except Error (List Nat × SampleLayout) :=
  image.rawSamplesIn image.colorSpace

def samplePixels (image : Image) : Except Error (List Nat × SampleLayout × Raster Rgb) :=
  image.samplePixelsIn image.colorSpace

def pixels (image : Image) : Except Error (Raster Rgb) := image.pixelsIn image.colorSpace

def maskValues (image : Image) : Except Error (Raster UInt8) := image.maskValuesIn image.colorSpace

def keyedPicture (image : Image) (ranges : List (Nat × Nat)) : Except Error Picture :=
  image.keyedPictureIn image.colorSpace ranges

def decode (image : Image) : Except Error Picture :=
  image.decodeIn image.colorSpace colorSpace colorSpace

end PdfCanvas.Image

namespace PdfCanvas

/-- The colour space, which is not looked for again if it is kept. -/
def Image.colorSpaceFrom (image : Image) (kept : Option ColorSpace) : Except Error ColorSpace :=
  match kept with
  | some space => .ok space
  | none => image.colorSpace

/-- What is kept of the colour space when the pixels were asked for, for which a JPEG picture needs none.
A failure is not kept. -/
def Image.spaceKept (image : Image) (kept : Option ColorSpace) : Option ColorSpace :=
  if image.isJpeg then kept else (image.colorSpaceFrom kept).toOption

/-- An image in use: what was computed for it and for its masks is kept. -/
structure LoadedImage where
  image : Image
  /-- The colour space, once it was asked for. -/
  space : Option ColorSpace
  /-- The colour space of the soft mask, once it was asked for. -/
  softMaskSpace : Option ColorSpace
  /-- The colour space of the explicit mask, once it was asked for. -/
  maskSpace : Option ColorSpace
  /-- The decoded picture, once it was asked for. -/
  picture : Option Picture

namespace LoadedImage

/-- An image that nothing was computed for. -/
def ofImage (image : Image) : LoadedImage := ⟨image, none, none, none, none⟩

/-- The colour space; a failure is not kept. -/
def colorSpace (l : LoadedImage) : Except Error ColorSpace × LoadedImage :=
  let asked := l.image.colorSpaceFrom l.space
  (asked, { l with space := asked.toOption })

/-- What is kept when the pixels of the image were asked for, and then those of the mask that counts. -/
def keepSpaces (l : LoadedImage) : LoadedImage :=
  let drawn := l.image.pixelsIn (l.image.colorSpaceFrom l.space)
  let l := { l with space := l.image.spaceKept l.space }
  match drawn, l.image.softMask, l.image.mask with
  | .error _, _, _ => l
  | .ok _, some softMask, _ => { l with softMaskSpace := softMask.spaceKept l.softMaskSpace }
  | .ok _, none, some mask => { l with maskSpace := mask.spaceKept l.maskSpace }
  | .ok _, none, none => l

/-- The decoded picture; a failure is not kept. -/
def decode (l : LoadedImage) : Except Error Picture × LoadedImage :=
  match l.picture with
  | some picture => (.ok picture, l)
  | none =>
    let decoded := l.image.decodeIn (l.image.colorSpaceFrom l.space)
      (·.colorSpaceFrom l.softMaskSpace) (·.colorSpaceFrom l.maskSpace)
    (decoded, { l.keepSpaces with picture := decoded.toOption })

def withTarget (l : LoadedImage) (target : Ref) : LoadedImage :=
  { l with image := l.image.withTarget target }

/-- Sets the decode limits. What was decoded before is kept. -/
def withLimits (l : LoadedImage) (limits : DecodeLimits) : LoadedImage :=
  { l with image := l.image.withLimits limits }

/-- Gives the image a soft mask that may have been in use; the picture has to be decoded again. -/
def attachSoftMask (l softMask : LoadedImage) : LoadedImage :=
  { l with
    image := l.image.withSoftMask softMask.image
    softMaskSpace := softMask.space
    picture := none }

/-- Gives the image an explicit mask that may have been in use; the picture has to be decoded again. -/
def attachMask (l mask : LoadedImage) : LoadedImage :=
  { l with
    image := l.image.withMask mask.image
    maskSpace := mask.space
    picture := none }

/-- Gives the image a soft mask that was just read. -/
def withSoftMask (l : LoadedImage) (softMask : Image) : LoadedImage :=
  l.attachSoftMask (.ofImage softMask)

/-- Gives the image an explicit mask that was just read. -/
def withMask (l : LoadedImage) (mask : Image) : LoadedImage := l.attachMask (.ofImage mask)

end LoadedImage

end PdfCanvas
