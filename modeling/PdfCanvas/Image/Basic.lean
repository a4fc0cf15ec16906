import PdfCanvas.ColorSpace
import PdfCanvas.Limits

/-!
# Images

What the dictionary of an image stream says about it: size, depth, decode array and masks. A mask
stream is an image of its own, with its own decode limits.
-/

namespace PdfCanvas

/-- An image stream and what its dictionary says. -/
structure Image where
  stream : Stream
  /-- The indirect object that the image is, if it is one. -/
  target : Option Ref
  width : Nat
  height : Nat
  /-- Bits of one sample. -/
  bits : Nat
  isStencil : Bool
  interpolate : Bool
  decodeArray : Option (List Single)
  softMask : Option Image
  mask : Option Image
  /-- Ranges of sample values, one for each component, that are not painted. -/
  colorKey : Option (List (Nat × Nat))
  limits : DecodeLimits

namespace Image

/-- What a mask entry of an image dictionary holds. -/
inductive MaskSource where
  | absent
  | image (image : Image)
  | colorKey (ranges : List (Nat × Nat))

/-- A size that is present and fits 32 bits; zero is not a size. -/
def dimension (s : Stream) (key abbreviation : String) : Except Error Nat :=
  match (s.getAny? [key, abbreviation]).bind Object.integer? with
  | none => .error (.format (.noDimension key))
  | some value =>
    if 0 < value ∧ value < 0x100000000 then .ok value.toNat
    else .error (.format (.badDimension key value))

/-- A flag, off unless it is there. -/
def flag (s : Stream) (key abbreviation : String) : Bool :=
  ((s.getAny? [key, abbreviation]).bind Object.boolean?).getD false

/-- One bound of a colour key. -/
def colorKeyBound (object : Object) : Except Error Nat :=
  match object.integer? with
  | some value =>
    if 0 ≤ value ∧ value < 0x100000000 then .ok value.toNat else .error (.format .colorKeyEntry)
  | none => .error (.format .colorKeyEntry)

/-- Neighbours in pairs; a last one that is left over is dropped. -/
def pairs {α : Type} : List α → List (α × α)
  | first :: second :: rest => (first, second) :: pairs rest
  | _ => []

/-- The ranges of a colour key array. -/
def colorKeyRanges (items : List Object) : Except Error (List (Nat × Nat)) := do
  let bounds ← items.mapM colorKeyBound
  if bounds.length % 2 = 0 then return pairs bounds
  else throw (.format (.colorKeyCount bounds.length))

/-- An image without its masks. -/
def ofHeader (s : Stream) : Except Error Image := do
  let width ← dimension s "Width" "W"
  let height ← dimension s "Height" "H"
  let isStencil := flag s "ImageMask" "IM"
  let depth := ((s.getAny? ["BitsPerComponent", "BPC"]).bind Object.integer?).getD 8
  return {
    stream := s
    target := none
    width
    height
    bits := if isStencil then 1 else (ColorSpace.clampByte 1 16 depth).toNat
    isStencil
    interpolate := flag s "Interpolate" "I"
    decodeArray := ((s.getAny? ["Decode", "D"]).bind Object.array?).map fun items =>
      (items.filterMap Object.number?).map Floating.convert
    softMask := none
    mask := none
    colorKey := none
    limits := .standard }

/-- An image with the masks that its dictionary gives. -/
def ofParts (s : Stream) (softMask mask : Except Error MaskSource) : Except Error Image := do
  let image ← ofHeader s
  let image :=
    match ← softMask with
    | .image softMask => { image with softMask := some softMask }
    | _ => image
  match ← mask with
  | .image mask => return { image with mask := some mask }
  | .colorKey ranges => return { image with colorKey := some ranges }
  | .absent => return image

mutual

/-- Reads a mask entry. References and null stand for no mask; an array is a colour key where one is
allowed. -/
def maskOfObject (key : String) (allowsColorKey : Bool) : Object → Except Error MaskSource
  | .stream entries data =>
    .image <$>
      ofParts ⟨entries, data⟩ (maskOfEntries "SMask" false entries)
        (maskOfEntries "Mask" true entries)
  | .reference _ => .ok .absent
  | .null => .ok .absent
  | .array items =>
    if allowsColorKey then .colorKey <$> colorKeyRanges items
    else .error (.format (.maskType key "Array"))
  | other => .error (.format (.maskType key other.typeName))
  termination_by structural object => object

/-- Reads the mask entry with a key, if there is one. -/
def maskOfEntries (key : String) (allowsColorKey : Bool) :
    List (String × Object) → Except Error MaskSource
  | [] => .ok .absent
  | entry :: rest =>
    if entry.1 = key then maskOfEntry key allowsColorKey entry
    else maskOfEntries key allowsColorKey rest
  termination_by structural entries => entries

def maskOfEntry (key : String) (allowsColorKey : Bool) : String × Object → Except Error MaskSource
  | (_, value) => maskOfObject key allowsColorKey value
  termination_by structural entry => entry

end

/-- Reads an image stream. -/
def ofStream (s : Stream) : Except Error Image :=
  ofParts s (maskOfEntries "SMask" false s.entries) (maskOfEntries "Mask" true s.entries)

def withTarget (image : Image) (target : Ref) : Image := { image with target := some target }

def withSoftMask (image softMask : Image) : Image := { image with softMask := some softMask }

/-- Gives the image an explicit mask, in place of a colour key. -/
def withMask (image mask : Image) : Image := { image with mask := some mask, colorKey := none }

/-- Sets the limits of the image itself; its masks keep theirs. -/
def withLimits (image : Image) (limits : DecodeLimits) : Image := { image with limits }

def metadata? (image : Image) : Option Object := image.stream.get? "Metadata"

def structParent? (image : Image) : Option Int :=
  (image.stream.get? "StructParent").bind Object.integer?

def filterNames (image : Image) : List String := image.stream.filterNames

/-- The object that an image is bound to in resources: its reference, or the stream itself. -/
def toObject (image : Image) : Object :=
  match image.target with
  | some target => .reference target
  | none => image.stream.toObject

/-- The colour space that the dictionary gives; a stencil without one is gray. -/
def colorSpace (image : Image) : Except Error ColorSpace :=
  match image.stream.getAny? ["ColorSpace", "CS"] with
  | some object => ColorSpace.ofObject object
  | none => if image.isStencil then .ok .gray else .error (.format .undeterminedSpace)

/-- The usual suffix of a file with the image data. -/
def suffix? (image : Image) : Option String :=
  let filters := image.filterNames
  let has (names : List String) := filters.any names.contains
  if has ["DCTDecode", "DCT"] then some "jpg"
  else if has ["JPXDecode"] then some "jpx"
  else if has ["CCITTFaxDecode", "CCF"] then some "tiff"
  else if filters.isEmpty ||
      has ["FlateDecode", "Fl", "LZWDecode", "LZW", "RunLengthDecode", "RL"] then some "png"
  else none

end Image

end PdfCanvas
