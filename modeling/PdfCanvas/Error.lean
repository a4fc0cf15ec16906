import PdfCanvas.Decimal
import PdfCanvas.Object

/-!
# Errors

Every error is a cause. The constructors of `Error` are the kinds a caller distinguishes; the wording
is in the `message` functions only.
-/

namespace PdfCanvas

/-- A drawing call at a place where the page grammar does not allow it. -/
inductive SequenceFault where
  | nestedText
  | textNotOpen
  | insideText (operation : String)
  | outsideText (operation : String)
  | noFont
  | textLeftOpen
  deriving DecidableEq

/-- An operand that has no written form or that its operator does not allow. -/
inductive ValueFault where
  | notFinite (value : Single)
  | unknownStyle (style : String) (value : Int)
  | levelOutOfRange (color : String) (value : Int)
  | unitOutOfRange (color : String) (value : Single)
  deriving DecidableEq

/-- Input whose parts do not fit together. -/
inductive FormatFault where
  | coordinateCounts (xs ys : Nat)
  | componentCount (space : String) (expected actual : Nat)
  | unresolvedSpace (target : Ref)
  | spaceType (typeName : String)
  | unknownSpace (name : String)
  | noFamily
  | missingItem (family : String) (index : Nat)
  | paletteLimitType
  | paletteType (typeName : String)
  | profileWithoutCount
  | unresolvedProfile (target : Ref)
  | profileType (typeName : String)
  | colorantType
  | colorantsType
  | noColorants
  | noDimension (key : String)
  | badDimension (key : String) (value : Int)
  | maskType (key typeName : String)
  | colorKeyEntry
  | colorKeyCount (count : Nat)
  | undeterminedSpace
  | sampleDepth (bits : Nat)
  | imageTooLarge (width height components bits : Nat)
  | patternSamples
  | patternColor
  | paletteEntry (index : Nat)
  | profileCount (components : Nat)
  deriving DecidableEq

/-- A sink that does not take what is written to it. -/
inductive SinkFault where
  | full
  | flushRefused
  deriving DecidableEq

/-- A character that a font cannot show. -/
inductive FontFault where
  | notInWinAnsi (char : Char)
  | noGlyph (char : Char)
  deriving DecidableEq

/-- Why deflated data could not be inflated. -/
inductive InflateFault where
  | corrupt
  | incomplete
  deriving DecidableEq

/-- Data that a filter or a limit refuses. -/
inductive DecodeFault where
  | ratioLimit (ratio limit encoded decoded : Nat)
  | sizeLimit (decoded limit : Nat)
  | imageLimit (width height needed limit : Nat)
  | hexDigit (byte : UInt8)
  | literalRun (needed left : Nat)
  | repeatedByte
  | codeTable
  | inflate (wrapped raw : InflateFault)
  | rowTooLarge (columns colors bits : Nat)
  | differencingDepth (bits : Nat)
  | rowTag (tag : Nat)
  | unknownPredictor (predictor : Int)
  deriving DecidableEq

/-- A step that has no result on the machine: it is a defect if one is reached. -/
inductive Abort where
  | emptyChunk
  | indexOutOfRange
  | overflow
  deriving DecidableEq

inductive Error where
  | sequence (fault : SequenceFault)
  | unsupportedValue (fault : ValueFault)
  | format (fault : FormatFault)
  | write (fault : SinkFault)
  | font (fault : FontFault)
  | decode (fault : DecodeFault)
  | unsupportedFilter (name : String)
  | picture
  | abort (cause : Abort)
  deriving DecidableEq

/-- A code point as it is written in messages. -/
def codePointText (c : Char) : String :=
  let digits := (Nat.toDigits 16 c.toNat).map Char.toUpper
  String.ofList ('U' :: '+' :: List.replicate (4 - digits.length) '0' ++ digits)

def SequenceFault.message : SequenceFault → String
  | .nestedText => "nested beginText"
  | .textNotOpen => "endText without a matching beginText"
  | .insideText operation => s!"{operation} is not allowed within a text block"
  | .outsideText operation => s!"must call beginText before {operation}"
  | .noFont => "must call setFont before showText"
  | .textLeftOpen => "content stream closed inside a text object"

def ValueFault.message : ValueFault → String
  | .notFinite value => s!"non-finite operand {value.text}"
  | .unknownStyle style value => s!"unknown value for {style}: {value}"
  | .levelOutOfRange color value => s!"{color} component {value} is outside 0..255"
  | .unitOutOfRange color value => s!"{color} component {value.text} is outside 0..1"

def FormatFault.message : FormatFault → String
  | .coordinateCounts xs ys =>
    s!"some points are missing coordinates: {xs} x values, {ys} y values"
  | .componentCount space expected actual =>
    s!"{space} color needs {expected} components, got {actual}"
  | .unresolvedSpace target => s!"color space reference {target.text} must be resolved first"
  | .spaceType typeName => s!"invalid color space object: {typeName}"
  | .unknownSpace name => s!"unsupported color space: {name}"
  | .noFamily => "color space array without family name"
  | .missingItem family index => s!"{family} color space array is missing entry {index}"
  | .paletteLimitType => "Indexed hival is not an integer"
  | .paletteType typeName => s!"Indexed lookup must be a string or stream, found {typeName}"
  | .profileWithoutCount => "ICCBased profile without /N"
  | .unresolvedProfile target => s!"ICCBased profile reference {target.text} must be resolved first"
  | .profileType typeName => s!"invalid ICCBased profile: {typeName}"
  | .colorantType => "Separation colorant is not a name"
  | .colorantsType => "DeviceN names is not an array"
  | .noColorants => "DeviceN without colorants"
  | .noDimension key => s!"image without /{key}"
  | .badDimension key value => s!"invalid image /{key}: {value}"
  | .maskType key typeName => s!"invalid /{key}: {typeName}"
  | .colorKeyEntry => "color key mask entries must be non-negative integers"
  | .colorKeyCount count => s!"color key mask needs min/max pairs, got {count} values"
  | .undeterminedSpace => "color space undetermined"
  | .sampleDepth bits => s!"unsupported bits per component: {bits}"
  | .imageTooLarge width height components bits =>
    s!"image of {width}x{height} with {components} components at {bits} bpc is too large"
  | .patternSamples => "Pattern color space cannot be used for image samples"
  | .patternColor => "Pattern color space has no color values"
  | .paletteEntry index => s!"Indexed lookup table has no entry {index}"
  | .profileCount components => s!"ICCBased profile with {components} components"

def SinkFault.message : SinkFault → String
  | .full => "disk full"
  | .flushRefused => "flush failed"

def FontFault.message : FontFault → String
  | .notInWinAnsi char => s!"{codePointText char} ('{char}') is not available in WinAnsiEncoding"
  | .noGlyph char => s!"no glyph for {codePointText char} ('{char}')"

def InflateFault.message : InflateFault → String
  | .corrupt => "corrupt deflate stream"
  | .incomplete => "incomplete deflate stream"

def DecodeFault.message : DecodeFault → String
  | .ratioLimit ratio limit encoded decoded =>
    s!"Decompression bomb detected: ratio {ratio}:1 exceeds limit {limit}:1 " ++
      s!"(compressed: {encoded} bytes, decompressed: {decoded} bytes)"
  | .sizeLimit decoded limit =>
    s!"Decompression bomb detected: decompressed size {decoded} bytes exceeds limit {limit} bytes"
  | .imageLimit width height needed limit =>
    s!"Decompression bomb detected: {width}x{height} image needs {needed} bytes, " ++
      s!"limit is {limit} bytes"
  | .hexDigit byte => s!"ASCIIHexDecode: invalid hex digit '{Char.ofNat byte.toNat}'"
  | .literalRun needed left => s!"RunLengthDecode: literal run needs {needed} bytes, {left} left"
  | .repeatedByte => "RunLengthDecode: missing byte for run"
  | .codeTable => "LZWDecode error: InvalidCode"
  | .inflate wrapped raw =>
    s!"FlateDecode failed: zlib: {wrapped.message}, deflate: {raw.message}"
  | .rowTooLarge columns colors bits =>
    s!"Predictor row of {columns} columns, {colors} colors at {bits} bits does not fit in memory"
  | .differencingDepth bits => s!"TIFF predictor with {bits} bits per component is not supported"
  | .rowTag tag => s!"Invalid PNG predictor tag: {tag}"
  | .unknownPredictor predictor => s!"Unsupported predictor: {predictor}"

/-- The text shown for an error: the kind in words, then the cause. -/
def Error.message : Error → String
  | .sequence fault => "Sequence error: " ++ fault.message
  | .unsupportedValue fault => "Unsupported value: " ++ fault.message
  | .format fault => "Format error: " ++ fault.message
  | .write fault => "Write failure: " ++ fault.message
  | .font fault => "Font error: " ++ fault.message
  | .decode fault => "Stream decoding error: " ++ fault.message
  | .unsupportedFilter name => "Unsupported filter: " ++ name
  | .picture => "Image error"
  | .abort _ => "no result"

end PdfCanvas
