import PdfCanvas.Filter.AsciiHex
import PdfCanvas.Filter.Flate
import PdfCanvas.Filter.Jpeg
import PdfCanvas.Filter.Lzw
import PdfCanvas.Filter.Predictor
import PdfCanvas.Filter.RunLength
import PdfCanvas.Limits

/-!
# Filters

The data of a stream pass through the filters that its dictionary names, in that order. After each one the
size is held against the limits, in proportion to the data that the first filter was given.
-/

namespace PdfCanvas

inductive Filter where
  | flate
  | lzw
  | runLength
  | asciiHex
  | dct
  | jpx
  | ccittFax
  | jbig2
  deriving DecidableEq, Repr

namespace Filter

def name : Filter → String
  | .flate => "FlateDecode"
  | .lzw => "LZWDecode"
  | .runLength => "RunLengthDecode"
  | .asciiHex => "ASCIIHexDecode"
  | .dct => "DCTDecode"
  | .jpx => "JPXDecode"
  | .ccittFax => "CCITTFaxDecode"
  | .jbig2 => "JBIG2Decode"

/-- The filter with a name or an abbreviation. -/
def ofName? (name : String) : Option Filter :=
  if name = "FlateDecode" ∨ name = "Fl" then some .flate
  else if name = "LZWDecode" ∨ name = "LZW" then some .lzw
  else if name = "RunLengthDecode" ∨ name = "RL" then some .runLength
  else if name = "ASCIIHexDecode" ∨ name = "AHx" then some .asciiHex
  else if name = "DCTDecode" ∨ name = "DCT" then some .dct
  else if name = "JPXDecode" then some .jpx
  else if name = "CCITTFaxDecode" ∨ name = "CCF" then some .ccittFax
  else if name = "JBIG2Decode" then some .jbig2
  else none

/-- Whether a predictor may have been applied before the data were encoded. -/
def usesPredictor : Filter → Bool
  | .flate | .lzw => true
  | _ => false

/-- Decodes data of one filter, without regard to predictors. Some filters are known by name only. -/
def decode (filter : Filter) (earlyChange : Bool) (data : Bytes) : Except Error Bytes :=
  match filter with
  | .flate => Flate.decode data
  | .lzw => Lzw.decode earlyChange data
  | .runLength => RunLength.decode data
  | .asciiHex => AsciiHex.decode data
  | .dct => Jpeg.Decoded.samples <$> Jpeg.decode data
  | .jpx | .ccittFax | .jbig2 => .error (.unsupportedFilter filter.name)

/-- Undoes the predictor after a filter that may have one. -/
def undoPredictor (filter : Filter) (params : Option DecodeParams) (data : Bytes) :
    Except Error Bytes :=
  match params with
  | some params =>
    if filter.usesPredictor && params.predictor != 1 then Predictor.undo params data else .ok data
  | none => .ok data

end Filter

namespace DecodeLimits

/-- Refuses decoded data that are too large in proportion to the encoded data, or too large at all. -/
def check (limits : DecodeLimits) (encoded decoded : Nat) : Except Error Unit :=
  let ratio := decoded / encoded
  if 0 < limits.ratio ∧ 0 < encoded ∧ limits.ratio < ratio then
    .error (.decode (.ratioLimit ratio limits.ratio encoded decoded))
  else if 0 < limits.size ∧ limits.size < decoded then
    .error (.decode (.sizeLimit decoded limits.size))
  else .ok ()

end DecodeLimits

/-- Passes data through one filter, given by name, and its predictor. -/
def decodeFilter (name : String) (params : Option DecodeParams) (data : Bytes) :
    Except Error Bytes :=
  match Filter.ofName? name with
  | none => .error (.unsupportedFilter name)
  | some filter => do
    let decoded ← filter.decode ((params.map (·.earlyChange)).getD true) data
    filter.undoPredictor params decoded

/-- Passes data through filters; `encoded` is the size of the data that the first one was given. -/
def decodeFilters (params : Option DecodeParams) (limits : DecodeLimits) (encoded : Nat) :
    List String → Bytes → Except Error Bytes
  | [], data => .ok data
  | name :: names, data => do
    let decoded ← decodeFilter name params data
    limits.check encoded decoded.length
    decodeFilters params limits encoded names decoded

/-- Decodes the data of a stream. One set of parameters serves all filters. -/
def decodeStream (data : Bytes) (names : List String) (params : Option DecodeParams)
    (limits : DecodeLimits) : Except Error Bytes :=
  decodeFilters params limits data.length names data

end PdfCanvas
