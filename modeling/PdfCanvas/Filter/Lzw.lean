import PdfCanvas.Error
import PdfCanvas.Filter.Lzw.Page

/-!
# LZW data

The strings of the codes in data, one after the other (`Lzw.readCodes`), if they can be written to pages
(`Lzw.Page.accepts`). Writers disagree on the moment at which codes get one bit longer, so data that
cannot be read with one variant are read with the other.
-/

namespace PdfCanvas.Lzw

/-- Decodes data of one variant. -/
def decodeVariant (early : Bool) (data : Bytes) : Option Bytes := do
  let count := 8 * data.length
  let readings ← readCodes early (count + 1) count .cleared (Bits.highFirst data)
  if Page.accepts none readings then
    return readings.flatMap fun reading => reading.string.getD []
  else none

/-- Decodes data of a variant, or of the other one if they cannot be read as that. -/
def decode (early : Bool) (data : Bytes) : Except Error Bytes :=
  match decodeVariant early data with
  | some bytes => .ok bytes
  | none =>
    match decodeVariant (!early) data with
    | some bytes => .ok bytes
    | none => .error (.decode .codeTable)

end PdfCanvas.Lzw
