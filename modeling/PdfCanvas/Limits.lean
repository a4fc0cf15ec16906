/-!
# Options

How a page is opened for drawing, how many places real operands keep, and how far data may expand when
it is decoded.
-/

namespace PdfCanvas

/-- How a drawing session treats what the page already shows. -/
structure SessionOptions where
  /-- Keep the present content and draw after it. -/
  append : Bool
  /-- Deflate the streams that the session adds. -/
  compress : Bool
  /-- Bracket the present content so that drawing starts from the initial graphics state. -/
  resetContext : Bool
  deriving DecidableEq, Repr

namespace SessionOptions

/-- Replaces the content. -/
def overwrite : SessionOptions := ⟨false, false, false⟩

/-- Adds to the content. -/
def appending : SessionOptions := ⟨true, false, false⟩

end SessionOptions

/-- The fraction digits that a real operand keeps unless asked otherwise. -/
def defaultPlaces : Nat := 10

/-- Limits on decoded data; a limit of zero is no limit. -/
structure DecodeLimits where
  /-- The greatest ratio of decoded to encoded size. -/
  ratio : Nat
  /-- The greatest decoded size in bytes. -/
  size : Nat
  deriving DecidableEq, Repr

namespace DecodeLimits

/-- A hundredfold expansion and a hundred mebibytes. -/
def standard : DecodeLimits := ⟨100, 100 * 1024 * 1024⟩

def unlimited : DecodeLimits := ⟨0, 0⟩

end DecodeLimits

end PdfCanvas
