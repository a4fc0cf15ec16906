import PdfCanvas.Bytes

/-!
# Rasters

A raster is a grid of pixels, row by row from the top.
-/

namespace PdfCanvas

structure Raster (α : Type) where
  width : Nat
  height : Nat
  pixels : List α
  deriving DecidableEq, Repr

namespace Raster

/-- The raster with a pixel for each column and row. -/
def ofFn {α : Type} (width height : Nat) (pixel : (x y : Nat) → α) : Raster α :=
  ⟨width, height,
    (List.range height).flatMap fun y => (List.range width).map fun x => pixel x y⟩

def map {α β : Type} (f : α → β) (r : Raster α) : Raster β :=
  ⟨r.width, r.height, r.pixels.map f⟩

end Raster

/-- A pixel of three channels. -/
structure Rgb where
  red : UInt8
  green : UInt8
  blue : UInt8
  deriving DecidableEq, Repr

namespace Rgb

/-- A gray pixel. -/
def ofGray (value : UInt8) : Rgb := ⟨value, value, value⟩

def bytes (p : Rgb) : Bytes := [p.red, p.green, p.blue]

/-- The brightness of a pixel: weights of ten thousandths, rounded down. -/
def luma (p : Rgb) : UInt8 :=
  ((2126 * p.red.toNat + 7152 * p.green.toNat + 722 * p.blue.toNat) / 10000).toUInt8

end Rgb

/-- A pixel of three channels and an opacity. -/
structure Rgba where
  color : Rgb
  alpha : UInt8
  deriving DecidableEq, Repr

namespace Rgba

def bytes (p : Rgba) : Bytes := p.color.bytes ++ [p.alpha]

end Rgba

/-- A decoded image, without or with opacity. -/
inductive Picture where
  | rgb (raster : Raster Rgb)
  | rgba (raster : Raster Rgba)
  deriving DecidableEq, Repr

end PdfCanvas
