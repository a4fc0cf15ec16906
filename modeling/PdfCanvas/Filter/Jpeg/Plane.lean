import PdfCanvas.Filter.Jpeg.Block
import PdfCanvas.Raster

/-!
# Planes of JPEG pictures

A plane holds the samples of one component, in blocks that stand in the order in which a scan has coded
them: unit by unit, and in each unit row by row. Planes that have fewer samples than the picture has
pixels are spread over it, and three planes together give its colours.
-/

namespace PdfCanvas.Jpeg

/-- The samples of one component. -/
structure Plane where
  width : Nat
  height : Nat
  /-- The blocks of all components of a scan. -/
  blocks : Array Block
  /-- The units in a row. -/
  unitsAcross : Nat
  /-- The blocks of a unit. -/
  unitSize : Nat
  /-- The place of the first block of the component in a unit. -/
  first : Nat
  /-- The blocks across that a unit has of the component. -/
  across : Nat
  /-- The blocks down that a unit has of the component. -/
  down : Nat

namespace Plane

/-- The number of the block in a column and row of blocks. -/
def place (p : Plane) (column row : Nat) : Nat :=
  (row / p.down * p.unitsAcross + column / p.across) * p.unitSize + p.first +
    row % p.down * p.across + column % p.across

/-- The sample at a place within the plane. -/
def sample (p : Plane) (x y : Nat) : UInt8 :=
  (p.blocks[p.place (x / 8) (y / 8)]?.bind (·[8 * (y % 8) + x % 8]?)).getD 0

/-- The samples that a pixel lies between, out of `size` that each stand for `spread` pixels: the one that
stands for it, and the neighbour that it is closer to, if samples are mixed. -/
def neighbours (isSmooth : Bool) (spread size position : Nat) : Nat × Nat :=
  let near := position / spread
  let far :=
    if isSmooth ∧ spread = 2 then
      if position % 2 = 0 then near - 1 else min (near + 1) (size - 1)
    else near
  (near, far)

/-- The sample for a pixel of the picture, mixed three to one with its neighbour both ways. -/
def pixel (p : Plane) (spread : Spread) (x y : Nat) : UInt8 :=
  let (nearX, farX) := neighbours spread.isSmooth spread.across p.width x
  let (nearY, farY) := neighbours spread.isSmooth spread.down p.height y
  let column (x : Nat) : Nat := 3 * (p.sample x nearY).toNat + (p.sample x farY).toNat
  ((3 * column nearX + column farX + 8) / 16).toUInt8

end Plane

/-! ## Colours -/

/-- What the three components of a picture are. -/
inductive ColorModel where
  | rgb
  /-- The luminance and the differences of blue and red to it. -/
  | luminance
  deriving DecidableEq, Repr

/-- The distance of two samples in exact colour sums, which have twenty binary places. -/
def sampleStep : Int := 0x100000

/-- The sample nearest to an exact colour sum. -/
def nearestSample (sum : Int) : UInt8 :=
  (max 0 (min 255 ((sum + sampleStep / 2) / sampleStep))).toNat.toUInt8

/-- The colour of a luminance and two differences. -/
def exactColor (luminance blueness redness : UInt8) : Rgb :=
  let y : Int := luminance.toNat * sampleStep
  let cb : Int := blueness.toNat - 128
  let cr : Int := redness.toNat - 128
  ⟨nearestSample (y + 1470104 * cr), nearestSample (y - 360857 * cb - 748830 * cr),
    nearestSample (y + 1858077 * cb)⟩

/-- The colour of a luminance and two differences, computed in words. -/
def coarseColor (luminance blueness redness : UInt8) : Rgb :=
  let y := Word.ofInt (64 * luminance.toNat + 32)
  let cb := Word.ofInt (64 * (blueness.toNat - 128 : Int))
  let cr := Word.ofInt (64 * (redness.toNat - 128 : Int))
  ⟨(y + (cr.scale 13173 + cr)).toSample, (y - (cb.scale 11276 + cr.scale 23401)).toSample,
    (y + (cb.scale 25297 + cb)).toSample⟩

/-- The pixels at the start of a row of so many that are computed in words: all groups of eight except
the last. -/
def coarsePixels (width : Nat) : Nat := 8 * (width / 8 - 1)

namespace ColorModel

/-- The colour at column `x` of a row of `width` pixels. -/
def color (model : ColorModel) (width x : Nat) (a b c : UInt8) : Rgb :=
  match model with
  | .rgb => ⟨a, b, c⟩
  | .luminance => if x < coarsePixels width then coarseColor a b c else exactColor a b c

end ColorModel

/-- A picture, gray or in colour. -/
inductive Decoded where
  | gray (raster : Raster UInt8)
  | color (raster : Raster Rgb)

namespace Decoded

/-- The samples of a picture, one for each pixel if it is gray and three if not. -/
def samples : Decoded → Bytes
  | .gray raster => raster.pixels
  | .color raster => raster.pixels.flatMap Rgb.bytes

/-- The pixels of a picture. -/
def toRgb : Decoded → Raster Rgb
  | .gray raster => raster.map Rgb.ofGray
  | .color raster => raster

/-- The picture of a single plane or of three. -/
def ofPlanes? (frame : Frame) (model : Option ColorModel) : List (Plane × Spread) → Option Decoded
  | [(plane, _)] => some (.gray (Raster.ofFn frame.width frame.height plane.sample))
  | [(p, s), (q, t), (r, u)] => do
    let model ← model
    return .color (Raster.ofFn frame.width frame.height fun x y =>
      model.color frame.width x (p.pixel s x y) (q.pixel t x y) (r.pixel u x y))
  | _ => none

end Decoded

end PdfCanvas.Jpeg
