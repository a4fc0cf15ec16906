import PdfCanvas.Floating
import PdfCanvas.Raster

/-!
# Resampling

A raster of eight bit values is brought to another size by weighting the values around the place of each
new one, first in every column and then in every row. The weight falls off linearly with the distance, to
zero at one step, or at one new step if the raster shrinks. Values are rounded once, at the end.
-/

namespace PdfCanvas.Resample

/-- The weight at a distance. -/
def tent (distance : Single) : Single :=
  let size : Single := if distance.isNegative then -distance else distance
  if size.lt .one then Floating.one - size else .zero

/-- The greatest integer up to a finite number. -/
def floor (x : Single) : Int := (x.toRat?.getD 0).floor

/-- The least integer from a finite number on. -/
def ceil (x : Single) : Int := (x.toRat?.getD 0).ceil

/-- The first source value for a new one, and the weights from there on. -/
structure Window where
  first : Nat
  weights : List Single

/-- The window of the new value at `index` where `source` values become `target` ones. -/
def window (source target index : Nat) : Window :=
  let ratio : Single := Floating.ofNat source / Floating.ofNat target
  let scale := ratio.max .one
  let half : Single := Floating.one / Floating.ofNat 2
  let center := (Floating.ofNat index + half) * ratio
  let first := (max 0 (min (floor (center - scale)) ((source : Int) - 1))).toNat
  let last := (max ((first : Int) + 1) (min (ceil (center + scale)) source)).toNat
  let center := center - half
  let weights := (List.range' first (last - first)).map fun k =>
    tent ((Floating.ofNat k - center) / scale)
  let sum := weights.foldl (· + ·) .zero
  ⟨first, weights.map (· / sum)⟩

/-- The windows of all new values. -/
def windows (source target : Nat) : List Window := (List.range target).map (window source target)

/-- The weighted sum of rows, column by column. -/
def weighRows (width : Nat) (rows : List (List Single)) (w : Window) : List Single :=
  ((rows.drop w.first).zip w.weights).foldl
    (fun sums (row, weight) => sums.zipWith (fun sum value => sum + value * weight) row)
    (List.replicate width .zero)

/-- The weighted sum of values. -/
def weigh (values : List Single) (w : Window) : Single :=
  ((values.drop w.first).zip w.weights).foldl (fun sum (value, weight) => sum + value * weight) .zero

/-- A raster of another size. -/
def resize (raster : Raster UInt8) (width height : Nat) : Raster UInt8 :=
  if raster.width = width ∧ raster.height = height then raster
  else
    let values : List Single := raster.pixels.map fun value => Floating.ofNat value.toNat
    let rows := (windows raster.height height).map (weighRows raster.width (pieces raster.width values))
    let across := windows raster.width width
    let resized := rows.flatMap fun row => across.map (weigh row)
    ⟨width, height, resized.map fun value => (value.roundNat 255).toUInt8⟩

end PdfCanvas.Resample
