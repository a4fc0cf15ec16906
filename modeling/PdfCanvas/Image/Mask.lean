import PdfCanvas.Image.Resample

/-!
# Masks

How a mask becomes the opacity of an image. A soft mask gives the opacity itself; a stencil marks what is
not painted; a colour key leaves out the pixels whose samples all lie in its ranges.
-/

namespace PdfCanvas.Mask

/-- The opacity that a mask value stands for. -/
def opacity (isSoft : Bool) (value : UInt8) : UInt8 := if isSoft then value else 255 - value

/-- Gives an image the opacity of a mask, which is brought to the size of the image. -/
def apply (image : Raster Rgb) (mask : Raster UInt8) (isSoft : Bool) : Raster Rgba :=
  let mask := Resample.resize mask image.width image.height
  ⟨image.width, image.height,
    image.pixels.zipWith (fun color value => ⟨color, opacity isSoft value⟩) mask.pixels⟩

/-- Whether every sample of a pixel that has a range lies in it. -/
def isKeyed (ranges : List (Nat × Nat)) (samples : List Nat) : Bool :=
  (samples.zip ranges).all fun (sample, low, high) => low ≤ sample && sample ≤ high

/-- Makes the pixels of a colour key transparent and all others fully opaque. Pixels without samples
stay black and transparent. -/
def applyColorKey (image : Raster Rgb) (samples : List Nat) (components : Nat)
    (ranges : List (Nat × Nat)) : Raster Rgba :=
  let keyed := (wholePieces components samples).map (isKeyed ranges)
  let painted := image.pixels.zipWith
    (fun color isKeyed => (⟨color, if isKeyed then 0 else 255⟩ : Rgba)) keyed
  ⟨image.width, image.height,
    painted ++ List.replicate (image.pixels.length - painted.length) ⟨Rgb.ofGray 0, 0⟩⟩

end PdfCanvas.Mask
