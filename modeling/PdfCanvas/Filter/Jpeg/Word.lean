/-!
# Words of JPEG arithmetic

Samples are computed in numbers of sixteen bits. A sum out of their range is replaced by the nearest
number within it.
-/

namespace PdfCanvas.Jpeg

/-- A number from -32768 to 32767. -/
structure Word where
  value : Int
  deriving DecidableEq, Repr

namespace Word

/-- The number of sixteen bits that differs from `value` by whole rounds. -/
def wrap (value : Int) : Int := Int.bmod value 65536

/-- The low sixteen bits of a number. -/
def ofInt (value : Int) : Word := ⟨wrap value⟩

/-- The nearest number within the range. -/
def nearest (value : Int) : Word := ⟨max (-32768) (min 32767 value)⟩

instance : Add Word := ⟨fun a b => nearest (a.value + b.value)⟩

instance : Sub Word := ⟨fun a b => nearest (a.value - b.value)⟩

/-- The product with a factor that has fifteen binary places, rounded to the nearest number, a half
upwards. -/
def scale (a : Word) (factor : Int) : Word := ⟨(a.value * factor + 16384) / 32768⟩

/-- The sample of a number with six binary places, rounded down. -/
def toSample (a : Word) : UInt8 := (max 0 (min 255 (a.value / 64))).toNat.toUInt8

end Word

end PdfCanvas.Jpeg
