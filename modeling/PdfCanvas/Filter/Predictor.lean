import PdfCanvas.Error

/-!
# Predictors

Before samples are deflated they can be replaced by differences to their neighbours. `Predictor.undo`
restores the samples: of rows of eight bit samples that hold differences to the pixel on the left, or of
rows with a tag in front that names one of five ways to predict a byte.

Sizes are held in 64 bit words; a product that does not fit is an error.
-/

namespace PdfCanvas

/-- The decode parameters of a filter. -/
structure DecodeParams where
  predictor : Int
  columns : Nat
  colors : Nat
  bits : Nat
  /-- Whether LZW codes grow one code early. -/
  earlyChange : Bool
  deriving DecidableEq, Repr

namespace DecodeParams

/-- No predictor. -/
def standard : DecodeParams := ⟨1, 1, 1, 8, true⟩

/-- A positive size; what is less counts as one. -/
def positive (value : Int) : Nat := max 1 value.toNat

/-- Reads the entries of a parameter dictionary; entries that are not integers are left out. -/
def ofObject (object : Object) : DecodeParams :=
  match object.dictionary? with
  | none => standard
  | some entries =>
    let integer? (key : String) := (entries.get? key).bind Object.integer?
    { predictor := (integer? "Predictor").getD standard.predictor
      columns := ((integer? "Columns").map positive).getD standard.columns
      colors := ((integer? "Colors").map positive).getD standard.colors
      bits := ((integer? "BitsPerComponent").map positive).getD standard.bits
      earlyChange := ((integer? "EarlyChange").map (· != 0)).getD standard.earlyChange }

/-- A product that fits a word. -/
def checkedMul (p : DecodeParams) (a b : Nat) : Except Error Nat :=
  if a * b < wordSize then .ok (a * b)
  else .error (.decode (.rowTooLarge p.columns p.colors p.bits))

def pixelBits (p : DecodeParams) : Except Error Nat := p.checkedMul p.colors p.bits

/-- The bytes of a row. -/
def rowBytes (p : DecodeParams) : Except Error Nat := do
  let bits ← p.checkedMul (← p.pixelBits) p.columns
  return bytesOfBits bits

/-- The distance in bytes from a byte to its neighbour on the left, one at least. -/
def pixelBytes (p : DecodeParams) : Except Error Nat := do
  return max 1 (bytesOfBits (← p.pixelBits))

end DecodeParams

namespace Predictor

/-- Adds to every byte the restored byte `colors` places before; `before` holds those restored, the last
first. -/
def addLeft (colors : Nat) (before : Bytes) : Bytes → Bytes
  | [] => []
  | byte :: rest =>
    let restored := byte + (before[colors - 1]?.getD 0)
    restored :: addLeft colors (restored :: before) rest

/-- Restores rows of differences to the pixel on the left. Rows of no bytes cannot be cut. -/
def undoDifferences (p : DecodeParams) (data : Bytes) : Except Error Bytes := do
  if p.bits ≠ 8 then throw (.decode (.differencingDepth p.bits))
  let size ← p.rowBytes
  if size = 0 then throw (.abort .emptyChunk)
  return (pieces size data).flatMap (addLeft p.colors [])

/-- The neighbour nearest to `left + up - upLeft`, in this order if they are equally near. -/
def nearest (left up upLeft : UInt8) : UInt8 :=
  let estimate : Int := left.toNat + up.toNat - upLeft.toNat
  let toLeft := (estimate - left.toNat).natAbs
  let toUp := (estimate - up.toNat).natAbs
  let toUpLeft := (estimate - upLeft.toNat).natAbs
  if toLeft ≤ toUp ∧ toLeft ≤ toUpLeft then left else if toUp ≤ toUpLeft then up else upLeft

/-- A way to predict a byte from its neighbours. -/
inductive RowFilter where
  | none
  | left
  | up
  | average
  | nearest
  deriving DecidableEq, Repr

namespace RowFilter

/-- The filter with a tag. -/
def ofTag? (tag : Nat) : Option RowFilter :=
  match tag with
  | 0 => some .none
  | 1 => some .left
  | 2 => some .up
  | 3 => some .average
  | 4 => some .nearest
  | _ => Option.none

def predict (filter : RowFilter) (left up upLeft : UInt8) : UInt8 :=
  match filter with
  | .none => 0
  | .left => left
  | .up => up
  | .average => ((left.toNat + up.toNat) / 2).toUInt8
  | .nearest => Predictor.nearest left up upLeft

end RowFilter

/-- Restores the bytes of a row. `before` holds those restored, the last first; `above` is the part of
the row above from here on, and `aboveBefore` the part before, the last byte first. -/
def restore (filter : RowFilter) (distance : Nat) (before aboveBefore : Bytes) :
    (above encoded : Bytes) → Bytes
  | up :: above, byte :: encoded =>
    let left := before[distance - 1]?.getD 0
    let upLeft := aboveBefore[distance - 1]?.getD 0
    let restored := byte + filter.predict left up upLeft
    restored :: restore filter distance (restored :: before) (up :: aboveBefore) above encoded
  | _, _ => []

/-- The filter of a row: the one that its tag names if rows have filters of their own, else the one of
all rows. -/
def rowFilter (predictor : Int) (tag : UInt8) : Except Error RowFilter :=
  let number := if predictor = 15 then tag.toNat else (predictor - 10).toNat
  match RowFilter.ofTag? number with
  | some filter => .ok filter
  | none => .error (.decode (.rowTag number))

/-- Restores rows with a tag in front. Rows without bytes have nothing to predict, so their tags are not
looked at. -/
def restoreRows (predictor : Int) (distance : Nat) (above : Bytes) :
    List Bytes → Except Error Bytes
  | [] => .ok []
  | [] :: _ => .ok []
  | (tag :: encoded) :: rest =>
    if encoded.isEmpty then restoreRows predictor distance above rest
    else do
      let filter ← rowFilter predictor tag
      let restored := restore filter distance [] [] above encoded
      return restored ++ (← restoreRows predictor distance restored rest)

/-- Restores rows with a tag in front; a last row that is not complete is left out. -/
def undoRowFilters (p : DecodeParams) (data : Bytes) : Except Error Bytes := do
  let size ← p.rowBytes
  let distance ← p.pixelBytes
  let above := List.replicate (min size data.length) 0
  restoreRows p.predictor distance above (wholePieces (size + 1) data)

/-- Restores the bytes that a predictor was applied to. -/
def undo (p : DecodeParams) (data : Bytes) : Except Error Bytes :=
  if p.predictor = 1 then .ok data
  else if p.predictor = 2 then undoDifferences p data
  else if 10 ≤ p.predictor ∧ p.predictor ≤ 15 then undoRowFilters p data
  else .error (.decode (.unknownPredictor p.predictor))

end Predictor

end PdfCanvas
