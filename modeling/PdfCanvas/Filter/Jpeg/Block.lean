import PdfCanvas.Filter.Jpeg.Segment
import PdfCanvas.Filter.Jpeg.Word

/-!
# Blocks of JPEG pictures

A block of eight by eight samples is coded as 64 coefficients of cosines: its mean, as the difference to
the mean of the block before, and the details, each with the number of zeros in front of it. Coefficients
are multiplied by their steps and turned into samples.
-/

namespace PdfCanvas.Jpeg

/-! ## Coefficients -/

/-- The coefficients of a block that are given, each with its place in the order of coding. -/
abbrev Coefficients := List (Nat × Int)

/-- Coded data with zeros behind them: data that end are read on as zeros. -/
def filled (bits : Bits) : Bits :=
  if (bits.drop 15).isEmpty then bits ++ List.replicate 16 false else bits

/-- Reads a symbol. -/
def readSymbol (tree : CodeTree) (bits : Bits) : Option (Nat × Bits) :=
  match tree.decode (filled bits) with
  | .ok result => some result
  | .error _ => none

/-- Reads a number from so many bits, the most significant first. -/
def readNumber (size : Nat) (bits : Bits) : Option (Nat × Bits) := do
  let (front, rest) ← Bits.split? size (filled bits)
  return (Bits.toNat front.reverse, rest)

/-- Reads a number that may be negative: one whose bits start with zero lies as far below the greatest
number of so many bits, negated, as they say. -/
def readSigned (size : Nat) (bits : Bits) : Option (Int × Bits) := do
  let (value, rest) ← readNumber size bits
  let bound : Nat := 1 <<< size
  if 2 * value < bound then return ((value : Int) + 1 - bound, rest) else return (value, rest)

/-- Whether a code and a number of `size` bits behind it fit in a byte. -/
def fitsByte (tree : CodeTree) (size : Nat) (bits : Bits) : Bool :=
  match tree.decode ((filled bits).take (8 - size)) with
  | .ok _ => true
  | .error _ => false

/-- Reads details of a block from the coefficient at `index` on, behind those that were found; gives also
the number of blocks that follow without details. A symbol tells how many zeros come first and how many
bits the coefficient has; if these are none, the block ends unless there are fifteen zeros. -/
def readDetails (tree : CodeTree) (index : Nat) (found : Coefficients) (bits : Bits) :
    Option (Coefficients × Nat × Bits) :=
  if 64 ≤ index then some (found, 0, bits)
  else
    match readSymbol tree bits with
    | none => none
    | some (symbol, rest) =>
      let zeros := symbol / 16
      let size := symbol % 16
      if size = 0 then
        if zeros = 15 then readDetails tree (index + 16) found rest
        else do
          let (added, rest) ← readNumber zeros rest
          return (found, (1 <<< zeros) - 1 + added, rest)
      else
        let place := index + zeros
        if 64 ≤ place then some (found, 0, if fitsByte tree size bits then rest.drop size else rest)
        else
          match readSigned size rest with
          | none => none
          | some (value, rest) => readDetails tree (place + 1) ((place, value) :: found) rest
  termination_by 64 - index

/-- What is known between the blocks of a component. -/
structure Context where
  /-- The mean of the block before. -/
  mean : Int
  /-- The number of blocks that follow without details. -/
  plain : Nat

/-- Reads a block. -/
def readBlock (means details : CodeTree) (context : Context) (bits : Bits) :
    Option (Coefficients × Context × Bits) := do
  let (size, bits) ← readSymbol means bits
  if 11 < size then none
  let (difference, bits) ← readSigned size bits
  let mean := Word.wrap (context.mean + difference)
  if 0 < context.plain then return ([(0, mean)], ⟨mean, context.plain - 1⟩, bits)
  else
    let (found, plain, bits) ← readDetails details 1 [(0, mean)] bits
    return (found, ⟨mean, plain⟩, bits)

/-! ## Samples -/

/-- The places of coefficients in a block, row by row, in the order of coding: along its diagonals. -/
def diagonals : Array Nat :=
  #[0, 1, 8, 16, 9, 2, 3, 10, 17, 24, 32, 25, 18, 11, 4, 5, 12, 19, 26, 33, 40, 48, 41, 34, 27, 20, 13, 6,
    7, 14, 21, 28, 35, 42, 49, 56, 57, 50, 43, 36, 29, 22, 15, 23, 30, 37, 44, 51, 58, 59, 52, 45, 38, 31,
    39, 46, 53, 60, 61, 54, 47, 55, 62, 63]

/-- The coefficients of a block, row by row, multiplied by their steps; with three binary places. -/
def scaled (steps : Steps) (coefficients : Coefficients) : Array Word :=
  coefficients.foldl
    (fun block (place, value) =>
      block.setIfInBounds (diagonals[place]?.getD 0) (Word.ofInt (8 * value * steps[place]?.getD 0)))
    (Array.replicate 64 ⟨0⟩)

/-- Eight values from the coefficients of eight cosines. -/
def fromCosines (d : Nat → Word) : Array Word :=
  -- the even coefficients
  let mixed := (d 2 + d 6).scale 17734
  let low := mixed - d 6 - (d 6).scale 27779
  let high := mixed + (d 2).scale 25079
  let sum := d 0 + d 4
  let difference := d 0 - d 4
  let e0 := sum + high
  let e1 := difference + low
  let e2 := difference - low
  let e3 := sum - high
  -- the odd coefficients
  let p1 := d 7 + d 1
  let p2 := d 5 + d 3
  let p3 := d 7 + d 3
  let p4 := d 5 + d 1
  let all := p3 + p4
  let all := all + all.scale 5763
  let q1 := all - p1.scale 29490
  let q2 := all - p2 - p2 - p2.scale 18446
  let q3 := p3.scale (-31509) - p3
  let q4 := p4.scale (-12785)
  let o0 := q1 + q4 + (d 1 + (d 1).scale 16427)
  let o1 := q2 + q3 + (d 3 + (d 3 + d 3) + (d 3).scale 2383)
  let o2 := q2 + q4 + (d 5 + d 5 + (d 5).scale 1741)
  let o3 := q1 + q3 + (d 7).scale 9786
  #[e0 + o0, e1 + o1, e2 + o2, e3 + o3, e3 - o3, e2 - o2, e1 - o1, e0 - o0]

/-- The samples of a block, row by row. -/
abbrev Block := Array UInt8

/-- A half more than the sample between black and white, with six binary places. -/
def middle : Word := .ofInt (64 * 128 + 32)

/-- The samples of a block with coefficients: values along its columns, then along its rows. Both steps
together add three binary places. -/
def samples (steps : Steps) (coefficients : Coefficients) : Block :=
  let block := scaled steps coefficients
  let columns := (Array.range 8).map fun x => fromCosines fun y => block[8 * y + x]?.getD ⟨0⟩
  (Array.range 8).flatMap fun y =>
    let row := fromCosines fun x => (columns[x]?.bind (·[y]?)).getD ⟨0⟩
    row.map fun value => (value + middle).toSample

end PdfCanvas.Jpeg
