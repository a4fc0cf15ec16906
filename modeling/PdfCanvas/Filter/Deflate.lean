import PdfCanvas.Filter.Deflate.Chains
import PdfCanvas.Filter.Flate
import PdfCanvas.Filter.PrefixCode.Optimal

/-!
# Deflating

Bytes are split into items (`Deflate.Chains`), which are written in one block: short data with the fixed
codes, others with codes that are optimal for them and are described at the head of the block. The wrapper
adds the header and the checksum.
-/

namespace PdfCanvas.Deflate

open Inflate (Item lengthTable distanceTable)

/-- The last entry of a table that does not exceed a number: its index, the number of added bits and what
they add. -/
def tableEntry (table : List (Nat × Nat)) (value : Nat) : Nat × Nat × Nat :=
  table.zipIdx.foldl
    (fun found ((least, extra), index) =>
      if least ≤ value then (index, extra, value - least) else found)
    (0, 0, 0)

/-! ## Items -/

/-- The code of each symbol. -/
def codeArray (lengths : List Nat) : Array Bits :=
  (PrefixCode.codes lengths).foldl (fun codes (symbol, code) => codes.setIfInBounds symbol code)
    (Array.replicate lengths.length [])

/-- The codes of a block. -/
structure BlockCodes where
  literals : Array Bits
  distances : Array Bits

/-- The codes with given lengths. -/
def BlockCodes.ofLengths (literals distances : List Nat) : BlockCodes :=
  ⟨codeArray literals, codeArray distances⟩

/-- The symbol of an item for a literal or a length. -/
def literalSymbol : Item → Nat
  | .literal byte => byte.toNat
  | .copy length _ => 257 + (tableEntry lengthTable length).1
  | .endOfBlock => 256

/-- The symbol of an item for a distance. -/
def distanceSymbol? : Item → Option Nat
  | .copy _ distance => some (tableEntry distanceTable distance).1
  | _ => none

/-- The bits of an item. -/
def itemBits (codes : BlockCodes) (item : Item) : Bits :=
  let literal := codes.literals[literalSymbol item]?.getD []
  match item with
  | .copy length distance =>
    let (_, lengthBits, lengthAdded) := tableEntry lengthTable length
    let (symbol, distanceBits, distanceAdded) := tableEntry distanceTable distance
    literal ++ Bits.ofNat lengthBits lengthAdded ++
      codes.distances[symbol]?.getD [] ++ Bits.ofNat distanceBits distanceAdded
  | _ => literal

/-! ## Descriptions of codes -/

/-- How often each symbol below `count` occurs. -/
def frequencies (count : Nat) (symbols : List Nat) : List Nat :=
  (symbols.foldl (fun found symbol => found.modify symbol (· + 1)) (Array.replicate count 0)).toList

/-- Leaves out zeros at the end of a list, but keeps `least` numbers. -/
def trimmed (least : Nat) (numbers : List Nat) : List Nat :=
  numbers.take (max least (numbers.reverse.dropWhile (· = 0)).length)

/-- A symbol that describes code lengths, with a number of so many bits. -/
structure LengthSymbol where
  symbol : Nat
  size : Nat
  added : Nat
  deriving DecidableEq, Repr

namespace LengthSymbol

/-- A code length by itself. -/
def single (length : Nat) : LengthSymbol := ⟨length, 0, 0⟩

/-- So many zeros, fewer than 139. -/
def zeros (count : Nat) : List LengthSymbol :=
  if count < 3 then List.replicate count (single 0)
  else if count ≤ 10 then [⟨17, 3, count - 3⟩]
  else [⟨18, 7, count - 11⟩]

/-- So many repetitions of the length before, fewer than seven. -/
def repetitions (length count : Nat) : List LengthSymbol :=
  if count < 3 then List.replicate count (single length) else [⟨16, 2, count - 3⟩]

/-- The symbols of a run of one length: of zeros 138 at a time; of others the first, and six repetitions
at a time. -/
def ofRun (length count : Nat) : List LengthSymbol :=
  if length = 0 then
    (List.replicate (count / 138) (zeros 138)).flatten ++ zeros (count % 138)
  else
    single length :: (List.replicate ((count - 1) / 6) (repetitions length 6)).flatten ++
      repetitions length ((count - 1) % 6)

/-- The symbols of code lengths; `count` lengths of the run under way were seen before. -/
def ofLengths (count : Nat) : (lengths : List Nat) → List LengthSymbol
  | [] => []
  | [length] => ofRun length (count + 1)
  | length :: next :: rest =>
    if length = next then ofLengths (count + 1) (next :: rest)
    else ofRun length (count + 1) ++ ofLengths 0 (next :: rest)

end LengthSymbol

/-- Describes the codes with given lengths, as many as are used. -/
def describe (literals distances : List Nat) : Bits :=
  let symbols := LengthSymbol.ofLengths 0 (literals ++ distances)
  let lengths := PrefixCode.optimalLengths 7 (frequencies 19 (symbols.map (·.symbol)))
  let codes := codeArray lengths
  let ordered := trimmed 4 (Inflate.lengthOrder.map fun symbol => lengths[symbol]?.getD 0)
  Bits.ofNat 5 (literals.length - 257) ++ Bits.ofNat 5 (distances.length - 1) ++
    Bits.ofNat 4 (ordered.length - 4) ++ ordered.flatMap (Bits.ofNat 3) ++
    symbols.flatMap fun s => codes[s.symbol]?.getD [] ++ Bits.ofNat s.size s.added

/-! ## Blocks -/

/-- The bits of a last block with the fixed codes. -/
def fixedBlock (items : List Item) : Bits :=
  let codes := BlockCodes.ofLengths Inflate.fixedLiteralLengths (List.replicate 32 5)
  true :: true :: false :: items.flatMap (itemBits codes)

/-- The bits of a last block with codes of its own. -/
def describedBlock (items : List Item) : Bits :=
  let literals := PrefixCode.optimalLengths 15 (frequencies 286 (items.map literalSymbol))
  let distances := PrefixCode.optimalLengths 15 (frequencies 30 (items.filterMap distanceSymbol?))
  true :: false :: true :: describe (trimmed 257 literals) (trimmed 1 distances) ++
    items.flatMap (itemBits (.ofLengths literals distances))

/-- Deflates bytes, with header and checksum. -/
def encode (bytes : Bytes) : Bytes :=
  let items := (Chains.ofBytes bytes).items ++ [Item.endOfBlock]
  let block := if bytes.length < 48 then fixedBlock items else describedBlock items
  0x78 :: 0x9C :: Bits.toBytes block ++ Flate.checksum bytes.toArray

end PdfCanvas.Deflate
