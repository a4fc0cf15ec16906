import PdfCanvas.Filter.PrefixCode

/-!
# Inflating

Deflated data are blocks: stored bytes, or symbols of two prefix codes that are fixed or described at
the head of the block. A symbol is a byte, the end of the block, or the length of a copy whose distance
follows. What was inflated before data stop is kept (`Inflate.Result`).
-/

namespace PdfCanvas.Inflate

/-- The bytes inflated so far, and what follows in the data or why they stop. -/
structure Result where
  output : Array UInt8
  rest : Except Stop Bits

/-- Reads a number from so many bits, the least significant first. -/
def readNat (count : Nat) (bits : Bits) : Except Stop (Nat × Bits) :=
  match bits.split? count with
  | some (front, rest) => .ok (front.toNat, rest)
  | none => .error .truncated

/-- The least length of each length symbol from 257 on, and the bits that add to it. -/
def lengthTable : List (Nat × Nat) :=
  [(3, 0), (4, 0), (5, 0), (6, 0), (7, 0), (8, 0), (9, 0), (10, 0), (11, 1), (13, 1), (15, 1),
    (17, 1), (19, 2), (23, 2), (27, 2), (31, 2), (35, 3), (43, 3), (51, 3), (59, 3), (67, 4), (83, 4),
    (99, 4), (115, 4), (131, 5), (163, 5), (195, 5), (227, 5), (258, 0)]

/-- The least distance of each distance symbol, and the bits that add to it. -/
def distanceTable : List (Nat × Nat) :=
  [(1, 0), (2, 0), (3, 0), (4, 0), (5, 1), (7, 1), (9, 2), (13, 2), (17, 3), (25, 3), (33, 4), (49, 4),
    (65, 5), (97, 5), (129, 6), (193, 6), (257, 7), (385, 7), (513, 8), (769, 8), (1025, 9), (1537, 9),
    (2049, 10), (3073, 10), (4097, 11), (6145, 11), (8193, 12), (12289, 12), (16385, 13), (24577, 13)]

/-- Reads the number that a table gives for a symbol; a symbol outside the table is invalid. -/
def readFromTable (table : List (Nat × Nat)) (symbol : Nat) (bits : Bits) :
    Except Stop (Nat × Bits) :=
  match table[symbol]? with
  | none => .error .invalid
  | some (least, extra) => do
    let (added, bits) ← readNat extra bits
    return (least + added, bits)

/-- Repeats `length` bytes from `distance` bytes back, those just written included. -/
def copy (output : Array UInt8) (distance : Nat) : (length : Nat) → Array UInt8
  | 0 => output
  | length + 1 => copy (output.push (output[output.size - distance]?.getD 0)) distance length

/-- The two prefix codes of a block. -/
structure Codes where
  literals : CodeTree
  distances : CodeTree

/-- A symbol of a block with what belongs to it. -/
inductive Item where
  | literal (byte : UInt8)
  | copy (length distance : Nat)
  | endOfBlock
  deriving DecidableEq, Repr

/-- Reads one item. -/
def readItem (codes : Codes) (bits : Bits) : Except Stop (Item × Bits) := do
  let (symbol, bits) ← codes.literals.decode bits
  if symbol < 256 then return (.literal symbol.toUInt8, bits)
  else if symbol = 256 then return (.endOfBlock, bits)
  else
    let (length, bits) ← readFromTable lengthTable (symbol - 257) bits
    let (symbol, bits) ← codes.distances.decode bits
    let (distance, bits) ← readFromTable distanceTable symbol bits
    return (.copy length distance, bits)

/-- Inflates the items of a block up to its end. Every item takes a bit at least, so the number of bits
is fuel enough. A copy from before the first byte is invalid. -/
def inflateItems (codes : Codes) : (fuel : Nat) → Bits → Array UInt8 → Result
  | 0, _, output => ⟨output, .error .truncated⟩
  | fuel + 1, bits, output =>
    match readItem codes bits with
    | .error stop => ⟨output, .error stop⟩
    | .ok (.literal byte, bits) => inflateItems codes fuel bits (output.push byte)
    | .ok (.copy length distance, bits) =>
      if output.size < distance then ⟨output, .error .invalid⟩
      else inflateItems codes fuel bits (copy output distance length)
    | .ok (.endOfBlock, bits) => ⟨output, .ok bits⟩

/-- Copies the bytes of a stored block. -/
def inflateBytes : (count : Nat) → Bits → Array UInt8 → Result
  | 0, bits, output => ⟨output, .ok bits⟩
  | count + 1, bits, output =>
    match readNat 8 bits with
    | .error stop => ⟨output, .error stop⟩
    | .ok (byte, bits) => inflateBytes count bits (output.push byte.toUInt8)

/-- Inflates a stored block: from the next byte on its length, the complement of the length, and the
bytes. -/
def inflateStored (bits : Bits) (output : Array UInt8) : Result :=
  let header : Except Stop (Nat × Bits) := do
    let (length, bits) ← readNat 16 (bits.drop (bits.length % 8))
    let (complement, bits) ← readNat 16 bits
    if length + complement = 0xFFFF then return (length, bits) else throw .invalid
  match header with
  | .error stop => ⟨output, .error stop⟩
  | .ok (length, bits) => inflateBytes length bits output

/-- The code lengths of the fixed codes for literals and lengths. -/
def fixedLiteralLengths : List Nat :=
  List.replicate 144 8 ++ List.replicate 112 9 ++ List.replicate 24 7 ++ List.replicate 8 8

/-- The codes of blocks that describe none. -/
def fixedCodes : Codes :=
  ⟨PrefixCode.tree fixedLiteralLengths, PrefixCode.tree (List.replicate 32 5)⟩

/-- The symbols of the code for code lengths, in the order of their lengths in a block. -/
def lengthOrder : List Nat := [16, 17, 18, 0, 8, 7, 9, 6, 10, 5, 11, 4, 12, 3, 13, 2, 14, 1, 15]

/-- Reads `count` numbers of three bits. -/
def readTriples : (count : Nat) → Bits → Except Stop (List Nat × Bits)
  | 0, bits => .ok ([], bits)
  | count + 1, bits => do
    let (value, bits) ← readNat 3 bits
    let (values, bits) ← readTriples count bits
    return (value :: values, bits)

/-- Reads code lengths until there are `count`; `lengths` holds those read, the last first. Symbols above
fifteen repeat the last length or zero. -/
def readLengths (tree : CodeTree) (count : Nat) :
    (fuel : Nat) → (lengths : List Nat) → Bits → Except Stop (List Nat × Bits)
  | 0, _, _ => .error .truncated
  | fuel + 1, lengths, bits =>
    if lengths.length = count then .ok (lengths.reverse, bits)
    else if count < lengths.length then .error .invalid
    else do
      let (symbol, bits) ← tree.decode bits
      if symbol < 16 then readLengths tree count fuel (symbol :: lengths) bits
      else if symbol = 16 then
        match lengths with
        | [] => throw .invalid
        | last :: _ =>
          let (added, bits) ← readNat 2 bits
          readLengths tree count fuel (List.replicate (3 + added) last ++ lengths) bits
      else
        let (least, extra) := if symbol = 17 then (3, 3) else (11, 7)
        let (added, bits) ← readNat extra bits
        readLengths tree count fuel (List.replicate (least + added) 0 ++ lengths) bits

/-- Whether a code can be used: it is complete, or it has no symbol, or a single one of one bit. -/
def isUsable (lengths : List Nat) : Bool :=
  PrefixCode.isComplete lengths || PrefixCode.used lengths ∈ [[], [1]]

/-- Reads the codes at the head of a block: first the code for code lengths, which has to be complete,
then with it the lengths of both codes. -/
def readCodes (bits : Bits) : Except Stop (Codes × Bits) := do
  let (literals, bits) ← readNat 5 bits
  let (distances, bits) ← readNat 5 bits
  let (triples, bits) ← readNat 4 bits
  if 286 < literals + 257 ∨ 30 < distances + 1 then throw .invalid
  let (values, bits) ← readTriples (triples + 4) bits
  let ordered := lengthOrder.zip values
  let lengths := (List.range 19).map fun symbol => (ordered.lookup symbol).getD 0
  if !PrefixCode.isComplete lengths then throw .invalid
  let count := literals + 257 + (distances + 1)
  let (lengths, bits) ← readLengths (PrefixCode.tree lengths) count (count + 1) [] bits
  let literalLengths := lengths.take (literals + 257)
  let distanceLengths := lengths.drop (literals + 257)
  if isUsable literalLengths && isUsable distanceLengths then
    return (⟨PrefixCode.tree literalLengths, PrefixCode.tree distanceLengths⟩, bits)
  else throw .invalid

/-- Inflates one block; tells whether it is the last. -/
def inflateBlock (bits : Bits) (output : Array UInt8) : Bool × Result :=
  match readNat 1 bits with
  | .error stop => (true, ⟨output, .error stop⟩)
  | .ok (last, bits) =>
    let result :=
      match readNat 2 bits with
      | .error stop => ⟨output, .error stop⟩
      | .ok (kind, bits) =>
        if kind = 0 then inflateStored bits output
        else if kind = 1 then inflateItems fixedCodes (bits.length + 1) bits output
        else if kind = 2 then
          match readCodes bits with
          | .error stop => ⟨output, .error stop⟩
          | .ok (codes, bits) => inflateItems codes (bits.length + 1) bits output
        else ⟨output, .error .invalid⟩
    (last = 1, result)

/-- Inflates blocks up to the last one. -/
def inflateBlocks : (fuel : Nat) → Bits → Array UInt8 → Result
  | 0, _, output => ⟨output, .error .truncated⟩
  | fuel + 1, bits, output =>
    match inflateBlock bits output with
    | (true, result) => result
    | (false, ⟨output, .error stop⟩) => ⟨output, .error stop⟩
    | (false, ⟨output, .ok bits⟩) => inflateBlocks fuel bits output

/-- Inflates deflated data; what follows the last block is left. -/
def inflate (bits : Bits) : Result := inflateBlocks (bits.length + 1) bits #[]

end PdfCanvas.Inflate
