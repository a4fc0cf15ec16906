import PdfCanvas.Filter.PrefixCode

/-!
# Segments of JPEG pictures

A picture is a sequence of markers, most of them with a segment behind them. A marker is a byte other than
zero after one or more bytes `FF`. Segments describe the frame, which is the size of the picture and its
components, the steps of the coefficients, the prefix codes, and the components that a scan holds.
-/

namespace PdfCanvas.Jpeg

/-- What a marker announces. -/
inductive Marker where
  | frame (isBaseline : Bool)
  | codes
  | steps
  | interval
  | scan
  | application (number : Nat)
  | comment
  | restart (number : Nat)
  | endOfImage
  /-- Something that a picture in one frame of sequential scans does not have. -/
  | unsupported
  deriving DecidableEq, Repr

namespace Marker

def ofByte (byte : UInt8) : Marker :=
  if byte = 0xC0 then .frame true
  else if byte = 0xC1 then .frame false
  else if byte = 0xC4 then .codes
  else if 0xD0 ≤ byte ∧ byte ≤ 0xD7 then .restart (byte.toNat % 8)
  else if byte = 0xD9 then .endOfImage
  else if byte = 0xDA then .scan
  else if byte = 0xDB then .steps
  else if byte = 0xDD then .interval
  else if 0xE0 ≤ byte ∧ byte ≤ 0xEF then .application (byte.toNat % 16)
  else if byte = 0xFE then .comment
  else .unsupported

/-- The marker that data start with, and what follows it. -/
def ofFront? : Bytes → Option (Marker × Bytes)
  | 0xFF :: 0xFF :: rest => ofFront? (0xFF :: rest)
  | 0xFF :: 0x00 :: _ => none
  | 0xFF :: byte :: rest => some (ofByte byte, rest)
  | _ => none

/-- The next marker, and what follows it; other bytes in front of it are passed over. -/
def next? : Bytes → Option (Marker × Bytes)
  | [] => none
  | byte :: rest =>
    match ofFront? (byte :: rest) with
    | some found => some found
    | none => next? rest

end Marker

/-- The segment that data start with: two bytes of length, which count themselves, and the others. -/
def splitSegment : Bytes → Option (Bytes × Bytes)
  | high :: low :: rest =>
    let length := 256 * high.toNat + low.toNat
    let segment := rest.take (length - 2)
    if length < 2 ∨ segment.length < length - 2 then none
    else some (segment, rest.drop (length - 2))
  | _ => none

/-! ## Frames -/

/-- A component of a frame, such as the luminance. -/
structure Component where
  id : UInt8
  /-- The blocks across of each unit. -/
  across : Nat
  /-- The blocks down of each unit. -/
  down : Nat
  /-- The number of the table of steps. -/
  steps : Nat
  deriving DecidableEq, Repr

namespace Component

/-- The blocks of each unit. -/
def blocks (c : Component) : Nat := c.across * c.down

/-- Reads a component from its three bytes. -/
def ofBytes? : Bytes → Option Component
  | [id, sampling, steps] =>
    let across := sampling.toNat / 16
    let down := sampling.toNat % 16
    if 1 ≤ across ∧ across ≤ 4 ∧ 1 ≤ down ∧ down ≤ 4 ∧ steps ≤ 3 then
      some ⟨id, across, down, steps.toNat⟩
    else none
  | _ => none

end Component

/-- How the samples of a component are spread over the pixels. -/
structure Spread where
  /-- The pixels across that a sample stands for. -/
  across : Nat
  /-- The pixels down that a sample stands for. -/
  down : Nat
  /-- Whether pixels between two samples are mixed from both. -/
  isSmooth : Bool
  deriving DecidableEq, Repr

/-- The size of a picture and its components. -/
structure Frame where
  isBaseline : Bool
  width : Nat
  height : Nat
  components : List Component
  deriving DecidableEq, Repr

namespace Frame

/-- The greatest number of blocks across that a unit has of a component. -/
def maxAcross (f : Frame) : Nat := f.components.foldl (fun most c => max most c.across) 1

/-- The greatest number of blocks down that a unit has of a component. -/
def maxDown (f : Frame) : Nat := f.components.foldl (fun most c => max most c.down) 1

/-- The units across; the last one may go beyond the picture. -/
def unitsAcross (f : Frame) : Nat := (f.width + 8 * f.maxAcross - 1) / (8 * f.maxAcross)

/-- The units down; the last one may go beyond the picture. -/
def unitsDown (f : Frame) : Nat := (f.height + 8 * f.maxDown - 1) / (8 * f.maxDown)

/-- How many of `factor` a length counts, if that is one or two; a length of one pixel counts one. -/
def simpleSpread? (length most factor : Nat) : Option Nat :=
  if factor = most ∨ length = 1 then some 1 else if 2 * factor = most then some 2 else none

/-- The spread of a component: smooth if it is at most two both ways, else samples are repeated, which
takes whole numbers. -/
def spread? (f : Frame) (c : Component) : Option Spread :=
  match simpleSpread? f.width f.maxAcross c.across, simpleSpread? f.height f.maxDown c.down with
  | some across, some down => some ⟨across, down, true⟩
  | _, _ =>
    if f.maxAcross % c.across = 0 ∧ f.maxDown % c.down = 0 then
      some ⟨f.maxAcross / c.across, f.maxDown / c.down, false⟩
    else none

/-- The most bytes that the samples of a picture may take. -/
def sizeLimit : Nat := 1 <<< 29

/-- Reads a frame with samples of eight bits, of one component or of three. -/
def ofSegment? (isBaseline : Bool) : Bytes → Option Frame
  | precision :: h1 :: h0 :: w1 :: w0 :: count :: rest => do
    let components ← (pieces 3 rest).mapM Component.ofBytes?
    let frame : Frame :=
      ⟨isBaseline, 256 * w1.toNat + w0.toNat, 256 * h1.toNat + h0.toNat, components⟩
    let isSound := precision = 8 ∧ 0 < frame.width ∧ 0 < frame.height ∧
      components.length = count.toNat ∧ count.toNat ∈ [1, 3] ∧
      (components.map (·.id)).eraseDups.length = components.length ∧
      components.all (fun c => (frame.spread? c).isSome) ∧
      frame.width * frame.height * components.length ≤ sizeLimit
    if isSound then return frame else none
  | _ => none

end Frame

/-! ## Tables -/

/-- Something for each number that segments have given it for; what was given last is in front. -/
abbrev Numbered (α : Type) := List (Nat × α)

/-- The steps of the 64 coefficients of a block, in the order in which they are coded. -/
abbrev Steps := List Nat

/-- Reads tables of steps: a byte with the size of the steps and the number of the table, and the
steps. -/
def readSteps (tables : Numbered Steps) : (fuel : Nat) → Bytes → Option (Numbered Steps)
  | _, [] => some tables
  | 0, _ => none
  | fuel + 1, head :: rest =>
    let isWide := head / 16 = 1
    let size := if isWide then 128 else 64
    let front := rest.take size
    let steps := if isWide then words front else front.map UInt8.toNat
    if 1 < head / 16 ∨ 3 < head % 16 ∨ front.length < size ∨ 0 ∈ steps then none
    else readSteps (((head % 16).toNat, steps) :: tables) fuel (rest.drop size)

/-- The codes for symbols that are listed by length: `counts` tells how many there are of each, and the
first of them is given; none if they are more than there are codes. -/
def codesByLength : (counts : List Nat) → (length first : Nat) → Bytes → Option (List (Nat × Bits))
  | [], _, _, _ => some []
  | count :: counts, length, first, symbols =>
    if 0 < count ∧ 1 <<< length < first + count then none
    else do
      let longer ← codesByLength counts (length + 1) (2 * (first + count)) (symbols.drop count)
      return PrefixCode.consecutive length first ((symbols.take count).map UInt8.toNat) ++ longer

/-- The tree of the code for symbols that are listed by length. -/
def codeTree? (counts : List Nat) (symbols : Bytes) : Option CodeTree := do
  let codes ← codesByLength counts 1 0 symbols
  return codes.foldl (fun tree (symbol, code) => tree.insert symbol code) .gap

/-- The prefix codes of a picture: those for means and those for details. -/
structure CodeTables where
  means : Numbered CodeTree
  details : Numbered CodeTree

namespace CodeTables

def empty : CodeTables := ⟨[], []⟩

/-- Puts a code under a number; class 0 is for means, class 1 for details. -/
def put (tables : CodeTables) (isDetails : Bool) (number : Nat) (tree : CodeTree) : CodeTables :=
  if isDetails then { tables with details := (number, tree) :: tables.details }
  else { tables with means := (number, tree) :: tables.means }

/-- Reads prefix codes with numbers up to `most`: a byte with class and number, sixteen counts, and the
symbols. -/
def readSegment (most : Nat) (tables : CodeTables) : (fuel : Nat) → Bytes → Option CodeTables
  | _, [] => some tables
  | 0, _ => none
  | fuel + 1, head :: rest => do
    let counts := (rest.take 16).map UInt8.toNat
    let total := counts.foldr (· + ·) 0
    let symbols := (rest.drop 16).take total
    let isSound := head / 16 ≤ 1 ∧ (head % 16).toNat ≤ most ∧ counts.length = 16 ∧ 0 < total ∧
      total ≤ 256 ∧ symbols.length = total
    if isSound then
      let tree ← codeTree? counts symbols
      readSegment most (tables.put (head / 16 = 1) (head % 16).toNat tree) fuel (rest.drop (16 + total))
    else none

end CodeTables

/-! ## Scans -/

/-- A component that a scan holds: its place in the frame and the numbers of its codes. -/
structure Selection where
  place : Nat
  means : Nat
  details : Nat
  deriving DecidableEq, Repr

namespace Selection

/-- Reads a selection from its two bytes. -/
def ofBytes? (frame : Frame) : Bytes → Option Selection
  | [id, numbers] => do
    let place ← frame.components.findIdx? (·.id = id)
    let most : UInt8 := if frame.isBaseline then 1 else 3
    if numbers / 16 ≤ most ∧ numbers % 16 ≤ most then
      return ⟨place, (numbers / 16).toNat, (numbers % 16).toNat⟩
    else none
  | _ => none

/-- Whether places ascend. -/
def isAscending : List Nat → Bool
  | a :: b :: rest => a < b && isAscending (b :: rest)
  | _ => true

/-- Reads the selections of a scan, whose components are in the order of the frame and have ten blocks in
a unit at most. A scan holds whole coefficients, all 64 of each block. -/
def ofSegment? (frame : Frame) : Bytes → Option (List Selection)
  | count :: rest => do
    let size := 2 * count.toNat
    let selections ← (pieces 2 (rest.take size)).mapM (ofBytes? frame)
    let components : List Component := selections.filterMap fun s => frame.components[s.place]?
    let blocks : Nat := components.foldr (fun c sum => c.blocks + sum) 0
    let isSound : Prop := 1 ≤ selections.length ∧ selections.length = count.toNat ∧
      isAscending (selections.map (·.place)) ∧ (selections.length = 1 ∨ blocks ≤ 10) ∧
      rest.drop size ∈ ([[0, 63, 0], [0, 0, 0]] : List Bytes)
    if isSound then return selections else none
  | _ => none

end Selection

end PdfCanvas.Jpeg
