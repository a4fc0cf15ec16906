import PdfCanvas.Filter.Jpeg.Plane

/-!
# Scans of JPEG pictures

A scan holds the blocks of one component row by row, or of several in units, each with the blocks of all
of them. Restart markers cut its data into intervals that are read without regard to each other.
-/

namespace PdfCanvas.Jpeg

/-- The coded data of an interval, and what follows from the marker behind it on. A byte `FF` in the data
has a zero behind it. -/
def splitInterval : Bytes → Bytes × Bytes
  | 0xFF :: 0x00 :: rest => let (coded, following) := splitInterval rest; (0xFF :: coded, following)
  | 0xFF :: rest => ([], 0xFF :: rest)
  | byte :: rest => let (coded, following) := splitInterval rest; (byte :: coded, following)
  | [] => ([], [])

/-- A component as a scan codes it. -/
structure Channel where
  steps : Steps
  means : CodeTree
  details : CodeTree
  /-- The blocks of each unit. -/
  count : Nat

/-- How far a scan has been read. -/
structure Progress where
  /-- The rest of the interval. -/
  bits : Bits
  /-- What follows the interval. -/
  following : Bytes
  /-- The means of the blocks before, by channel. -/
  means : List Int
  /-- The number of blocks that follow without details. -/
  plain : Nat
  blocks : Array Block

namespace Progress

/-- The start of an interval. -/
def start (data : Bytes) (channels : List Channel) (blocks : Array Block) : Progress :=
  let (coded, following) := splitInterval data
  ⟨Bits.highFirst coded, following, channels.map fun _ => 0, 0, blocks⟩

/-- Whether the marker behind the interval is in sight: with at most seven bytes left. -/
def isNearEnd (p : Progress) : Bool := (p.bits.drop 56).isEmpty

/-- Reads `count` blocks of a channel, the first after a mean. -/
def readBlocks (channel : Channel) : (count : Nat) → Context → Bits → Array Block →
    Option (Context × Bits × Array Block)
  | 0, context, bits, blocks => some (context, bits, blocks)
  | count + 1, context, bits, blocks => do
    let (coefficients, context, bits) ← readBlock channel.means channel.details context bits
    readBlocks channel count context bits (blocks.push (samples channel.steps coefficients))

/-- Reads the blocks of a unit; gives the means of the last ones by channel. -/
def readChannels : List (Channel × Int) → (plain : Nat) → Bits → Array Block →
    Option (List Int × Nat × Bits × Array Block)
  | [], plain, bits, blocks => some ([], plain, bits, blocks)
  | (channel, mean) :: rest, plain, bits, blocks => do
    let (context, bits, blocks) ← readBlocks channel channel.count ⟨mean, plain⟩ bits blocks
    let (means, plain, bits, blocks) ← readChannels rest context.plain bits blocks
    return (context.mean :: means, plain, bits, blocks)

/-- Reads a unit. -/
def readUnit (channels : List Channel) (p : Progress) : Option Progress := do
  let (means, plain, bits, blocks) ← readChannels (channels.zip p.means) p.plain p.bits p.blocks
  return { p with bits, means, plain, blocks }

/-- Goes on with the next interval, which has to be the one with this number. -/
def restart (channels : List Channel) (number : Nat) (p : Progress) : Option Progress :=
  match Marker.ofFront? p.following with
  | some (marker, rest) =>
    if p.isNearEnd ∧ marker = .restart number then some (start rest channels p.blocks) else none
  | none => none

/-- Reads `count` units. `left` of them belong to the interval, and `number` is that of the next restart;
without an `interval` there is none. -/
def readUnits (channels : List Channel) (interval : Nat) :
    (count left number : Nat) → Progress → Option Progress
  | 0, _, _, p => some p
  | count + 1, 0, number, p => do
    if interval = 0 then readUnits channels interval count 0 number (← p.readUnit channels)
    else
      let p ← p.restart channels number
      readUnits channels interval count (interval - 1) ((number + 1) % 8) (← p.readUnit channels)
  | count + 1, left + 1, number, p => do
    readUnits channels interval count left number (← p.readUnit channels)

/-- The data from the next marker on that is no restart. -/
def afterRestarts : Bytes → Bytes
  | [] => []
  | byte :: rest =>
    match Marker.ofFront? (byte :: rest) with
    | some (.restart _, _) | none => afterRestarts rest
    | some _ => byte :: rest

/-- What follows the scan. If the end of the interval is in sight there has to be a marker, and restarts
are passed over. -/
def ending (p : Progress) : Option Bytes :=
  if p.isNearEnd then
    match Marker.ofFront? p.following with
    | some _ => some (afterRestarts p.following)
    | none => none
  else some p.following

end Progress

/-- A scan: its components by their places in the frame, and how it codes them. -/
structure Scan where
  places : List Nat
  components : List Component
  channels : List Channel
  /-- The units across and down. -/
  units : Nat × Nat
  /-- The number of units of an interval; none if there is one interval only. -/
  interval : Nat

namespace Scan

/-- The units of a scan: those of the frame, or the blocks of the only component that the picture
reaches. -/
def unitsOf (frame : Frame) : List Component → Nat × Nat
  | [c] =>
    (min (frame.unitsAcross * c.across) ((frame.width + 7) / 8),
      min (frame.unitsDown * c.down) ((frame.height + 7) / 8))
  | _ => (frame.unitsAcross, frame.unitsDown)

/-- The scan of some components of a frame, if what they need was given before. -/
def ofSelections? (frame : Frame) (steps : Numbered Steps) (tables : CodeTables) (interval : Nat)
    (selections : List Selection) : Option Scan := do
  let components ← selections.mapM fun s => frame.components[s.place]?
  let channels ← (selections.zip components).mapM fun (s, c) => do
    return {
      steps := ← steps.lookup c.steps
      means := ← tables.means.lookup s.means
      details := ← tables.details.lookup s.details
      count := if selections.length = 1 then 1 else c.blocks : Channel }
  return ⟨selections.map (·.place), components, channels, unitsOf frame components, interval⟩

/-- The blocks of a unit. -/
def unitSize (scan : Scan) : Nat := scan.channels.foldr (fun c sum => c.count + sum) 0

/-- The plane of the component at an index of the scan. -/
def plane (scan : Scan) (frame : Frame) (blocks : Array Block) (index : Nat) (c : Component) : Plane where
  width := (frame.width * c.across + frame.maxAcross - 1) / frame.maxAcross
  height := (frame.height * c.down + frame.maxDown - 1) / frame.maxDown
  blocks := blocks
  unitsAcross := scan.units.1
  unitSize := scan.unitSize
  first := (scan.channels.take index).foldr (fun c sum => c.count + sum) 0
  across := if scan.channels.length = 1 then 1 else c.across
  down := if scan.channels.length = 1 then 1 else c.down

/-- Reads the data of a scan; gives the planes by their places in the frame, and what follows. -/
def read (scan : Scan) (frame : Frame) (data : Bytes) : Option (Numbered Plane × Bytes) := do
  let count := scan.units.1 * scan.units.2
  let start := Progress.start data scan.channels #[]
  let progress ← Progress.readUnits scan.channels scan.interval count scan.interval 0 start
  let following ← progress.ending
  let planes := scan.components.zipIdx.map fun (c, index) =>
    scan.plane frame progress.blocks index c
  return (scan.places.zip planes, following)

end Scan

end PdfCanvas.Jpeg
