import PdfCanvas.Error
import PdfCanvas.Filter.Jpeg.Scan
import PdfCanvas.Filter.Jpeg.Typical

/-!
# JPEG pictures

Sequential pictures of eight bit samples, gray or of three components. Segments are read one after the
other; scans turn into planes, and at the end the planes of all components together are the picture. Any
other picture, and any fault, is refused.
-/

namespace PdfCanvas.Jpeg

/-- What is known from the segments read so far. -/
structure Header where
  frame : Option Frame
  steps : Numbered Steps
  tables : CodeTables
  interval : Nat
  /-- Whether a segment says that the colours are those of the interchange format. -/
  isInterchange : Bool
  /-- The number of a colour transformation that a segment names. -/
  transform : Option UInt8
  /-- The planes by their places in the frame; the first of a place counts. -/
  planes : Numbered Plane

namespace Header

def empty : Header := ⟨none, [], .empty, 0, false, none, []⟩

/-- Takes note of an application segment. One that marks a frame of a film stands for the typical
codes. -/
def readApplication (h : Header) (number : Nat) (segment : Bytes) : Option Header :=
  if number = 0 then
    if segment.take 5 = utf8 "JFIF\x00" then some { h with isInterchange := true }
    else if segment.take 5 = utf8 "AVI1\x00" then some { h with tables := h.tables.completed }
    else some h
  else if number = 14 ∧ segment.take 6 = utf8 "Adobe\x00" then
    match segment[11]? with
    | some transform => if transform ≤ 2 then some { h with transform := some transform } else none
    | none => some h
  else some h

/-- Reads a segment other than that of a scan. -/
def readSegment (h : Header) (marker : Marker) (segment : Bytes) : Option Header := do
  match marker with
  | .frame isBaseline =>
    if h.frame.isSome then none
    else return { h with frame := some (← Frame.ofSegment? isBaseline segment) }
  | .codes =>
    let most := if h.frame.any (·.isBaseline) then 1 else 3
    return { h with tables := ← CodeTables.readSegment most h.tables segment.length segment }
  | .steps => return { h with steps := ← readSteps h.steps segment.length segment }
  | .interval =>
    match words segment, segment.length with
    | [interval], 2 => return { h with interval }
    | _, _ => none
  | .application number => h.readApplication number segment
  | .comment => return h
  | _ => none

/-- Reads a scan; gives also what follows it. -/
def readScan (h : Header) (segment data : Bytes) : Option (Header × Bytes) := do
  let frame ← h.frame
  let selections ← Selection.ofSegment? frame segment
  let scan ← Scan.ofSelections? frame h.steps h.tables h.interval selections
  let (planes, following) ← scan.read frame data
  return ({ h with planes := h.planes ++ planes }, following)

/-- Reads segments up to the end of the picture. A restart may follow a scan directly. -/
def readSegments : (fuel : Nat) → (isAfterScan : Bool) → Header → Bytes → Option Header
  | 0, _, _, _ => none
  | fuel + 1, isAfterScan, h, data => do
    let (marker, rest) ← Marker.next? data
    match marker with
    | .endOfImage => return h
    | .restart _ => if isAfterScan then readSegments fuel false h rest else none
    | .unsupported => none
    | .scan =>
      let (segment, rest) ← splitSegment rest
      let (h, rest) ← h.readScan segment rest
      readSegments fuel true h rest
    | marker =>
      let (segment, rest) ← splitSegment rest
      readSegments fuel false (← h.readSegment marker segment) rest

/-- What three components are: told by their names, by the interchange format or by the number of the
transformation. -/
def colorModel? (h : Header) (frame : Frame) : Option ColorModel :=
  let names := frame.components.map (·.id)
  if names = [1, 2, 3] then some .luminance
  else if names = utf8 "RGB" then some .rgb
  else if names = utf8 "rgb" ∨ names = [1, 34, 35] then none
  else if h.isInterchange then some .luminance
  else if h.transform = some 0 then some .rgb
  else if h.transform = some 2 then none
  else some .luminance

/-- The picture, if there are planes for all components. -/
def picture? (h : Header) : Option Decoded := do
  let frame ← h.frame
  let planes ← frame.components.zipIdx.mapM fun (c, place) => do
    return (← h.planes.lookup place, ← frame.spread? c)
  Decoded.ofPlanes? frame (h.colorModel? frame) planes

end Header

/-- Decodes a picture; two bytes mark its start. -/
def decode (data : Bytes) : Except Error Decoded :=
  match data with
  | 0xFF :: 0xD8 :: rest =>
    match (Header.readSegments (rest.length + 1) false .empty rest).bind Header.picture? with
    | some decoded => .ok decoded
    | none => .error .picture
  | _ => .error .picture

end PdfCanvas.Jpeg
