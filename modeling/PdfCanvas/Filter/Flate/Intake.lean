import PdfCanvas.Filter.Inflate

/-!
# Taking in inflated data

Data are inflated a window of 32768 bytes at a time, and are given to it in pieces of that size as well.
Inflating pauses where a window is full and more is to come, and where a piece of the data is used up. What
was inflated is taken in by readings into a buffer that doubles when it is full. A reading ends with the
buffer, or with a piece of the data; the bytes of a reading during which the data turn out invalid are
lost.
-/

namespace PdfCanvas.Flate

/-- The size of a window, and of a piece of the data. -/
def window : Nat := 32768

/-! ## Pauses -/

/-- A pause of inflating. -/
structure Pause where
  /-- The number of bytes inflated before. -/
  size : Nat
  /-- Whether the piece of the data is used up. -/
  isDrained : Bool
  deriving DecidableEq, Repr

/-- The sizes between two sizes at which windows are full. -/
def fullWindows (start size : Nat) : List Nat :=
  ((List.range (size / window + 1)).map (window * ·)).filter fun full =>
    start < full && full < size

/-- The pauses while data are inflated whose pieces have the given ends, after `start` bytes. A full window
is noticed when the next item has been read, which may use up the piece. -/
def pausesFrom (inflate : Bytes → Inflate.Result) (data : Bytes) (start : Nat) :
    (ends : List Nat) → List Pause
  | [] => []
  | last :: ends =>
    let result := inflate (data.take last)
    let size := result.output.size
    let sizeBefore := (inflate (data.take (last - 1))).output.size
    let inside := (fullWindows start size).map fun full => ⟨full, sizeBefore ≤ full⟩
    match result.rest, inside.find? (·.isDrained) with
    | .error .truncated, some pause => inside ++ pausesFrom inflate data pause.size ends
    | .error .truncated, none => inside ++ ⟨size, true⟩ :: pausesFrom inflate data size ends
    | _, _ => inside

/-- The ends of the pieces of so many bytes. -/
def pieceEnds (count : Nat) : List Nat :=
  (List.range (count / window)).map (fun index => window * (index + 1)) ++ [count]

/-- The pauses while data are inflated. -/
def pauses (inflate : Bytes → Inflate.Result) (data : Bytes) : List Pause :=
  pausesFrom inflate data 0 (pieceEnds data.length)

/-! ## Readings -/

/-- A buffer that is being filled. -/
structure Intake where
  /-- The bytes of the readings that have ended. -/
  held : Nat
  capacity : Nat
  /-- The most bytes of a reading. -/
  largest : Nat
  /-- The bytes of the reading under way. -/
  coming : Nat
  deriving DecidableEq, Repr

namespace Intake

def empty : Intake := ⟨0, 32, 8192, 0⟩

/-- The bytes that the reading under way is to bring. -/
def wanted (i : Intake) : Nat := min (i.capacity - i.held) i.largest

/-- Ends a reading. A full buffer is doubled, and so is the largest reading if it brought all it was to
bring. -/
def endReading (i : Intake) : Intake :=
  let held := i.held + i.coming
  { held
    capacity := if held = i.capacity then 2 * i.capacity else i.capacity
    largest := if i.largest ≤ i.wanted ∧ i.coming = i.wanted then 2 * i.largest else i.largest
    coming := 0 }

/-- Takes in `count` bytes that wait, by readings of their own; as many are fuel enough. -/
def takeWaiting : (fuel count : Nat) → Intake → Intake
  | 0, _, i => i
  | fuel + 1, count, i =>
    if count = 0 then i
    else
      let part := min count i.wanted
      takeWaiting fuel (count - part) { i with coming := part }.endReading

/-- Takes in `count` bytes that were inflated up to a pause. The reading goes on if it is to bring more and
the piece of the data is not used up. -/
def take (count : Nat) (isDrained : Bool) (i : Intake) : Intake :=
  let room := i.wanted - i.coming
  if count < room then
    let i := { i with coming := i.coming + count }
    if isDrained then i.endReading else i
  else takeWaiting count (count - room) { i with coming := i.wanted }.endReading

/-- Takes in what was inflated up to some pauses, of which `size` bytes are taken in already. -/
def takeAll (size : Nat) (i : Intake) : List Pause → Intake
  | [] => i
  | pause :: pauses => takeAll pause.size (i.take (pause.size - size) pause.isDrained) pauses

end Intake

/-- How many bytes of data are kept that turn out invalid: those of the readings that had ended. -/
def keptOfInvalid (inflate : Bytes → Inflate.Result) (data : Bytes) : Nat :=
  (Intake.empty.takeAll 0 (pauses inflate data)).held

end PdfCanvas.Flate
