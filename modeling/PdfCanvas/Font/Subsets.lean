import PdfCanvas.Font
import PdfCanvas.SipHash

/-!
# Font subsets

Which code points were shown with each font that is to be cut down, in the order in which the fonts were
registered. The name of the cut-down font starts with six letters that depend on the set of code points
alone.
-/

namespace PdfCanvas

/-- A registered font: the name it had then, and the code points shown, in ascending order. -/
structure SubsetEntry where
  target : Ref
  baseName : String
  points : List Nat
  deriving DecidableEq, Repr

/-- The registered fonts, in order of registration. -/
structure Subsets where
  entries : List SubsetEntry
  deriving DecidableEq, Repr

/-- Adds a number to an ascending list, once. -/
def insertAscending (point : Nat) : List Nat → List Nat
  | [] => [point]
  | head :: rest =>
    if point < head then point :: head :: rest
    else if point = head then head :: rest
    else head :: insertAscending point rest

namespace SubsetEntry

/-- The little-endian bytes of a code point. -/
def pointBytes (point : Nat) : Bytes :=
  [point.toUInt8, (point >>> 8).toUInt8, (point >>> 16).toUInt8, (point >>> 24).toUInt8]

/-- Letters of a number in base 26, the least significant first. -/
def letters : Nat → Nat → List Char
  | 0, _ => []
  | count + 1, value => Char.ofNat (65 + value % 26) :: letters count (value / 26)

/-- The six letters that stand for a set of code points. -/
def tag (points : List Nat) : String :=
  String.ofList (letters 6 (SipHash.hash (points.flatMap pointBytes)).toNat)

/-- The name of the cut-down font. -/
def name (entry : SubsetEntry) : String := tag entry.points ++ "+" ++ entry.baseName

end SubsetEntry

namespace Subsets

def empty : Subsets := ⟨[]⟩

def find? (s : Subsets) (font : Font) : Option SubsetEntry :=
  s.entries.find? (·.target = font.target)

def isRegistered (s : Subsets) (font : Font) : Bool := (s.find? font).isSome

/-- Registers a font without any code point; one that is registered stays as it is. -/
def register (s : Subsets) (font : Font) : Subsets :=
  if s.isRegistered font then s else ⟨s.entries ++ [⟨font.target, font.baseName, []⟩]⟩

/-- Records a code point for a font, which is registered first if need be. -/
def addPoint (s : Subsets) (font : Font) (point : Nat) : Subsets :=
  let registered := s.register font
  ⟨registered.entries.map fun entry =>
    if entry.target = font.target then { entry with points := insertAscending point entry.points }
    else entry⟩

/-- Records the characters of a text. -/
def addText (s : Subsets) (font : Font) (text : String) : Subsets :=
  text.toList.foldl (fun s c => s.addPoint font c.toNat) s

/-- The name of a registered font once it is cut down. -/
def subsetName? (s : Subsets) (font : Font) : Option String := (s.find? font).map (·.name)

end Subsets

end PdfCanvas
