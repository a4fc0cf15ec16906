import PdfCanvas.Content.Call
import PdfCanvas.Font.Subsets
import PdfCanvas.Operand
import PdfCanvas.Resources

/-!
# Drawing state

What a content stream knows between two calls, the checks that calls make before they change any of it,
and the operators and operation names that belong to families of calls.
-/

namespace PdfCanvas

/-- What a content stream knows between two calls. -/
structure DrawingState where
  graphics : GraphicsState
  resources : Resources
  subsets : Subsets

namespace Operator

def colorSpace : ColorUse → Operator
  | .stroking => .strokingSpace
  | .filling => .fillingSpace

def color : ColorUse → Operator
  | .stroking => .strokingColor
  | .filling => .fillingColor

def gray : ColorUse → Operator
  | .stroking => .strokingGray
  | .filling => .fillingGray

def rgb : ColorUse → Operator
  | .stroking => .strokingRgb
  | .filling => .fillingRgb

def cmyk : ColorUse → Operator
  | .stroking => .strokingCmyk
  | .filling => .fillingCmyk

end Operator

namespace Painting

def operator : Painting → Operator
  | .stroke => .stroke
  | .closeStroke => .closeStroke
  | .fill => .fill
  | .fillEvenOdd => .fillEvenOdd
  | .fillStroke => .fillStroke
  | .fillStrokeEvenOdd => .fillStrokeEvenOdd
  | .closeFillStroke => .closeFillStroke
  | .closeFillStrokeEvenOdd => .closeFillStrokeEvenOdd
  | .leave => .endPath

/-- The name of the operation in errors. -/
def operation : Painting → String
  | .stroke => "stroke"
  | .closeStroke => "closeAndStroke"
  | .fill => "fill"
  | .fillEvenOdd => "fillEvenOdd"
  | .fillStroke => "fillAndStroke"
  | .fillStrokeEvenOdd => "fillAndStrokeEvenOdd"
  | .closeFillStroke => "closeFillAndStroke"
  | .closeFillStrokeEvenOdd => "closeFillAndStrokeEvenOdd"
  | .leave => "endPath"

/-- Filling by a rule. -/
def ofRule : WindingRule → Painting
  | .nonZero => .fill
  | .evenOdd => .fillEvenOdd

end Painting

namespace ColorUse

/-- The current space of a use. -/
def space? (use : ColorUse) (g : GraphicsState) : Option ColorSpace :=
  match use with
  | .stroking => g.strokingSpace?
  | .filling => g.fillingSpace?

def setSpace (use : ColorUse) (g : GraphicsState) (space : ColorSpace) : GraphicsState :=
  match use with
  | .stroking => g.setStrokingSpace space
  | .filling => g.setFillingSpace space

/-- Whether a space equals the current one of a use. -/
def isCurrent (use : ColorUse) (g : GraphicsState) (space : ColorSpace) : Bool :=
  match use.space? g with
  | some current => current.same space
  | none => false

end ColorUse

/-- Levels from 0 to 255 as numbers from 0 to 1; the first level out of range is the error. -/
def unitsOfLevels (color : String) (levels : List Int) : Except Error (List Single) :=
  levels.mapM fun level =>
    if 0 ≤ level ∧ level ≤ 255 then .ok (Floating.ofInt level / Floating.ofNat 255)
    else .error (.unsupportedValue (.levelOutOfRange color level))

/-- Refuses the first number that is not from 0 to 1. -/
def checkUnits (color : String) (values : List Single) : Except Error Unit :=
  let isUnit (x : Single) : Bool :=
    !x.lt Floating.zero && !Floating.one.lt x && x != .nan
  match values.find? (!isUnit ·) with
  | some value => .error (.unsupportedValue (.unitOutOfRange color value))
  | none => .ok ()

/-- Refuses a colour whose components are not those of its space. -/
def checkComponentCount (color : Color) : Except Error Unit :=
  if color.components.length = color.space.components then .ok ()
  else .error (.format (.componentCount color.space.name color.space.components
    color.components.length))

/-- Refuses coordinates that do not pair up. -/
def checkCoordinates (xs ys : List Single) : Except Error Unit :=
  if xs.length = ys.length then .ok ()
  else .error (.format (.coordinateCounts xs.length ys.length))

namespace DrawingState

/-- Binds an object in the resources. -/
def bind (s : DrawingState) (kind : ResourceKind) (object : Object) : String × DrawingState :=
  let (name, resources) := s.resources.add kind object
  (name, { s with resources })

/-- The name that selects a colour space: its own if it has a fixed one, else that of a resource. -/
def bindColorSpace (s : DrawingState) (space : ColorSpace) : String × DrawingState :=
  if space.hasFixedName then (space.name, s) else s.bind .colorSpace space.toObject

/-- Registers a font that is to be cut down. -/
def registerFont (s : DrawingState) (font : Font) : DrawingState :=
  if font.subset then { s with subsets := s.subsets.register font } else s

/-- Records the characters of a text shown with a font that is to be cut down. -/
def recordText (s : DrawingState) (font : Font) (text : String) : DrawingState :=
  if font.subset then { s with subsets := s.subsets.addText font text } else s

/-- The codes of a text in the current font, and that font. -/
def encodeText (s : DrawingState) (text : String) : Except Error (Font × Bytes) :=
  match s.graphics.font? with
  | none => .error (.sequence .noFont)
  | some font => do return (font, ← font.encode text)

end DrawingState

end PdfCanvas
