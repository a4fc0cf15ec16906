import PdfCanvas.Content.State
import PdfCanvas.Sink

/-!
# Drawing procedures

How each drawing call is carried out: the checks it makes, what it changes and what it writes, in this
order. A procedure that fails stops where it is; nothing that it has done by then is taken back.
-/

namespace PdfCanvas

structure ContentStream where
  state : DrawingState
  sink : Sink
  /-- The fraction digits that real operands keep. -/
  places : Nat

/-- A procedure on a content stream, which may fail. -/
abbrev Drawing (α : Type) := ExceptT Error (StateM ContentStream) α

namespace Drawing

/-- Carries out a procedure. -/
def exec {α : Type} (procedure : Drawing α) (c : ContentStream) :
    Except Error α × ContentStream :=
  Id.run (procedure.run.run c)

/-- Looks at the state, which may refuse what is to be done. -/
def ask {α : Type} (question : DrawingState → Except Error α) : Drawing α := do
  ofExcept (question (← get).state)

/-- Changes the state. -/
def change (f : DrawingState → DrawingState) : Drawing Unit :=
  modify fun c => { c with state := f c.state }

/-- Changes what is tracked of the graphics state. -/
def changeGraphics (f : GraphicsState → GraphicsState) : Drawing Unit :=
  change fun s => { s with graphics := f s.graphics }

/-- The name of an object, which is bound if it is not yet. -/
def bindName (naming : DrawingState → String × DrawingState) : Drawing String := do
  let (name, state) := naming (← get).state
  change fun _ => state
  return name

/-- Writes to the sink. -/
def emit (output : Output) : Drawing Unit := do
  let c ← get
  let (outcome, sink) := output.perform c.places c.sink
  set { c with sink }
  ofExcept outcome

/-- Writes an operator, whose operands are written by now. -/
def operator (o : Operator) : Drawing Unit := emit (.keyword o.keyword)

/-- Writes an operator with real operands. -/
def reals (o : Operator) (values : List Single) : Drawing Unit := do
  emit (.reals values)
  operator o

/-- Writes an operator with one name. -/
def named (o : Operator) (name : String) : Drawing Unit := do
  emit (.operand (.name name))
  operator o

def outsideText (operation : String) : Drawing Unit :=
  ask (·.graphics.requireOutsideText operation)

def insideText (operation : String) : Drawing Unit :=
  ask (·.graphics.requireInsideText operation)

/-- Writes an operator that has no place in a text object. -/
def pathOperator (operation : String) (o : Operator) : Drawing Unit := do
  outsideText operation
  operator o

/-- Writes an operator with real operands that has no place in a text object. -/
def pathReals (operation : String) (o : Operator) (values : List Single) : Drawing Unit := do
  outsideText operation
  reals o values

def setFont (font : Font) (size : Single) : Drawing Unit := do
  ask fun _ => checkFinite [size]
  change (·.registerFont font)
  let name ← bindName (·.bind .font font.toObject)
  changeGraphics (·.setFont font)
  emit (.operand (.name name))
  emit (.reals [size])
  operator .selectFont

def showText (text : String) : Drawing Unit := do
  insideText "showText"
  let (font, codes) ← ask (·.encodeText text)
  change (·.recordText font text)
  emit (.operand (.string codes))
  operator .showText

def save : Drawing Unit := do
  changeGraphics (·.save)
  operator .save

def restore : Drawing Unit := do
  changeGraphics (·.restore)
  operator .restore

/-- Writes an operator that names a resource. -/
def resource (o : Operator) (kind : ResourceKind) (object : Object) : Drawing Unit := do
  let name ← bindName (·.bind kind object)
  named o name

def setColorSpace (use : ColorUse) (space : ColorSpace) : Drawing Unit := do
  let name ← bindName (·.bindColorSpace space)
  changeGraphics (use.setSpace · space)
  named (.colorSpace use) name

/-- Sets a colour; its space is selected first unless it is the current one. -/
def setColor (use : ColorUse) (color : Color) : Drawing Unit := do
  ask fun _ => checkComponentCount color
  ask fun _ => checkFinite color.components
  if !(← ask fun s => .ok (use.isCurrent s.graphics color.space)) then
    setColorSpace use color.space
  reals (.color use) color.components

/-- Writes a colour given in levels from 0 to 255. -/
def levels (o : Operator) (color : String) (values : List Int) : Drawing Unit := do
  let units ← ask fun _ => unitsOfLevels color values
  reals o units

/-- Writes a colour given in numbers from 0 to 1. -/
def units (o : Operator) (color : String) (values : List Single) : Drawing Unit := do
  ask fun _ => checkUnits color values
  reals o values

def moveTo (point : Point) : Drawing Unit := pathReals "moveTo" .moveTo point.toList

def lineTo (point : Point) : Drawing Unit := pathReals "lineTo" .lineTo point.toList

def closePath : Drawing Unit := pathOperator "closePath" .closePath

/-- Moves to the first point and draws lines to the others. -/
def outline : List Point → Drawing Unit
  | [] => pure ()
  | first :: rest => do
    moveTo first
    rest.forM lineTo

def addPolygon (xs ys : List Single) : Drawing Unit := do
  outsideText "addPolygon"
  ask fun _ => checkCoordinates xs ys
  ask fun _ => checkFinite xs
  ask fun _ => checkFinite ys
  outline (xs.zipWith Point.mk ys)
  closePath

/-- Clipping takes effect with the operator that ends the path. -/
def clip (operation : String) (o : Operator) : Drawing Unit := do
  outsideText operation
  operator o
  operator .endPath

def setLineJoin (style : Int) : Drawing Unit := do
  outsideText "setLineJoinStyle"
  let join ← ask fun _ => LineJoin.ofInt style
  emit (.operand (.integer join.number))
  operator .lineJoin

def setLineCap (style : Int) : Drawing Unit := do
  outsideText "setLineCapStyle"
  let cap ← ask fun _ => LineCap.ofInt style
  emit (.operand (.integer cap.number))
  operator .lineCap

def setDash (pattern : List Single) (phase : Single) : Drawing Unit := do
  outsideText "setLineDashPattern"
  ask fun _ => checkFinite pattern
  ask fun _ => checkFinite [phase]
  emit (.verbatim [0x5B])
  emit (.reals pattern)
  emit (.verbatim [0x5D, 0x20])
  reals .dash [phase]

/-- Draws an image object in a rectangle, with the graphics state saved around it. -/
def drawImage (image : Object) (corner : Point) (width height : Single) : Drawing Unit := do
  outsideText "drawImage"
  ask fun _ => checkFinite [corner.x, corner.y, width, height]
  let name ← bindName (·.bind .image image)
  save
  reals .concatMatrix (Matrix.mk width .zero .zero height corner.x corner.y).toList
  named .drawObject name
  restore

def beginMarkedWith (tag : String) (properties : Object) : Drawing Unit := do
  let name ← bindName (·.bind .properties properties)
  emit (.operand (.name tag))
  named .beginMarkedWith name

/-- The procedure of a call. -/
def ofCall : Call → Drawing Unit
  | .beginText => do
    let graphics ← ask (·.graphics.beginText)
    changeGraphics fun _ => graphics
    operator .beginText
  | .endText => do
    let graphics ← ask (·.graphics.endText)
    changeGraphics fun _ => graphics
    operator .endText
  | .setFont font size => setFont font size
  | .showText text => showText text
  | .setLeading leading => reals .setLeading [leading]
  | .nextLine => do
    insideText "newLine"
    operator .nextLine
  | .moveLine offset => do
    insideText "newLineAtOffset"
    reals .moveLine offset.toList
  | .setTextMatrix matrix => do
    insideText "setTextMatrix"
    reals .textMatrix matrix.toList
  | .transform matrix => reals .concatMatrix matrix.toList
  | .save => save
  | .restore => restore
  | .setParameters parameters => resource .parameters .graphicsState parameters
  | .setColorSpace use space => setColorSpace use space
  | .setColor use color => setColor use color
  | .setRgbLevels use red green blue => levels (.rgb use) "RGB" [red, green, blue]
  | .setCmyk use inks => units (.cmyk use) "CMYK" inks.toList
  | .setCmykLevels use inks => levels (.cmyk use) "CMYK" inks.toList
  | .setGray use gray => units (.gray use) "gray" [gray]
  | .setGrayLevel use gray => levels (.gray use) "gray" [gray]
  | .addRectangle corner width height =>
    pathReals "addRect" .rectangle [corner.x, corner.y, width, height]
  | .curve first second last =>
    pathReals "curveTo" .curve (first.toList ++ second.toList ++ last.toList)
  | .curveFromCurrent second last =>
    pathReals "curveTo2" .curveFromCurrent (second.toList ++ last.toList)
  | .curveToFinal first last => pathReals "curveTo1" .curveToFinal (first.toList ++ last.toList)
  | .moveTo point => moveTo point
  | .lineTo point => lineTo point
  | .addPolygon xs ys => addPolygon xs ys
  | .closePath => closePath
  | .paint painting => pathOperator painting.operation painting.operator
  | .fillBy rule => pathOperator (Painting.ofRule rule).operation (Painting.ofRule rule).operator
  | .shade shading => do
    outsideText "shadingFill"
    resource .shade .shading shading
  | .clip .nonZero => clip "clip" .clip
  | .clip .evenOdd => clip "clipEvenOdd" .clipEvenOdd
  | .setLineWidth width => pathReals "setLineWidth" .lineWidth [width]
  | .setLineJoin style => setLineJoin style
  | .setLineCap style => setLineCap style
  | .setDash pattern phase => setDash pattern phase
  | .setMiterLimit limit => pathReals "setMiterLimit" .miterLimit [limit]
  | .drawImage image corner width height => drawImage image.toObject corner width height
  | .drawImageAt image corner =>
    drawImage image.toObject corner (Floating.ofNat image.width) (Floating.ofNat image.height)
  | .drawForm form => do
    outsideText "drawForm"
    resource .drawObject .form form
  | .beginMarked tag => named .beginMarked tag
  | .beginMarkedWith tag properties => beginMarkedWith tag properties
  | .endMarked => operator .endMarked
  | .appendText text => emit (.verbatim (utf8 text))
  | .appendBytes bytes => emit (.verbatim bytes)

end Drawing

end PdfCanvas
