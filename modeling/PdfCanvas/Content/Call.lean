import PdfCanvas.GraphicsState
import PdfCanvas.Image.Basic

/-!
# Drawing calls

What can be asked of a content stream, with the arguments as the caller gives them. Whether a call is
allowed and what it writes is in `PdfCanvas.Content.Drawing`.
-/

namespace PdfCanvas

/-- Which of the two current colours a call is about. -/
inductive ColorUse where
  | stroking
  | filling
  deriving DecidableEq, Repr

/-- The shape of line ends. -/
inductive LineCap where
  | butt
  | round
  | square
  deriving DecidableEq, Repr

/-- The shape of corners. -/
inductive LineJoin where
  | miter
  | round
  | bevel
  deriving DecidableEq, Repr

/-- Which points a path encloses. -/
inductive WindingRule where
  | nonZero
  | evenOdd
  deriving DecidableEq, Repr

def LineCap.number : LineCap → Int
  | .butt => 0
  | .round => 1
  | .square => 2

def LineCap.ofInt (value : Int) : Except Error LineCap :=
  if value = 0 then .ok .butt
  else if value = 1 then .ok .round
  else if value = 2 then .ok .square
  else .error (.unsupportedValue (.unknownStyle "line cap style" value))

def LineJoin.number : LineJoin → Int
  | .miter => 0
  | .round => 1
  | .bevel => 2

def LineJoin.ofInt (value : Int) : Except Error LineJoin :=
  if value = 0 then .ok .miter
  else if value = 1 then .ok .round
  else if value = 2 then .ok .bevel
  else .error (.unsupportedValue (.unknownStyle "line join style" value))

def WindingRule.ofInt (value : Int) : Except Error WindingRule :=
  if value = 0 then .ok .nonZero
  else if value = 1 then .ok .evenOdd
  else .error (.unsupportedValue (.unknownStyle "winding rule" value))

/-- A point of user space. -/
structure Point where
  x : Single
  y : Single

namespace Point

def toList (p : Point) : List Single := [p.x, p.y]

end Point

/-- The six numbers of an affine map. -/
structure Matrix where
  a : Single
  b : Single
  c : Single
  d : Single
  e : Single
  f : Single

namespace Matrix

def toList (m : Matrix) : List Single := [m.a, m.b, m.c, m.d, m.e, m.f]

end Matrix

/-- A colour in process inks. -/
structure Inks (α : Type) where
  cyan : α
  magenta : α
  yellow : α
  black : α

namespace Inks

def toList {α : Type} (inks : Inks α) : List α :=
  [inks.cyan, inks.magenta, inks.yellow, inks.black]

end Inks

/-- What is done with a finished path. -/
inductive Painting where
  | stroke
  | closeStroke
  | fill
  | fillEvenOdd
  | fillStroke
  | fillStrokeEvenOdd
  | closeFillStroke
  | closeFillStrokeEvenOdd
  | leave
  deriving DecidableEq, Repr

/-- A drawing call. -/
inductive Call where
  | beginText
  | endText
  | setFont (font : Font) (size : Single)
  | showText (text : String)
  | setLeading (leading : Single)
  | nextLine
  | moveLine (offset : Point)
  | setTextMatrix (matrix : Matrix)
  | transform (matrix : Matrix)
  | save
  | restore
  | setParameters (parameters : Object)
  | setColorSpace (use : ColorUse) (space : ColorSpace)
  | setColor (use : ColorUse) (color : Color)
  | setRgbLevels (use : ColorUse) (red green blue : Int)
  | setCmyk (use : ColorUse) (inks : Inks Single)
  | setCmykLevels (use : ColorUse) (inks : Inks Int)
  | setGray (use : ColorUse) (gray : Single)
  | setGrayLevel (use : ColorUse) (gray : Int)
  | addRectangle (corner : Point) (width height : Single)
  | curve (first second last : Point)
  | curveFromCurrent (second last : Point)
  | curveToFinal (first last : Point)
  | moveTo (point : Point)
  | lineTo (point : Point)
  | addPolygon (xs ys : List Single)
  | closePath
  | paint (painting : Painting)
  | fillBy (rule : WindingRule)
  | shade (shading : Object)
  | clip (rule : WindingRule)
  | setLineWidth (width : Single)
  | setLineJoin (style : Int)
  | setLineCap (style : Int)
  | setDash (pattern : List Single) (phase : Single)
  | setMiterLimit (limit : Single)
  | drawImage (image : Image) (corner : Point) (width height : Single)
  | drawImageAt (image : Image) (corner : Point)
  | drawForm (form : Object)
  | beginMarked (tag : String)
  | beginMarkedWith (tag : String) (properties : Object)
  | endMarked
  | appendText (text : String)
  | appendBytes (bytes : Bytes)

end PdfCanvas
