import PdfCanvas.ColorSpace
import PdfCanvas.Font

/-!
# Graphics state

What a reader of the content knows at this point, as far as the next call depends on it: whether a text
object is open, the font, and the two colour spaces. Each of the last three is a stack that follows
`q` and `Q`. A stack that is empty when the state is saved stays empty, since there is nothing to
restore; a stack that is empty when the state is restored stays empty too.
-/

namespace PdfCanvas

structure GraphicsState where
  inText : Bool
  /-- The fonts, the current one first. -/
  fonts : List Font
  /-- The stroking colour spaces, the current one first. -/
  strokingSpaces : List ColorSpace
  /-- The filling colour spaces, the current one first. -/
  fillingSpaces : List ColorSpace

/-- Puts a value in the place of the first one. -/
def replaceTop {α : Type} (stack : List α) (value : α) : List α := value :: stack.tail

/-- Repeats the first value, if there is one. -/
def duplicateTop {α : Type} : List α → List α
  | [] => []
  | top :: rest => top :: top :: rest

namespace GraphicsState

def initial : GraphicsState := ⟨false, [], [], []⟩

def beginText (g : GraphicsState) : Except Error GraphicsState :=
  if g.inText then .error (.sequence .nestedText) else .ok { g with inText := true }

def endText (g : GraphicsState) : Except Error GraphicsState :=
  if g.inText then .ok { g with inText := false } else .error (.sequence .textNotOpen)

/-- Refuses an operation that has no place in a text object. -/
def requireOutsideText (g : GraphicsState) (operation : String) : Except Error Unit :=
  if g.inText then .error (.sequence (.insideText operation)) else .ok ()

/-- Refuses an operation that has its place in a text object only. -/
def requireInsideText (g : GraphicsState) (operation : String) : Except Error Unit :=
  if g.inText then .ok () else .error (.sequence (.outsideText operation))

def font? (g : GraphicsState) : Option Font := g.fonts.head?

def setFont (g : GraphicsState) (font : Font) : GraphicsState :=
  { g with fonts := replaceTop g.fonts font }

def strokingSpace? (g : GraphicsState) : Option ColorSpace := g.strokingSpaces.head?

def fillingSpace? (g : GraphicsState) : Option ColorSpace := g.fillingSpaces.head?

def setStrokingSpace (g : GraphicsState) (space : ColorSpace) : GraphicsState :=
  { g with strokingSpaces := replaceTop g.strokingSpaces space }

def setFillingSpace (g : GraphicsState) (space : ColorSpace) : GraphicsState :=
  { g with fillingSpaces := replaceTop g.fillingSpaces space }

/-- Follows `q`. -/
def save (g : GraphicsState) : GraphicsState :=
  { g with
    fonts := duplicateTop g.fonts
    strokingSpaces := duplicateTop g.strokingSpaces
    fillingSpaces := duplicateTop g.fillingSpaces }

/-- Follows `Q`. -/
def restore (g : GraphicsState) : GraphicsState :=
  { g with
    fonts := g.fonts.tail
    strokingSpaces := g.strokingSpaces.tail
    fillingSpaces := g.fillingSpaces.tail }

end GraphicsState

end PdfCanvas
