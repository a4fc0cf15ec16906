import PdfCanvas.Content.State
import PdfCanvas.Proofs.Reader.Operations

/-!
# Colour spaces of a reader

A reader of content keeps a current colour space for strokes and one for everything else, which `q` saves
and `Q` restores. It takes up another one where the content names it, and also where a colour is given in
numbers of a device space.
-/

namespace PdfCanvas

namespace Reader

/-- How a reader has come by a colour space. -/
inductive Selection where
  /-- Content has not selected any: it is DeviceGray. -/
  | initial
  /-- By a colour in numbers of a device space. -/
  | numeric (device : ColorSpace)
  /-- By the name of a family or of a resource. -/
  | named (name : Bytes)

/-- The names of families that a reader does not look up in the resources. -/
def familyNames : List String := ["DeviceGray", "DeviceRGB", "DeviceCMYK", "Pattern"]

/-- The colour space selected, as the object that names or describes it. -/
def Selection.object? (r : Resources) : Selection → Option Object
  | .initial => some ColorSpace.gray.toObject
  | .numeric device => some device.toObject
  | .named name =>
    match familyNames.find? (utf8 · = name) with
    | some family => some (.name family)
    | none =>
      ((r.entries ResourceKind.colorSpace.category).find? (utf8 ·.1 = name)).map (·.2)

structure Selections where
  stroking : Selection
  filling : Selection

namespace Selections

def get (s : Selections) : ColorUse → Selection
  | .stroking => s.stroking
  | .filling => s.filling

def set (s : Selections) (use : ColorUse) (selection : Selection) : Selections :=
  match use with
  | .stroking => { s with stroking := selection }
  | .filling => { s with filling := selection }

end Selections

structure ColorReader where
  current : Selections
  saved : List Selections

namespace ColorReader

def start : ColorReader := ⟨⟨.initial, .initial⟩, []⟩

def select (reader : ColorReader) (use : ColorUse) (selection : Selection) : ColorReader :=
  { reader with current := reader.current.set use selection }

def save (reader : ColorReader) : ColorReader :=
  { reader with saved := reader.current :: reader.saved }

/-- Without anything saved nothing changes. -/
def restore (reader : ColorReader) : ColorReader :=
  match reader.saved with
  | [] => reader
  | last :: rest => ⟨last, rest⟩

/-- Selects the space that an operand names. -/
def selectNamed (reader : ColorReader) (use : ColorUse) : List Token → ColorReader
  | [.name name] => reader.select use (.named name)
  | _ => reader

def read (reader : ColorReader) (operation : Operation) : ColorReader :=
  match operation.operator with
  | "q" => reader.save
  | "Q" => reader.restore
  | "CS" => reader.selectNamed .stroking operation.operands
  | "cs" => reader.selectNamed .filling operation.operands
  | "G" => reader.select .stroking (.numeric .gray)
  | "g" => reader.select .filling (.numeric .gray)
  | "RG" => reader.select .stroking (.numeric .rgb)
  | "rg" => reader.select .filling (.numeric .rgb)
  | "K" => reader.select .stroking (.numeric .cmyk)
  | "k" => reader.select .filling (.numeric .cmyk)
  | _ => reader

def readAll (reader : ColorReader) (operations : List Operation) : ColorReader :=
  operations.foldl read reader

theorem readAll_append (reader : ColorReader) (first second : List Operation) :
    reader.readAll (first ++ second) = (reader.readAll first).readAll second :=
  List.foldl_append

def selections (reader : ColorReader) (use : ColorUse) : List Selection :=
  (reader.current :: reader.saved).map (·.get use)

end ColorReader

end Reader

end PdfCanvas
