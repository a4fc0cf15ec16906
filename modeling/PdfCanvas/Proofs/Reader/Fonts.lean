import PdfCanvas.Proofs.Reader.Operations

/-!
# The font of a reader

A reader of content shows text in the font that was selected last, which `q` saves and `Q` restores. It
knows a font by the name of a resource. At the start it has none.
-/

namespace PdfCanvas.Reader

structure FontReader where
  /-- The name by which the current font was selected. -/
  current : Option Bytes
  saved : List (Option Bytes)

namespace FontReader

def start : FontReader := ⟨none, []⟩

def select (reader : FontReader) (name : Bytes) : FontReader := { reader with current := some name }

def save (reader : FontReader) : FontReader :=
  { reader with saved := reader.current :: reader.saved }

/-- Without anything saved nothing changes. -/
def restore (reader : FontReader) : FontReader :=
  match reader.saved with
  | [] => reader
  | last :: rest => ⟨last, rest⟩

/-- Selects the font that the first operand names. -/
def selectNamed (reader : FontReader) : List Token → FontReader
  | .name name :: _ => reader.select name
  | _ => reader

def read (reader : FontReader) (operation : Operation) : FontReader :=
  match operation.operator with
  | "q" => reader.save
  | "Q" => reader.restore
  | "Tf" => reader.selectNamed operation.operands
  | _ => reader

def readAll (reader : FontReader) (operations : List Operation) : FontReader :=
  operations.foldl read reader

theorem readAll_append (reader : FontReader) (first second : List Operation) :
    reader.readAll (first ++ second) = (reader.readAll first).readAll second :=
  List.foldl_append

/-- The current font and those saved, the last one first. -/
def stack (reader : FontReader) : List (Option Bytes) := reader.current :: reader.saved

/-- Only three operators have to do with fonts. -/
theorem read_other {o : Operator} (other : o ∉ [.save, .restore, .selectFont])
    (operands : List Operand) (reader : FontReader) :
    reader.read (operationOf ⟨operands, o⟩) = reader := by
  cases o with
  | save | restore | selectFont => simp at other
  | _ => rfl

end FontReader

end PdfCanvas.Reader
