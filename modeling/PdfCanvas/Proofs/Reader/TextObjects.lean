import PdfCanvas.Proofs.Reader.Operations

/-!
# Text objects of content

Content opens a text object with `BT` and closes it with `ET`. Text is placed and shown inside text objects
only, and paths and objects are drawn outside them only.
-/

namespace PdfCanvas.Reader

/-- Operators that place text or show it. -/
def textOperators : List String := ["Td", "T*", "Tm", "Tj"]

/-- Operators that make paths, paint them, clip to them or set their style, and those that draw objects. -/
def pathOperators : List String :=
  ["m", "l", "c", "v", "y", "re", "h", "S", "s", "f", "f*", "B", "B*", "b", "b*", "n", "W", "W*", "sh",
    "Do", "w", "j", "J", "M", "d"]

/-- The `BT` and `ET` of content. -/
def textMarks (operations : List Operation) : List String :=
  (operations.map (·.operator)).filter fun operator => operator = "BT" ∨ operator = "ET"

/-- The last `BT` has no `ET` yet. -/
def TextIsOpen (operations : List Operation) : Prop := (textMarks operations).getLast? = some "BT"

/-- An operation behind those before it stands where text objects allow it. -/
structure IsPlaced (before : List Operation) (operation : Operation) : Prop where
  inside : operation.operator ∈ textOperators → TextIsOpen before
  outside : operation.operator ∈ pathOperators → ¬ TextIsOpen before
  font : operation.operator = "Tj" → ∃ earlier ∈ before, earlier.operator = "Tf"

/-- So many text objects, one after the other, and one that is still open. -/
def alternatingMarks (closed : Nat) (isOpen : Bool) : List String :=
  (List.replicate closed ["BT", "ET"]).flatten ++ if isOpen then ["BT"] else []

theorem alternatingMarks_close (closed : Nat) :
    alternatingMarks closed true ++ ["ET"] = alternatingMarks (closed + 1) false := by
  simp [alternatingMarks, List.replicate_succ']

theorem alternatingMarks_prefix (closed : Nat) (isOpen : Bool) :
    alternatingMarks closed isOpen <+: (List.replicate (closed + 1) ["BT", "ET"]).flatten := by
  cases isOpen with
  | false => exact ⟨["BT", "ET"], by simp [alternatingMarks, List.replicate_succ']⟩
  | true => exact ⟨["ET"], by simp [alternatingMarks, List.replicate_succ']⟩

theorem textIsOpen_iff {operations : List Operation} {closed : Nat} {isOpen : Bool}
    (marks : textMarks operations = alternatingMarks closed isOpen) :
    TextIsOpen operations ↔ isOpen = true := by
  rw [TextIsOpen, marks]
  cases isOpen with
  | true => simp [alternatingMarks]
  | false =>
    cases closed with
    | zero => simp [alternatingMarks]
    | succ closed =>
      rw [← alternatingMarks_close]
      simp

theorem textMarks_append (first second : List Operation) :
    textMarks (first ++ second) = textMarks first ++ textMarks second := by
  simp [textMarks]

end PdfCanvas.Reader
