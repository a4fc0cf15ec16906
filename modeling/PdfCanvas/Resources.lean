import PdfCanvas.Object

/-!
# Resources

Content refers to shared objects by names that the page's resource dictionary binds, one table of names
for each category. `Resources.add` hands out the names: an object that is bound already keeps its name,
any other gets a new one, and no name is ever bound again.
-/

namespace PdfCanvas

/-- The kinds of objects that content refers to. -/
inductive ResourceKind where
  | font
  | colorSpace
  | graphicsState
  | shading
  | pattern
  | properties
  | image
  | form
  deriving DecidableEq, Repr

namespace ResourceKind

/-- The table that binds a kind; images and forms share one. -/
def category : ResourceKind → String
  | .font => "Font"
  | .colorSpace => "ColorSpace"
  | .graphicsState => "ExtGState"
  | .shading => "Shading"
  | .pattern => "Pattern"
  | .properties => "Properties"
  | .image | .form => "XObject"

/-- What new names of a kind start with. -/
def stem : ResourceKind → String
  | .font => "F"
  | .colorSpace => "cs"
  | .graphicsState => "gs"
  | .shading => "sh"
  | .pattern => "p"
  | .properties => "Prop"
  | .image => "Im"
  | .form => "Form"

end ResourceKind

/-- The tables of names, by category; both are in the order of binding. -/
structure Resources where
  categories : List (String × Dictionary)

namespace Resources

def empty : Resources := ⟨[]⟩

/-- The names and objects of a category. -/
def entries (r : Resources) (category : String) : Dictionary := (r.categories.lookup category).getD []

/-- The object that a name stands for. -/
def get? (r : Resources) (kind : ResourceKind) (name : String) : Option Object :=
  (r.entries kind.category).get? name

/-- The names of a category. -/
def names (r : Resources) (kind : ResourceKind) : List String :=
  (r.entries kind.category).map (·.1)

def isEmpty (r : Resources) : Bool := r.categories.all (·.2.isEmpty)

/-- Changes the table of a category, which is made at the end if there is none. -/
def update (category : String) (change : Dictionary → Dictionary) :
    List (String × Dictionary) → List (String × Dictionary)
  | [] => [(category, change [])]
  | (other, entries) :: rest =>
    if other = category then (other, change entries) :: rest
    else (other, entries) :: update category change rest

/-- Takes over the names of a table. -/
def load (table entries : Dictionary) : Dictionary :=
  entries.foldl (fun table entry => table.insert entry.1 entry.2) table

/-- Takes over the entry of a resource dictionary; one that is not a dictionary is left out. -/
def loadCategory (r : Resources) (entry : String × Object) : Resources :=
  match entry with
  | (category, .dictionary entries) => ⟨update category (load · entries) r.categories⟩
  | _ => r

/-- The tables of a resource dictionary, with the names in the order of its entries. -/
def ofEntries (dictionary : Dictionary) : Resources := dictionary.foldl loadCategory empty

/-- Entries in ascending order of their keys. -/
def sorted {α : Type} (entries : List (String × α)) : List (String × α) :=
  entries.mergeSort fun a b => decide (a.1 ≤ b.1)

/-- A dictionary with its entries in ascending order. -/
def sortedTable : Object → Object
  | .dictionary entries => .dictionary (sorted entries)
  | other => other

/-- The tables of a resource dictionary. Its entries have no order of their own, so the names are taken
in ascending order. -/
def ofDictionary (dictionary : Dictionary) : Resources :=
  ofEntries ((sorted dictionary).map fun (category, value) => (category, sortedTable value))

/-- The resource dictionary; categories without names are left out. -/
def toDictionary (r : Resources) : Dictionary :=
  (r.categories.filter (!·.2.isEmpty)).map fun (category, entries) =>
    (category, .dictionary entries)

/-- The name that consists of a stem and a number. -/
def numberedName (stem : String) (number : Nat) : String := stem ++ toString number

/-- The first number after `number` whose name is free. A table of `rounds` names cannot take more
than that many numbers, so the last one tried needs no test. -/
def freeNumber (isTaken : Nat → Bool) (number : Nat) : (rounds : Nat) → Nat
  | 0 => number + 1
  | rounds + 1 =>
    if isTaken (number + 1) then freeNumber isTaken (number + 1) rounds else number + 1

/-- The name for an object that is not bound yet: the stem of its kind and the first free number above
the number of names. -/
def freshName (kind : ResourceKind) (entries : Dictionary) : String :=
  let isTaken number := (entries.get? (numberedName kind.stem number)).isSome
  numberedName kind.stem (freeNumber isTaken entries.length entries.length)

/-- The name of an object that equals a given one. -/
def nameOf? (entries : Dictionary) (object : Object) : Option String :=
  (entries.find? (·.2.same object)).map (·.1)

/-- Binds a name in a category, at the end. -/
def bind (r : Resources) (category name : String) (object : Object) : Resources :=
  ⟨update category (· ++ [(name, object)]) r.categories⟩

/-- The name of an object, and the resources with that name bound. -/
def add (r : Resources) (kind : ResourceKind) (object : Object) : String × Resources :=
  let entries := r.entries kind.category
  match nameOf? entries object with
  | some name => (name, r)
  | none =>
    let name := freshName kind entries
    (name, r.bind kind.category name object)

end Resources

end PdfCanvas
