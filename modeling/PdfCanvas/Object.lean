import PdfCanvas.Bytes
import PdfCanvas.Floating

/-!
# Objects

The values a PDF document is made of. A dictionary is a list of entries with distinct keys; the order of
its entries carries no meaning, so equality (`Object.same`) looks every key up on the other side.
Equality is numeric on reals: "not a number" differs from itself, the two zeros are equal.
-/

namespace PdfCanvas

/-- The number and generation of an indirect object. -/
structure Ref where
  id : Nat
  generation : Nat
  deriving DecidableEq, Repr

namespace Ref

def text (r : Ref) : String := s!"{r.id} {r.generation} R"

/-- Order by number, then by generation. -/
def order (a b : Ref) : Ordering :=
  (compare a.id b.id).then (compare a.generation b.generation)

end Ref

inductive Object where
  | null
  | boolean (value : Bool)
  | integer (value : Int)
  | real (value : Double)
  | string (bytes : Bytes)
  | name (value : String)
  | array (items : List Object)
  | dictionary (entries : List (String × Object))
  | stream (entries : List (String × Object)) (data : Bytes)
  | reference (target : Ref)

/-- Entries with distinct keys; their order carries no meaning. -/
abbrev Dictionary := List (String × Object)

namespace Dictionary

def get? (d : Dictionary) (key : String) : Option Object := d.lookup key

/-- The first entry present among several keys, such as a full name and its abbreviation. -/
def getAny? (d : Dictionary) (keys : List String) : Option Object := keys.findSome? d.get?

/-- Binds a key: in its place if it is bound already, else at the end. -/
def insert (d : Dictionary) (key : String) (value : Object) : Dictionary :=
  match d with
  | [] => [(key, value)]
  | (k, v) :: rest => if k = key then (key, value) :: rest else (k, v) :: insert rest key value

def erase (d : Dictionary) (key : String) : Dictionary := d.filter (·.1 ≠ key)

end Dictionary

namespace Object

mutual

/-- Equality of objects. -/
def same : Object → Object → Bool
  | .null, .null => true
  | .boolean a, .boolean b => a == b
  | .integer a, .integer b => a == b
  | .real a, .real b => a.same b
  | .string a, .string b => a == b
  | .name a, .name b => a == b
  | .array a, .array b => sameItems a b
  | .dictionary a, .dictionary b => a.length == b.length && sameEntries a b
  | .stream a x, .stream b y => a.length == b.length && sameEntries a b && x == y
  | .reference a, .reference b => a == b
  | _, _ => false
  termination_by structural a => a

def sameItems : List Object → List Object → Bool
  | [], [] => true
  | a :: as, b :: bs => same a b && sameItems as bs
  | _, _ => false
  termination_by structural a => a

/-- Every entry of the first list has an equal one in the second. -/
def sameEntries : List (String × Object) → List (String × Object) → Bool
  | [], _ => true
  | entry :: rest, others => sameEntry entry others && sameEntries rest others
  termination_by structural a => a

def sameEntry : String × Object → List (String × Object) → Bool
  | (key, value), others =>
    match others.lookup key with
    | some other => same value other
    | none => false
  termination_by structural a => a

end

def typeName : Object → String
  | .null => "Null"
  | .boolean _ => "Boolean"
  | .integer _ => "Integer"
  | .real _ => "Real"
  | .string _ => "String"
  | .name _ => "Name"
  | .array _ => "Array"
  | .dictionary _ => "Dictionary"
  | .stream .. => "Stream"
  | .reference _ => "Reference"

def isNull : Object → Bool
  | .null => true
  | _ => false

def integer? : Object → Option Int
  | .integer n => some n
  | _ => none

/-- The value of an integer or a real. -/
def number? : Object → Option Double
  | .integer n => some (Floating.ofInt n)
  | .real x => some x
  | _ => none

def name? : Object → Option String
  | .name n => some n
  | _ => none

/-- The entries of a dictionary or of a stream. -/
def dictionary? : Object → Option Dictionary
  | .dictionary entries => some entries
  | .stream entries _ => some entries
  | _ => none

def array? : Object → Option (List Object)
  | .array items => some items
  | _ => none

def reference? : Object → Option Ref
  | .reference target => some target
  | _ => none

def boolean? : Object → Option Bool
  | .boolean b => some b
  | _ => none

def string? : Object → Option Bytes
  | .string bytes => some bytes
  | _ => none

end Object

/-- A stream: a dictionary that describes data, and the data, still filtered. -/
structure Stream where
  entries : Dictionary
  data : Bytes

namespace Stream

def empty : Stream := ⟨[], []⟩

def ofObject? : Object → Option Stream
  | .stream entries data => some ⟨entries, data⟩
  | _ => none

def toObject (s : Stream) : Object := .stream s.entries s.data

def get? (s : Stream) (key : String) : Option Object := s.entries.get? key

def getAny? (s : Stream) (keys : List String) : Option Object := s.entries.getAny? keys

def insert (s : Stream) (key : String) (value : Object) : Stream :=
  { s with entries := s.entries.insert key value }

/-- The names of the filters, in the order of decoding: the one name given, or the names in the
array given; anything else is not a filter. -/
def filterNames (s : Stream) : List String :=
  match s.getAny? ["Filter", "F"] with
  | some (.name n) => [n]
  | some (.array items) => items.filterMap Object.name?
  | _ => []

/-- Replaces the data and records their length. -/
def setData (s : Stream) (data : Bytes) : Stream :=
  { s.insert "Length" (.integer data.length) with data := data }

end Stream

end PdfCanvas
