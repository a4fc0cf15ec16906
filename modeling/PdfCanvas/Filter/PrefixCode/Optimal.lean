import PdfCanvas.Filter.PrefixCode

/-!
# Optimal prefix codes

Code lengths for symbols that occur with given frequencies: the two lightest subtrees are joined until one
tree is left, and the depths of its leaves are the lengths, the longest for the rarest symbols. Codes that
would be too long are cut to a limit, for which shorter ones get longer.
-/

namespace PdfCanvas.PrefixCode

/-- A part of a code tree: how often its symbols occur together, and how deep they are. -/
structure Subtree where
  weight : Nat
  depths : List Nat
  deriving DecidableEq, Repr

namespace Subtree

/-- Joins two parts under a new node. -/
def join (s t : Subtree) : Subtree := ⟨s.weight + t.weight, (s.depths ++ t.depths).map (· + 1)⟩

/-- Places a part into an ascending list, behind all that weigh the same. -/
def place (s : Subtree) : List Subtree → List Subtree
  | [] => [s]
  | t :: rest => if s.weight < t.weight then s :: t :: rest else t :: place s rest

theorem length_place (s : Subtree) (parts : List Subtree) :
    (s.place parts).length = parts.length + 1 := by
  induction parts with
  | nil => rfl
  | cons t rest ih => simp only [place]; split <;> simp [ih]

/-- The depths in the tree that an ascending list of parts is joined to. -/
def joinAll : List Subtree → List Nat
  | [] => []
  | [s] => s.depths
  | s :: t :: rest => joinAll ((s.join t).place rest)
  termination_by parts => parts.length
  decreasing_by simp [length_place]

end Subtree

/-- The number of codes of each length up to the limit, the longest first; a code is one bit long at
least. -/
def countsByDepth (limit : Nat) (depths : List Nat) : List Nat :=
  (List.range' 1 limit).reverse.map fun length =>
    (depths.filter fun depth => max 1 (min limit depth) = length).length

/-- The number of bit strings of the greatest length that start with a code; `counts` are those of each
length, the longest first. -/
def covered : (counts : List Nat) → Nat
  | [] => 0
  | count :: counts => count + 2 * covered counts

/-- Takes one code away from the first length that has any, and adds two codes that are one bit longer;
`longer` is the number of those before. -/
def splitCode (longer : Nat) : (counts : List Nat) → List Nat
  | [] => [longer]
  | count :: counts =>
    if count = 0 then longer :: splitCode count counts
    else (longer + 2) :: (count - 1) :: counts

/-- Takes away one of the longest codes and replaces a shorter one by two. -/
def relieve : (counts : List Nat) → List Nat
  | [] => []
  | count :: counts => splitCode (count - 1) counts

/-- The code lengths within a limit, in descending order, for leaves at given depths. -/
def lengthsWithin (limit : Nat) (depths : List Nat) : List Nat :=
  let counts := countsByDepth limit depths
  let excess := covered counts - 1 <<< limit
  let counts := excess.repeat relieve counts
  (counts.zip (List.range' 1 limit).reverse).flatMap fun (count, length) =>
    List.replicate count length

/-- The code lengths of symbols that occur with the given frequencies; a symbol that does not occur has
none. -/
def optimalLengths (limit : Nat) (frequencies : List Nat) : List Nat :=
  let occurring := frequencies.zipIdx.filter fun (frequency, _) => 0 < frequency
  let ascending := occurring.mergeSort fun a b => a.1 ≤ b.1
  let depths := Subtree.joinAll (ascending.map fun (frequency, _) => ⟨frequency, [0]⟩)
  let lengths := (ascending.map (·.2)).zip (lengthsWithin limit depths)
  (List.range frequencies.length).map fun symbol => (lengths.lookup symbol).getD 0

end PdfCanvas.PrefixCode
