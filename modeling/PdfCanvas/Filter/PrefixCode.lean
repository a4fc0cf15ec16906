import PdfCanvas.Filter.Bits

/-!
# Prefix codes

A prefix code is a binary tree with symbols at its leaves. The canonical code of a list of lengths gives
codes of one length in the order of their symbols, and shorter codes before longer ones; the most
significant bit of a code is read first.
-/

namespace PdfCanvas

/-- A binary tree that a code is read with. -/
inductive CodeTree where
  /-- No code starts with the bits read so far. -/
  | gap
  | leaf (symbol : Nat)
  | node (zero one : CodeTree)
  deriving DecidableEq, Repr

/-- What ends the reading of data before its end. -/
inductive Stop where
  /-- The data end in the middle. -/
  | truncated
  /-- The data cannot be continued to something valid. -/
  | invalid
  deriving DecidableEq, Repr

namespace CodeTree

/-- Adds a symbol under a code. -/
def insert (symbol : Nat) : Bits → CodeTree → CodeTree
  | [], _ => .leaf symbol
  | false :: code, .node zero one => .node (zero.insert symbol code) one
  | true :: code, .node zero one => .node zero (one.insert symbol code)
  | false :: code, _ => .node (CodeTree.gap.insert symbol code) .gap
  | true :: code, _ => .node .gap (CodeTree.gap.insert symbol code)

/-- Reads one symbol. -/
def decode : CodeTree → Bits → Except Stop (Nat × Bits)
  | .leaf symbol, bits => .ok (symbol, bits)
  | .gap, _ => .error .invalid
  | .node _ _, [] => .error .truncated
  | .node zero _, false :: bits => zero.decode bits
  | .node _ one, true :: bits => one.decode bits

end CodeTree

namespace PrefixCode

/-- The symbols with codes of a length, in ascending order. -/
def symbolsOfLength (lengths : List Nat) (length : Nat) : List Nat :=
  (List.range lengths.length).filter fun symbol => lengths[symbol]? = some length

/-- Codes for symbols of one length, counted up from the first. -/
def consecutive (length first : Nat) (symbols : List Nat) : List (Nat × Bits) :=
  (symbols.zip (List.range' first symbols.length)).map fun (symbol, code) =>
    (symbol, (Bits.ofNat length code).reverse)

/-- The codes for symbols of `length` bits and more, up to `remaining` lengths on. The first code of a
length follows the last code of the length before, with a zero added. -/
def codesFrom (lengths : List Nat) : (remaining : Nat) → (length first : Nat) → List (Nat × Bits)
  | 0, _, _ => []
  | remaining + 1, length, first =>
    let symbols := symbolsOfLength lengths length
    consecutive length first symbols ++
      codesFrom lengths remaining (length + 1) (2 * (first + symbols.length))

/-- The canonical codes of a list of lengths of at most fifteen bits. -/
def codes (lengths : List Nat) : List (Nat × Bits) := codesFrom lengths 15 1 0

/-- The tree of the canonical code. Reading takes a bit also where no symbol has a code. -/
def tree (lengths : List Nat) : CodeTree :=
  (codes lengths).foldl (fun tree (symbol, code) => tree.insert symbol code) (.node .gap .gap)

/-- The lengths of the symbols that have a code. -/
def used (lengths : List Nat) : List Nat := lengths.filter (0 < ·)

/-- The share of all fifteen bit strings that start with a code, in units of one such string. -/
def weight (lengths : List Nat) : Nat :=
  (used lengths).foldr (fun length sum => 1 <<< (15 - length) + sum) 0

/-- Whether every string of bits starts with exactly one code. -/
def isComplete (lengths : List Nat) : Bool := weight lengths = 1 <<< 15

end PrefixCode

end PdfCanvas
