import PdfCanvas.Filter.Inflate

/-!
# Copies for deflating

Bytes that were there before are replaced by copies. Positions whose next three bytes have the same hash
form a chain, from which the longest copy is taken; the search is bounded. A short copy is put off by one
byte, in case a longer one starts there.
-/

namespace PdfCanvas.Deflate

open Inflate (Item)

/-- The hash of three bytes. -/
def hash (a b c : UInt8) : Nat :=
  ((a.toNat <<< 10) ^^^ (b.toNat <<< 5) ^^^ c.toNat) % 32768

/-- Bytes with their chains. -/
structure Chains where
  data : Array UInt8
  /-- The position before each one in its chain, or zero. -/
  earlier : Array Nat

namespace Chains

/-- The positions before each one in its chain, from `position` on; `latest` holds the last position of
each hash. -/
def link (position : Nat) (latest earlier : Array Nat) : Bytes → Array Nat
  | a :: b :: c :: rest =>
    let h := hash a b c
    link (position + 1) (latest.setIfInBounds h position) (earlier.push (latest[h]?.getD 0))
      (b :: c :: rest)
  | _ => earlier

def ofBytes (bytes : Bytes) : Chains :=
  ⟨bytes.toArray, link 0 (Array.replicate 32768 0) #[] bytes⟩

/-- The number of bytes, up to a limit, that are the same from two positions on. -/
def commonLength (c : Chains) : (limit : Nat) → (p q : Nat) → Nat
  | 0, _, _ => 0
  | limit + 1, p, q => if c.data[p]? = c.data[q]? then c.commonLength limit (p + 1) (q + 1) + 1 else 0

/-- What some steps along a chain lead to. -/
inductive Probe where
  /-- The end of the chain, or a position out of reach. -/
  | ended
  /-- A position where a copy may be longer. -/
  | candidate (place : Nat)
  /-- A position where it is not. -/
  | passed (place : Nat)

/-- Walks along the chain of `position` from `place` on, up to a position where a copy may be longer than
`length`: the last byte of such a copy and the one before agree. Distances are held in sixteen bits, and a
position that is zero in them ends the chain. -/
def probe (c : Chains) (position reach length : Nat) : (steps place : Nat) → Probe
  | 0, place => .passed place
  | steps + 1, place =>
    let before := c.earlier[place]?.getD 0
    let distance := (position - before) % 65536
    if before % 65536 = 0 ∨ reach < distance then .ended
    else
      let place := position - distance
      if c.commonLength 2 (place + length - 1) (position + length - 1) = 2 then .candidate place
      else c.probe position reach length steps place

/-- The longest copy, as length and distance, that some rounds of three steps find; `best` is the longest
one found before. None is longer than `most`. -/
def search (c : Chains) (position reach most : Nat) :
    (rounds place : Nat) → (best : Nat × Nat) → Nat × Nat
  | 0, _, best => best
  | rounds + 1, place, best =>
    match c.probe position reach best.1 3 place with
    | .ended => best
    | .passed place => c.search position reach most rounds place best
    | .candidate place =>
      let length := c.commonLength most place position
      if length ≤ best.1 then c.search position reach most rounds place best
      else if length = most then (length, position - place)
      else c.search position reach most rounds place (length, position - place)

/-- The copy for a position, if there is one longer than `least`. Fewer rounds are spent if `least` is
long; three bytes are not copied from far away. -/
def copy? (c : Chains) (position least : Nat) : Option (Nat × Nat) :=
  let most := min 258 (c.data.size - position)
  let reach := min position (32768 - most)
  let rounds := if least < 32 then 43 else 11
  let (length, distance) :=
    if most ≤ least then (least, 0) else c.search position reach most rounds position (least, 0)
  if distance = 0 ∨ (length = 3 ∧ 8192 ≤ distance) ∨ distance = position % 32768 then none
  else some (length, distance)

/-- The byte at a position. -/
def byte (c : Chains) (position : Nat) : UInt8 := c.data[position]?.getD 0

/-- The items from a position on. A copy from the position before may be put off; it is made if no longer
one is found. Every step goes on by a byte at least, so the number of bytes is fuel enough. -/
def itemsFrom (c : Chains) : (fuel position : Nat) → (putOff : Option (Nat × Nat)) → List Item
  | 0, _, _ => []
  | fuel + 1, position, putOff =>
    if c.data.size ≤ position then []
    else
      match putOff, c.copy? position ((putOff.map (·.1)).getD 2) with
      | some (length, distance), none =>
        .copy length distance :: c.itemsFrom fuel (position + length - 1) none
      | none, none => .literal (c.byte position) :: c.itemsFrom fuel (position + 1) none
      | putOff, some (length, distance) =>
        let before := if putOff.isSome then [Item.literal (c.byte (position - 1))] else []
        if length < 128 then before ++ c.itemsFrom fuel (position + 1) (some (length, distance))
        else before ++ .copy length distance :: c.itemsFrom fuel (position + length) none

/-- The items of all bytes. -/
def items (c : Chains) : List Item := c.itemsFrom (c.data.size + 1) 0 none

end Chains

end PdfCanvas.Deflate
