import PdfCanvas.Filter.Bits

/-!
# LZW codes

Codes of nine to twelve bits, the most significant bit first. Codes below 256 are bytes, 256 clears the
table and 257 ends the data; every other code stands for a string that was added to the table when an
earlier code was read.
-/

namespace PdfCanvas.Lzw

/-- The strings added since the table was cleared, from code 258 on, and the string read last. -/
structure Table where
  strings : Array Bytes
  previous : Option Bytes

namespace Table

def cleared : Table := ⟨#[], none⟩

/-- The code that the next string gets. -/
def next (t : Table) : Nat := 258 + t.strings.size

/-- The string of a code. The code that is about to be given stands for the last string with its first
byte repeated at the end. -/
def string? (t : Table) (code : Nat) : Option Bytes :=
  if code < 256 then some [code.toUInt8]
  else if code < 258 then none
  else
    match t.strings[code - 258]?, t.previous with
    | some string, _ => some string
    | none, some previous =>
      if code = t.next then some (previous ++ previous.take 1) else none
    | none, none => none

/-- Takes note of a string read: the last one with its first byte is added while there is room. -/
def read (t : Table) (string : Bytes) : Table :=
  match t.previous with
  | some previous =>
    if t.next < 4096 then ⟨t.strings.push (previous ++ string.take 1), some string⟩
    else { t with previous := some string }
  | none => { t with previous := some string }

/-- The length of the next code: nine bits, and one more each time the table passes a power of two, or
one string before that if the change is early. -/
def width (t : Table) (early : Bool) : Nat :=
  let reached := t.next + early.toNat
  if reached < 512 then 9 else if reached < 1024 then 10 else if reached < 2048 then 11 else 12

/-- How many strings can be added before codes get longer. -/
def unchanged (t : Table) (early : Bool) : Nat :=
  1 <<< t.width early - 1 - early.toNat - t.next

end Table

/-- A code that was read, other than the end code, with what was known when it was read. -/
structure Reading where
  /-- The bits of the data from the code on. -/
  left : Nat
  width : Nat
  unchanged : Nat
  /-- The code that the next string was to get. -/
  next : Nat
  code : Nat
  /-- The string of the code; the clear code has none. -/
  string : Option Bytes

/-- Reads codes up to the end code, out of `left` bits. Every code takes a bit at least, so the number of
bits is fuel enough. -/
def readCodes (early : Bool) : (fuel left : Nat) → Table → Bits → Option (List Reading)
  | 0, _, _, _ => none
  | fuel + 1, left, table, bits => do
    let width := table.width early
    let (front, bits) ← bits.split? width
    let code := Bits.toNat front.reverse
    let reading := Reading.mk left width (table.unchanged early) table.next code
    if code = 256 then
      return reading none :: (← readCodes early fuel (left - width) .cleared bits)
    else if code = 257 then return []
    else
      let string ← table.string? code
      return reading (some string) :: (← readCodes early fuel (left - width) (table.read string) bits)

end PdfCanvas.Lzw
