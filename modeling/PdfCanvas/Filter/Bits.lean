import PdfCanvas.Bytes

/-!
# Strings of bits

Filters read their data bit by bit: deflated data from the least significant bit of each byte, LZW codes
from the most significant. Numbers are read from so many bits in front.
-/

namespace PdfCanvas

/-- A string of bits. -/
abbrev Bits := List Bool

namespace Bits

/-- The bits of a byte, the least significant first. -/
def ofByte (byte : UInt8) : Bits := (List.range 8).map byte.toNat.testBit

/-- The bits of bytes, the least significant of each first. -/
def lowFirst (bytes : Bytes) : Bits := bytes.flatMap ofByte

/-- The bits of bytes, the most significant of each first. -/
def highFirst (bytes : Bytes) : Bits := bytes.flatMap fun byte => (ofByte byte).reverse

/-- The number whose bits are given, the least significant first. -/
def toNat : Bits → Nat
  | [] => 0
  | bit :: rest => bit.toNat + 2 * toNat rest

/-- The bits of a number, the least significant first. -/
def ofNat : (count : Nat) → (value : Nat) → Bits
  | 0, _ => []
  | count + 1, value => (value % 2 = 1) :: ofNat count (value / 2)

/-- The first `count` bits and the others, if there are so many. -/
def split? : (count : Nat) → Bits → Option (Bits × Bits)
  | 0, bits => some ([], bits)
  | _ + 1, [] => none
  | count + 1, bit :: rest =>
    (split? count rest).map fun (front, others) => (bit :: front, others)

/-- Bytes from bits, the least significant first; zeros complete the last byte. -/
def toBytes : Bits → Bytes
  | [] => []
  | a :: b :: c :: d :: e :: f :: g :: h :: rest =>
    (toNat [a, b, c, d, e, f, g, h]).toUInt8 :: toBytes rest
  | rest => [(toNat rest).toUInt8]

end Bits

end PdfCanvas
