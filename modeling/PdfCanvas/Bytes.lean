/-!
# Strings of bytes

Texts enter a document as their UTF-8 bytes; names and binary strings are spelled with pairs of
upper case hexadecimal digits. Packed data are cut into pieces of one size.
-/

namespace PdfCanvas

/-- A string of bytes. -/
abbrev Bytes := List UInt8

/-- The UTF-8 bytes of a text. -/
def utf8 (text : String) : Bytes := text.toList.flatMap String.utf8EncodeChar

/-- The bytes of characters below 128. -/
def ascii (chars : List Char) : Bytes := chars.map fun c => c.toNat.toUInt8

/-- The upper case digit of a value below sixteen. -/
def hexDigit (value : UInt8) : UInt8 := if value < 10 then 0x30 + value else 0x37 + value

/-- The two digits of a byte, the high half first. -/
def hexPair (byte : UInt8) : Bytes := [hexDigit (byte / 16), hexDigit (byte % 16)]

/-- Sizes in memory are below this bound. -/
def wordSize : Nat := 1 <<< 64

/-- The numbers of two bytes each, the most significant first; a single byte at the end is left. -/
def words : Bytes → List Nat
  | high :: low :: rest => (256 * high.toNat + low.toNat) :: words rest
  | _ => []

/-- The bytes that so many bits fill. -/
def bytesOfBits (bits : Nat) : Nat := bits / 8 + (if bits % 8 = 0 then 0 else 1)

/-- Cuts a list into pieces of `size` elements, at least one; the last piece may be shorter. -/
def pieces {α : Type} (size : Nat) : List α → List (List α)
  | [] => []
  | head :: rest => (head :: rest.take (size - 1)) :: pieces size (rest.drop (size - 1))
  termination_by elements => elements.length
  decreasing_by simp only [List.length_drop, List.length_cons]; omega

/-- The pieces of a list that are complete. -/
def wholePieces {α : Type} (size : Nat) (elements : List α) : List (List α) :=
  (pieces size elements).filter (·.length = max size 1)

end PdfCanvas
