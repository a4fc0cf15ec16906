import PdfCanvas.Bytes

/-!
# SipHash-1-3

The keyed hash of a byte string with one round for each word of eight bytes and three rounds at the
end, here with the zero key. Words are little-endian; the last one holds the bytes left over and, in its
top byte, the length.
-/

namespace PdfCanvas.SipHash

/-- The four words of the hash state. -/
structure State where
  v0 : UInt64
  v1 : UInt64
  v2 : UInt64
  v3 : UInt64
  deriving DecidableEq

/-- Rotation toward the most significant bit. -/
def rotate (word : UInt64) (bits : UInt64) : UInt64 := (word <<< bits) ||| (word >>> (64 - bits))

/-- The state of the zero key. -/
def initial : State :=
  ⟨0x736f6d6570736575, 0x646f72616e646f6d, 0x6c7967656e657261, 0x7465646279746573⟩

def round (s : State) : State :=
  let v0 := s.v0 + s.v1
  let v1 := rotate s.v1 13 ^^^ v0
  let v0 := rotate v0 32
  let v2 := s.v2 + s.v3
  let v3 := rotate s.v3 16 ^^^ v2
  let v0 := v0 + v3
  let v3 := rotate v3 21 ^^^ v0
  let v2 := v2 + v1
  let v1 := rotate v1 17 ^^^ v2
  let v2 := rotate v2 32
  ⟨v0, v1, v2, v3⟩

/-- Takes in one word. -/
def absorb (s : State) (word : UInt64) : State :=
  let s := round { s with v3 := s.v3 ^^^ word }
  { s with v0 := s.v0 ^^^ word }

/-- The word that bytes spell, the least significant first. -/
def littleEndian (bytes : Bytes) : UInt64 :=
  bytes.foldr (fun byte word => (word <<< 8) ||| byte.toUInt64) 0

/-- Takes in the whole words of a byte string; gives the bytes left over. -/
def absorbWords (s : State) : Bytes → State × Bytes
  | a :: b :: c :: d :: e :: f :: g :: h :: rest =>
    absorbWords (absorb s (littleEndian [a, b, c, d, e, f, g, h])) rest
  | rest => (s, rest)

/-- The hash of a byte string. -/
def hash (bytes : Bytes) : UInt64 :=
  let (s, rest) := absorbWords initial bytes
  let s := absorb s ((bytes.length.toUInt64 <<< 56) ||| littleEndian rest)
  let s := round (round (round { s with v2 := s.v2 ^^^ 0xff }))
  s.v0 ^^^ s.v1 ^^^ s.v2 ^^^ s.v3

end PdfCanvas.SipHash
