import PdfCanvas.Error
import PdfCanvas.Filter.Flate.Intake

/-!
# Flate data

Deflated data in a wrapper of two header bytes and a checksum. Damaged data are read as far as possible:
what was inflated before the end of truncated data is kept, and of data that turn out invalid what had
been taken in before (`Flate.keptOfInvalid`). If there is nothing to keep, the data are tried without the
wrapper.
-/

namespace PdfCanvas.Flate

/-- The two sums of the checksum of bytes. -/
def checksums (bytes : Array UInt8) : Nat × Nat :=
  bytes.foldl (fun (a, b) byte => let a := (a + byte.toNat) % 65521; (a, (b + a) % 65521)) (1, 0)

/-- The four bytes of the checksum of bytes, the most significant first. -/
def checksum (bytes : Array UInt8) : Bytes :=
  let (a, b) := checksums bytes
  [(b / 256).toUInt8, (b % 256).toUInt8, (a / 256).toUInt8, (a % 256).toUInt8]

/-- Whether two header bytes announce deflated data without a dictionary, with a window that a reader
has. -/
def isHeader (method flags : UInt8) : Bool :=
  (256 * method.toNat + flags.toNat) % 31 = 0 && flags &&& 0x20 = 0 && method &&& 0x0F = 8 &&
    method >>> 4 ≤ 7

/-- Compares the checksum after the last block, from the next byte on. -/
def verify (output : Array UInt8) (bits : Bits) : Except Stop Bits := do
  let aligned : Bits := bits.drop (bits.length % 8)
  match aligned.split? 32 with
  | none => throw .truncated
  | some (front, rest) => if front.toBytes = checksum output then return rest else throw .invalid

/-- Inflates wrapped data. -/
def inflateWrapped (data : Bytes) : Inflate.Result :=
  match data with
  | method :: flags :: rest =>
    if isHeader method flags then
      match Inflate.inflate (Bits.lowFirst rest) with
      | ⟨output, .ok bits⟩ => ⟨output, verify output bits⟩
      | result => result
    else ⟨#[], .error .invalid⟩
  | _ => ⟨#[], .error .truncated⟩

/-- Inflates data without a wrapper. -/
def inflateRaw (data : Bytes) : Inflate.Result := Inflate.inflate (Bits.lowFirst data)

/-- What is kept of inflated data. -/
def kept (inflate : Bytes → Inflate.Result) (data : Bytes) : Except InflateFault Bytes :=
  let result := inflate data
  match result.rest with
  | .ok _ => .ok result.output.toList
  | .error .truncated =>
    if result.output.isEmpty then .error .incomplete else .ok result.output.toList
  | .error .invalid =>
    let count := keptOfInvalid inflate data
    if count = 0 then .error .corrupt else .ok (result.output.toList.take count)

def decode (data : Bytes) : Except Error Bytes :=
  match kept inflateWrapped data with
  | .ok bytes => .ok bytes
  | .error wrapped =>
    match kept inflateRaw data with
    | .ok bytes => .ok bytes
    | .error raw => .error (.decode (.inflate wrapped raw))

end PdfCanvas.Flate
