import PdfCanvas.Error

/-!
# ASCIIHex data

Bytes as pairs of hexadecimal digits of either case. White space is skipped, `>` ends the data, and a
last digit without a partner counts as followed by zero.
-/

namespace PdfCanvas.AsciiHex

/-- Tab, line feed, form feed, carriage return and space. -/
def isBlank (byte : UInt8) : Bool := [0x09, 0x0A, 0x0C, 0x0D, 0x20].contains byte

/-- The value of a digit. -/
def digitValue (byte : UInt8) : Except Error UInt8 :=
  if 0x30 ≤ byte ∧ byte ≤ 0x39 then .ok (byte - 0x30)
  else if 0x41 ≤ byte ∧ byte ≤ 0x46 then .ok (byte - 0x37)
  else if 0x61 ≤ byte ∧ byte ≤ 0x66 then .ok (byte - 0x57)
  else .error (.decode (.hexDigit byte))

/-- The digits of the data: what precedes the end mark, without white space. -/
def digits (data : Bytes) : Bytes := (data.takeWhile (· ≠ 0x3E)).filter (!isBlank ·)

/-- The byte that two digits spell. -/
def pairValue (high low : UInt8) : Except Error UInt8 := do
  let high ← digitValue high
  let low ← digitValue low
  return 16 * high + low

/-- The bytes that digits spell. -/
def decodeDigits : Bytes → Except Error Bytes
  | [] => .ok []
  | [high] => do return [← pairValue high 0x30]
  | high :: low :: rest => do
    let byte ← pairValue high low
    return byte :: (← decodeDigits rest)

def decode (data : Bytes) : Except Error Bytes := decodeDigits (digits data)

end PdfCanvas.AsciiHex
