import PdfCanvas.Error

/-!
# Operands and instructions

How content is spelled. An operand ends with a space and an operator with a line feed, so that no two
tokens can run together whatever their text is. Names spell every byte that could end them as a
hexadecimal escape; strings with a byte above 127 or a line break are written in hexadecimal.
-/

namespace PdfCanvas

/-- Bytes that a name shows as themselves: visible, no delimiter and no escape sign. -/
def isRegularByte (byte : UInt8) : Bool :=
  0x21 ≤ byte && byte ≤ 0x7E && !(ascii "()<>[]\x7b\x7d/%#".toList).contains byte

/-- The spelling of one byte of a name. -/
def nameByte (byte : UInt8) : Bytes :=
  if isRegularByte byte then [byte] else 0x23 :: hexPair byte

/-- A name with its solidus. -/
def escapeName (name : String) : Bytes := 0x2F :: (utf8 name).flatMap nameByte

/-- Whether a string can be written in parentheses: seven bit bytes without line breaks. -/
def isPlain (bytes : Bytes) : Bool := bytes.all fun b => b < 0x80 && b != 0x0D && b != 0x0A

/-- The spelling of one byte between parentheses. -/
def literalByte (byte : UInt8) : Bytes :=
  if byte = 0x28 ∨ byte = 0x29 ∨ byte = 0x5C then [0x5C, byte] else [byte]

/-- A string, in parentheses where they can hold it and in hexadecimal otherwise. -/
def stringLiteral (bytes : Bytes) : Bytes :=
  if isPlain bytes then 0x28 :: bytes.flatMap literalByte ++ [0x29]
  else 0x3C :: bytes.flatMap hexPair ++ [0x3E]

/-- An operand of a content stream operator. -/
inductive Operand where
  | number (numeral : Decimal)
  | integer (value : Int)
  | name (text : String)
  | string (bytes : Bytes)
  | numbers (numerals : List Decimal)

namespace Operand

/-- A numeral and the space after it. -/
def numeralBytes (numeral : Decimal) : Bytes := ascii numeral.chars ++ [0x20]

/-- The spelling of an operand, with the space that ends it. -/
def bytes : Operand → Bytes
  | .number numeral => numeralBytes numeral
  | .integer value => utf8 (toString value) ++ [0x20]
  | .name text => escapeName text ++ [0x20]
  | .string bytes => stringLiteral bytes ++ [0x20]
  | .numbers numerals => 0x5B :: numerals.flatMap numeralBytes ++ [0x5D, 0x20]

/-- The numeral of a real operand with at most `places` fraction digits. A number that is not finite
has none. -/
def numeral (places : Nat) (value : Single) : Except Error Decimal :=
  match value.operand? places with
  | some numeral => .ok numeral
  | none => .error (.unsupportedValue (.notFinite value))

/-- The numerals of real operands; the first number that is not finite is the error. -/
def numerals (places : Nat) (values : List Single) : Except Error (List Decimal) :=
  values.mapM (numeral places)

end Operand

/-- Refuses the first number that is not finite. -/
def checkFinite (values : List Single) : Except Error Unit :=
  match values.find? (!·.isFinite) with
  | some value => .error (.unsupportedValue (.notFinite value))
  | none => .ok ()

/-- The operators that drawing calls write. -/
inductive Operator where
  | beginText | endText | selectFont | showText | setLeading | nextLine | moveLine | textMatrix
  | concatMatrix | save | restore | parameters
  | strokingSpace | fillingSpace | strokingColor | fillingColor
  | strokingGray | fillingGray | strokingRgb | fillingRgb | strokingCmyk | fillingCmyk
  | rectangle | curve | curveFromCurrent | curveToFinal | moveTo | lineTo | closePath
  | stroke | closeStroke | fill | fillEvenOdd | fillStroke | fillStrokeEvenOdd
  | closeFillStroke | closeFillStrokeEvenOdd | endPath
  | shade | clip | clipEvenOdd
  | lineWidth | lineJoin | lineCap | dash | miterLimit
  | drawObject | beginMarked | beginMarkedWith | endMarked
  deriving DecidableEq, Repr

namespace Operator

/-- The keyword of an operator. -/
def keyword : Operator → String
  | .beginText => "BT" | .endText => "ET" | .selectFont => "Tf" | .showText => "Tj"
  | .setLeading => "TL" | .nextLine => "T*" | .moveLine => "Td" | .textMatrix => "Tm"
  | .concatMatrix => "cm" | .save => "q" | .restore => "Q" | .parameters => "gs"
  | .strokingSpace => "CS" | .fillingSpace => "cs" | .strokingColor => "SC" | .fillingColor => "sc"
  | .strokingGray => "G" | .fillingGray => "g" | .strokingRgb => "RG" | .fillingRgb => "rg"
  | .strokingCmyk => "K" | .fillingCmyk => "k"
  | .rectangle => "re" | .curve => "c" | .curveFromCurrent => "v" | .curveToFinal => "y"
  | .moveTo => "m" | .lineTo => "l" | .closePath => "h"
  | .stroke => "S" | .closeStroke => "s" | .fill => "f" | .fillEvenOdd => "f*"
  | .fillStroke => "B" | .fillStrokeEvenOdd => "B*"
  | .closeFillStroke => "b" | .closeFillStrokeEvenOdd => "b*" | .endPath => "n"
  | .shade => "sh" | .clip => "W" | .clipEvenOdd => "W*"
  | .lineWidth => "w" | .lineJoin => "j" | .lineCap => "J" | .dash => "d" | .miterLimit => "M"
  | .drawObject => "Do" | .beginMarked => "BMC" | .beginMarkedWith => "BDC" | .endMarked => "EMC"

end Operator

/-- An operator with its operands. -/
structure Instruction where
  operands : List Operand
  operator : Operator

namespace Instruction

/-- The operands, then the keyword on the rest of the line. -/
def bytes (i : Instruction) : Bytes :=
  i.operands.flatMap Operand.bytes ++ utf8 i.operator.keyword ++ [0x0A]

end Instruction

end PdfCanvas
