import PdfCanvas.Error
import PdfCanvas.Font.WinAnsi

/-!
# Fonts

A font is an indirect object together with what is needed to show text with it: how characters become
codes, and whether the font is to be cut down to the characters shown. Two fonts are the same if they
are the same indirect object.
-/

namespace PdfCanvas

/-- How the characters of a text become character codes. -/
inductive FontEncoding where
  /-- One byte for each character. -/
  | winAnsi
  /-- The two bytes of a glyph number for each character. -/
  | identity (glyphs : List (Char × UInt16))

namespace FontEncoding

def name : FontEncoding → String
  | .winAnsi => "WinAnsiEncoding"
  | .identity _ => "Identity-H"

/-- The glyph number of a character. -/
def glyph? (glyphs : List (Char × UInt16)) (c : Char) : Option UInt16 := glyphs.lookup c

/-- The codes of one character. -/
def encodeChar (encoding : FontEncoding) (c : Char) : Except Error Bytes :=
  match encoding with
  | .winAnsi =>
    match WinAnsi.code? c.toNat with
    | some code => .ok [code]
    | none => .error (.font (.notInWinAnsi c))
  | .identity glyphs =>
    match glyph? glyphs c with
    | some glyph => .ok [(glyph >>> 8).toUInt8, glyph.toUInt8]
    | none => .error (.font (.noGlyph c))

/-- The codes of a text; the first character without a code is the error. -/
def encode (encoding : FontEncoding) (text : String) : Except Error Bytes := do
  let codes ← text.toList.mapM encoding.encodeChar
  return codes.flatten

/-- Equality of encodings: glyph maps are compared as maps. -/
def same : FontEncoding → FontEncoding → Bool
  | .winAnsi, .winAnsi => true
  | .identity a, .identity b =>
    a.all (fun (c, _) => glyph? a c == glyph? b c) && b.all (fun (c, _) => glyph? a c == glyph? b c)
  | _, _ => false

end FontEncoding

structure Font where
  target : Ref
  baseName : String
  encoding : FontEncoding
  /-- Whether the font is to be cut down to the characters shown with it. -/
  subset : Bool

namespace Font

/-- Fonts are the same if they are the same indirect object. -/
def same (a b : Font) : Bool := a.target == b.target

/-- The object that a font is bound to in resources. -/
def toObject (f : Font) : Object := .reference f.target

def encode (f : Font) (text : String) : Except Error Bytes := f.encoding.encode text

end Font

end PdfCanvas
