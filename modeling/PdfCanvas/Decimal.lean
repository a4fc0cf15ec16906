import PdfCanvas.Floating

/-!
# Decimal numerals

Two ways to write a magnitude with a decimal point: the shortest numeral that reads back as the same
floating-point number, and the magnitude rounded to a number of places. Neither uses an exponent.
-/

namespace PdfCanvas

/-- The numeral of `units / 10 ^ places`, with a sign. -/
structure Decimal where
  negative : Bool
  units : Nat
  places : Nat
  deriving DecidableEq, Repr

namespace Decimal

/-- The magnitude of a numeral. -/
def magnitude (d : Decimal) : Rat := d.units / (10 : Rat) ^ d.places

/-- The number that a numeral denotes. -/
def toRat (d : Decimal) : Rat := if d.negative then -d.magnitude else d.magnitude

/-- Digits of `n` in base ten, with zeros in front up to `width`. -/
def paddedDigits (width n : Nat) : List Char :=
  let digits := Nat.toDigits 10 n
  List.replicate (width - digits.length) '0' ++ digits

/-- Sign, integer part and, if there are places, a point and the fraction. -/
def chars (d : Decimal) : List Char :=
  let sign := if d.negative then ['-'] else []
  let whole := Nat.toDigits 10 (d.units / Nat.pow 10 d.places)
  let fraction :=
    if d.places = 0 then [] else '.' :: paddedDigits d.places (d.units % Nat.pow 10 d.places)
  sign ++ whole ++ fraction

def text (d : Decimal) : String := String.ofList d.chars

/-- Drops zeros at the end of the fraction. -/
def trim (d : Decimal) : Decimal :=
  match d with
  | ⟨negative, units, places + 1⟩ =>
    if units % 10 = 0 then trim ⟨negative, units / 10, places⟩ else d
  | ⟨_, _, 0⟩ => d
  termination_by d.places

/-- Zero is written without a sign. -/
def unsignedZero (d : Decimal) : Decimal :=
  if d.units = 0 then { d with negative := false } else d

/-- The number `units / 10 ^ places`, where a negative number of places asks for zeros before the point. -/
def ofUnits (negative : Bool) (units : Nat) (places : Int) : Decimal :=
  ⟨negative, units * Nat.pow 10 (-places).toNat, places.toNat⟩

/-- A magnitude rounded to the nearest numeral with the given places, ties to an even last digit. -/
def rounded (negative : Bool) (magnitude : Rat) (places : Nat) : Decimal :=
  ⟨negative, (roundEven (magnitude * (10 : Rat) ^ places)).toNat, places⟩

end Decimal

namespace Floating

variable {format : FloatFormat}

/-- The multiple of `1 / 10 ^ places` next to the magnitude of `code` that reads back as `code`: of
the two neighbours the nearer one if both do, the upper one if they are equally near. -/
def gridPoint? (format : FloatFormat) (code : Nat) (places : Int) : Option Nat :=
  let scale : Rat := (10 : Rat) ^ places
  let scaled := format.magnitude code * scale
  let below := scaled.floor.toNat
  let readsBack (units : Nat) : Bool := format.encode (units / scale) = code
  match readsBack below, readsBack (below + 1) with
  | true, true => if scaled - below < 1 / 2 then some below else some (below + 1)
  | true, false => some below
  | false, true => some (below + 1)
  | false, false => none

/-- The numeral of the coarsest decimal grid that holds a point which reads back as `code`.

The search starts with a grid coarser than the magnitude, and ends at the latest on the grid of the
last place of the exact expansion. -/
def shortestUnits (format : FloatFormat) (code : Nat) : Nat × Int :=
  let magnitude := format.magnitude code
  let coarsest : Int := (Nat.toDigits 10 magnitude.ceil.toNat).length
  let exactPlaces : Int := magnitude.den.log2
  let attempt (step : Nat) : Option (Nat × Int) :=
    (gridPoint? format code (step - coarsest)).map (·, step - coarsest)
  match (List.range (coarsest + exactPlaces).toNat).findSome? attempt with
  | some found => found
  | none => ((magnitude * (10 : Rat) ^ exactPlaces).floor.toNat, exactPlaces)

/-- The shortest numeral of a finite number. -/
def shortest? : Floating format → Option Decimal
  | .nan => none
  | .signed negative code =>
    if code.val < format.infinityCode then
      if code.val = 0 then some ⟨negative, 0, 0⟩
      else
        let (units, places) := shortestUnits format code.val
        some (.ofUnits negative units places)
    else none

/-- The text of a number in messages: its shortest numeral, or a word if it is not finite. -/
def text (x : Floating format) : String :=
  match x with
  | .nan => "NaN"
  | .signed negative _ =>
    match x.shortest? with
    | some numeral => numeral.text
    | none => if negative then "-inf" else "inf"

end Floating

/-- The numeral of an operand: the shortest one, or if its fraction is longer than `places`, the exact
value rounded to that many places without zeros at the end. There is none for a number that is not
finite. -/
def Floating.operand? {format : FloatFormat} (x : Floating format) (places : Nat) : Option Decimal :=
  match x, x.shortest? with
  | .signed negative code, some numeral =>
    let chosen :=
      if places < numeral.places then
        (Decimal.rounded negative (format.magnitude code.val) places).trim
      else numeral
    some chosen.unsignedZero
  | _, _ => none

end PdfCanvas
