/-!
# Binary floating-point numbers

A number of an IEEE 754 binary interchange format is a sign and a *code*: the exponent and fraction
fields read as one natural number. Codes are ordered as the magnitudes they stand for, and the code
after the largest finite one is infinity.

Arithmetic is exact arithmetic on rationals followed by one rounding to nearest, ties to even
(`FloatFormat.encode`), so that a statement about a floating-point expression is a statement about
rationals and about that one function.
-/

namespace PdfCanvas

/-- The widths of the fields of a binary interchange format. -/
structure FloatFormat where
  fractionBits : Nat
  exponentBits : Nat
  deriving DecidableEq, Repr

namespace FloatFormat

/-- The 32 bit format: 23 fraction bits, 8 exponent bits. -/
def single : FloatFormat := ⟨23, 8⟩

/-- The 64 bit format: 52 fraction bits, 11 exponent bits. -/
def double : FloatFormat := ⟨52, 11⟩

variable (format : FloatFormat)

/-- Number of fractions that share one exponent. -/
def fractions : Nat := 1 <<< format.fractionBits

/-- The least positive magnitude is two to this power. -/
def leastExponent : Int := 2 - (1 <<< (format.exponentBits - 1) : Nat) - format.fractionBits

/-- The code of infinity; the finite magnitudes have the codes below it. -/
def infinityCode : Nat := (1 <<< format.exponentBits - 1) * format.fractions

/-- The magnitude that a finite code stands for. -/
def magnitude (code : Nat) : Rat :=
  let exponent := code / format.fractions
  let fraction := code % format.fractions
  if exponent = 0 then fraction * (2 : Rat) ^ format.leastExponent
  else (format.fractions + fraction : Nat) * (2 : Rat) ^ (format.leastExponent + exponent - 1)

end FloatFormat

/-- The integer nearest to a rational, the even one of two that are equally near. -/
def roundEven (q : Rat) : Int :=
  let below := q.floor
  let excess := q - below
  if excess < 1 / 2 then below
  else if 1 / 2 < excess then below + 1
  else if below % 2 = 0 then below else below + 1

/-- The integer nearest to a rational, the one farther from zero of two that are equally near. -/
def roundAway (q : Rat) : Int :=
  if 0 ≤ q then (q + 1 / 2).floor else (q - 1 / 2).ceil

/-- The exponent of the greatest power of two that is at most a positive rational. -/
def floorLog2 (q : Rat) : Int :=
  let guess : Int := (q.num.natAbs.log2 : Int) - q.den.log2
  if (2 : Rat) ^ guess ≤ q then guess else guess - 1

namespace FloatFormat

/-- The code of the magnitude nearest to a rational that is not negative, ties to the even code;
infinity from half a step above the greatest finite magnitude on.

The step at `q` is `2 ^ exponent`. A quotient that rounds up to the next power of two gives the code
that follows, so no case is needed for it. -/
def encode (format : FloatFormat) (q : Rat) : Nat :=
  if q = 0 then 0
  else
    let exponent := max format.leastExponent (floorLog2 q - format.fractionBits)
    let quotient := roundEven (q / (2 : Rat) ^ exponent)
    min format.infinityCode
      ((exponent - format.leastExponent).toNat * format.fractions + quotient.toNat)

theorem encode_le (format : FloatFormat) (q : Rat) : format.encode q ≤ format.infinityCode := by
  unfold encode
  split
  · exact Nat.zero_le _
  · exact Nat.min_le_left _ _

end FloatFormat

/-- A floating-point number; all of the format's representations of "not a number" are one. -/
inductive Floating (format : FloatFormat) where
  | nan
  | signed (negative : Bool) (code : Fin (format.infinityCode + 1))
  deriving DecidableEq, Repr

/-- Numbers of the 32 bit format. -/
abbrev Single := Floating .single

/-- Numbers of the 64 bit format. -/
abbrev Double := Floating .double

namespace Floating

variable {format : FloatFormat}

instance : Inhabited (Floating format) := ⟨.nan⟩

/-- Reads a bit pattern: sign, exponent and fraction from the most significant bit. -/
def ofBits (bits : Nat) : Floating format :=
  let half := format.infinityCode + format.fractions
  if isCode : bits % half < format.infinityCode + 1 then
    .signed (bits / half % 2 = 1) ⟨bits % half, isCode⟩
  else .nan

/-- The bit pattern of a number, none for "not a number". -/
def toBits? : Floating format → Option Nat
  | .nan => none
  | .signed negative code =>
    some (if negative then format.infinityCode + format.fractions + code.val else code.val)

def infinity (negative : Bool) : Floating format := .signed negative (Fin.last _)

def isFinite : Floating format → Bool
  | .nan => false
  | .signed _ code => code.val < format.infinityCode

/-- The rational that a finite number is. -/
def toRat? : Floating format → Option Rat
  | .nan => none
  | .signed negative code =>
    if code.val < format.infinityCode then
      some (if negative then -format.magnitude code.val else format.magnitude code.val)
    else none

/-- The nearest number with the given sign. -/
def ofMagnitude (negative : Bool) (magnitude : Rat) : Floating format :=
  .signed negative ⟨format.encode magnitude, Nat.lt_succ_of_le (format.encode_le magnitude)⟩

/-- The number nearest to a rational; zero gets the positive sign. -/
def ofRat (q : Rat) : Floating format := ofMagnitude (q < 0) q.abs

def ofInt (n : Int) : Floating format := ofRat n

def ofNat (n : Nat) : Floating format := ofRat n

/-- The nearest number of another format; the sign, infinity and "not a number" are kept. -/
def convert {target : FloatFormat} : Floating format → Floating target
  | .nan => .nan
  | .signed negative code =>
    if code.val < format.infinityCode then ofMagnitude negative (format.magnitude code.val)
    else infinity negative

def isNegative : Floating format → Bool
  | .nan => false
  | .signed negative _ => negative

/-- The position of a number on the number line, the two zeros at the same place. -/
def rank? : Floating format → Option Int
  | .nan => none
  | .signed negative code => some (if negative then -(code.val : Int) else code.val)

/-- Numeric equality: "not a number" differs from itself, the two zeros are equal. -/
def same (a b : Floating format) : Bool :=
  match a.rank?, b.rank? with
  | some x, some y => x == y
  | _, _ => false

/-- Numeric order; "not a number" is neither below nor above anything. -/
def lt (a b : Floating format) : Bool :=
  match a.rank?, b.rank? with
  | some x, some y => x < y
  | _, _ => false

def neg : Floating format → Floating format
  | .nan => .nan
  | .signed negative code => .signed (!negative) code

/-- Sum. A sum of zero is negative only if both terms are. -/
def add (a b : Floating format) : Floating format :=
  match a, b with
  | .nan, _ | _, .nan => .nan
  | .signed s _, .signed t _ =>
    match a.toRat?, b.toRat? with
    | some x, some y => if x + y = 0 then .signed (s && t) 0 else ofRat (x + y)
    | some _, none => b
    | none, some _ => a
    | none, none => if s = t then a else .nan

def sub (a b : Floating format) : Floating format := a.add b.neg

/-- Product; the sign is negative if exactly one factor is, also of a zero. -/
def mul (a b : Floating format) : Floating format :=
  match a, b with
  | .nan, _ | _, .nan => .nan
  | .signed s i, .signed t j =>
    match a.toRat?, b.toRat? with
    | some x, some y => ofMagnitude (s != t) (x * y).abs
    | _, _ => if i = 0 ∨ j = 0 then .nan else infinity (s != t)

/-- Quotient; a number other than zero divided by zero is infinite. -/
def div (a b : Floating format) : Floating format :=
  match a, b with
  | .nan, _ | _, .nan => .nan
  | .signed s i, .signed t j =>
    match a.toRat?, b.toRat? with
    | some x, some y =>
      if j = 0 then (if i = 0 then .nan else infinity (s != t))
      else ofMagnitude (s != t) (x / y).abs
    | some _, none => .signed (s != t) 0
    | none, some _ => infinity (s != t)
    | none, none => .nan

instance : Add (Floating format) := ⟨add⟩
instance : Sub (Floating format) := ⟨sub⟩
instance : Mul (Floating format) := ⟨mul⟩
instance : Div (Floating format) := ⟨div⟩
instance : Neg (Floating format) := ⟨neg⟩

def zero : Floating format := .signed false 0

def one : Floating format := ofRat 1

/-- The larger of two numbers; a number is preferred to "not a number". -/
def max (a b : Floating format) : Floating format :=
  match a, b with
  | .nan, _ => b
  | _, .nan => a
  | _, _ => if a.lt b then b else a

/-- The number itself within bounds, else the bound that it passes; "not a number" stays. -/
def clamp (x low high : Floating format) : Floating format :=
  if x.lt low then low else if high.lt x then high else x

/-- The nearest integer, a half away from zero, held within `0` and `limit`; "not a number"
counts as `0`. -/
def roundNat (limit : Nat) (x : Floating format) : Nat :=
  match x with
  | .nan => 0
  | .signed negative _ =>
    match x.toRat? with
    | some q => Nat.min limit (roundAway q).toNat
    | none => if negative then 0 else limit

end Floating

end PdfCanvas
