import PdfCanvas.Filter.Lzw
import PdfCanvas.Proofs.Bits

/-!
# LZW codes

Codes are written in a row, each as long as the table asks for, the end code last. What was written so is
read, and what is read was written so.
-/

namespace PdfCanvas

namespace Lzw

/-! ## Codes in a row -/

namespace Table

/-- The string of a code and the table behind it. The clear code has no string; nothing follows the end
code. -/
def follow (t : Table) (code : Nat) : Option (Bytes × Table) :=
  if code = 256 then some ([], cleared)
  else (t.string? code).map fun string => (string, t.read string)

/-- The bits of the next code, the most significant first. -/
def bitsOf (t : Table) (early : Bool) (code : Nat) : Bits := (Bits.ofNat (t.width early) code).reverse

variable {t : Table} {early other : Bool} {code : Nat}

theorem ne_end_of_follow {string : Bytes} {next : Table}
    (followed : t.follow code = some (string, next)) : code ≠ 257 := by
  rintro rfl
  cases followed

theorem nine_le_width (t : Table) (early : Bool) : 9 ≤ t.width early := by
  unfold width
  dsimp only
  split <;> [skip; split <;> [skip; split]] <;> decide

theorem end_lt (t : Table) (early : Bool) : 257 < 2 ^ t.width early :=
  Nat.lt_of_lt_of_le (by decide) (Nat.pow_le_pow_right (by decide) (t.nine_le_width early))

theorem length_bitsOf (t : Table) (early : Bool) (code : Nat) :
    (t.bitsOf early code).length = t.width early := by
  rw [bitsOf, List.length_reverse, Bits.length_ofNat]

theorem toNat_bitsOf (small : code < 2 ^ t.width early) :
    Bits.toNat (t.bitsOf early code).reverse = code := by
  rw [bitsOf, List.reverse_reverse, Bits.toNat_ofNat small]

theorem bitsOf_toNat {front : Bits} (whole : front.length = t.width early) :
    t.bitsOf early (Bits.toNat front.reverse) = front := by
  rw [bitsOf, ← whole, ← List.length_reverse, Bits.ofNat_toNat, List.reverse_reverse]

/-- Bits of one length begin with one code only. -/
theorem bitsOf_append_inj (same : t.width early = t.width other) {another : Nat} {rest others : Bits}
    (small : code < 2 ^ t.width early) (smallAnother : another < 2 ^ t.width other)
    (bits : t.bitsOf early code ++ rest = t.bitsOf other another ++ others) :
    code = another ∧ rest = others := by
  have lengths : (t.bitsOf early code).length = (t.bitsOf other another).length := by
    rw [length_bitsOf, length_bitsOf, same]
  obtain ⟨front, behind⟩ := List.append_inj bits lengths
  refine ⟨?_, behind⟩
  rw [← toNat_bitsOf small, front, toNat_bitsOf smallAnother]

end Table

/-- What codes in a row are written with, what they stand for, and the table behind them. -/
structure Spelling where
  bits : Bits
  bytes : Bytes
  table : Table

namespace Spelling

/-- The bits with those of the end code. -/
def ended (spelling : Spelling) (early : Bool) : Bits :=
  spelling.bits ++ spelling.table.bitsOf early 257

/-- A spelling with one more code in front. -/
def cons (front : Bits) (string : Bytes) (spelling : Spelling) : Spelling :=
  ⟨front ++ spelling.bits, string ++ spelling.bytes, spelling.table⟩

theorem ended_nil (table : Table) (early : Bool) :
    ended ⟨[], [], table⟩ early = table.bitsOf early 257 := rfl

theorem ended_cons (front : Bits) (string : Bytes) (spelling : Spelling) (early : Bool) :
    (cons front string spelling).ended early = front ++ spelling.ended early :=
  List.append_assoc _ _ _

end Spelling

/-- Writes codes in a row from a table on, if each has a string or is the clear code. -/
def spell (early : Bool) : Table → List Nat → Option Spelling
  | table, [] => some ⟨[], [], table⟩
  | table, code :: codes =>
    if code < 2 ^ table.width early then do
      let (string, next) ← table.follow code
      let others ← spell early next codes
      return .cons (table.bitsOf early code) string others
    else none

/-- Data that begin with the bits of codes and of the end code, and have less than a byte behind them. -/
def IsStream (early : Bool) (codes : List Nat) (bytes data : Bytes) : Prop :=
  ∃ spelling ∈ spell early .cleared codes, spelling.bytes = bytes ∧
    spelling.ended early <+: Bits.highFirst data ∧
    8 * data.length < (spelling.ended early).length + 8

instance (early : Bool) (codes : List Nat) (bytes data : Bytes) :
    Decidable (IsStream early codes bytes data) :=
  inferInstanceAs (Decidable (∃ spelling ∈ spell early .cleared codes, _))

section

variable {early : Bool} {table : Table} {code : Nat} {codes : List Nat} {spelling : Spelling}

theorem spell_cons : spell early table (code :: codes) = some spelling ↔
    code < 2 ^ table.width early ∧ ∃ string next others, table.follow code = some (string, next) ∧
      spell early next codes = some others ∧
      spelling = .cons (table.bitsOf early code) string others := by
  rw [spell]
  constructor
  · intro spelled
    split at spelled
    next small =>
      obtain ⟨⟨string, next⟩, followed, spelled⟩ := Option.bind_eq_some_iff.mp spelled
      obtain ⟨others, spelledOthers, whole⟩ := Option.bind_eq_some_iff.mp spelled
      exact ⟨small, string, next, others, followed, spelledOthers, (Option.some.inj whole).symm⟩
    next => cases spelled
  · rintro ⟨small, string, next, others, followed, spelledOthers, rfl⟩
    rw [if_pos small, followed, Option.bind_eq_bind, Option.bind_some]
    dsimp only
    rw [spelledOthers]
    rfl

/-- Every code takes a bit at least. -/
theorem length_le_of_spell (spelled : spell early table codes = some spelling) :
    codes.length ≤ spelling.bits.length := by
  induction codes generalizing table spelling with
  | nil => exact Nat.zero_le _
  | cons code codes inductionHypothesis =>
    obtain ⟨_, string, next, others, _, spelledOthers, rfl⟩ := spell_cons.mp spelled
    have lengths := inductionHypothesis spelledOthers
    have width := table.nine_le_width early
    rw [Spelling.cons, List.length_append, Table.length_bitsOf, List.length_cons]
    omega

/-! ## Reading codes -/

/-- The bytes that readings stand for. -/
def bytesOf (readings : List Reading) : Bytes := readings.flatMap fun reading => reading.string.getD []

/-- Reads the bytes of codes up to the end code. -/
def readBytes (early : Bool) (fuel left : Nat) (table : Table) (bits : Bits) : Option Bytes :=
  (readCodes early fuel left table bits).map bytesOf

variable {fuel left : Nat} {bits rest : Bits} {bytes : Bytes}

theorem readBytes_end : readBytes early (fuel + 1) left table (table.bitsOf early 257 ++ rest) = some [] := by
  rw [readBytes, readCodes, Bits.split?_of_length (table.length_bitsOf early 257), Option.bind_eq_bind,
    Option.bind_some]
  dsimp only
  rw [Table.toNat_bitsOf (table.end_lt early)]
  rfl

theorem readBytes_code (small : code < 2 ^ table.width early) (goesOn : code ≠ 257) :
    readBytes early (fuel + 1) left table (table.bitsOf early code ++ rest) =
      (table.follow code).bind fun (string, next) =>
        (readBytes early fuel (left - table.width early) next rest).map (string ++ ·) := by
  rw [readBytes, readCodes, Bits.split?_of_length (table.length_bitsOf early code), Option.bind_eq_bind,
    Option.bind_some]
  dsimp only
  rw [Table.toNat_bitsOf small, if_neg goesOn, Table.follow]
  by_cases clears : code = 256
  · rw [if_pos clears, if_pos clears, Option.bind_some, readBytes, Option.map_map]
    cases readCodes early fuel (left - table.width early) .cleared rest <;> rfl
  · rw [if_neg clears, if_neg clears]
    cases table.string? code with
    | none => rfl
    | some string =>
      rw [Option.bind_eq_bind, Option.bind_some, Option.map_some, Option.bind_some, readBytes,
        Option.map_map]
      cases readCodes early fuel (left - table.width early) (table.read string) rest <;> rfl

/-- What was written is read. -/
theorem readBytes_ended (spelled : spell early table codes = some spelling) (enough : codes.length < fuel)
    (left : Nat) (rest : Bits) :
    readBytes early fuel left table (spelling.ended early ++ rest) = some spelling.bytes := by
  induction codes generalizing fuel left table spelling with
  | nil =>
    obtain ⟨fuel, rfl⟩ := Nat.exists_eq_succ_of_ne_zero (Nat.ne_zero_of_lt enough)
    cases spelled
    exact readBytes_end
  | cons code codes inductionHypothesis =>
    obtain ⟨fuel, rfl⟩ := Nat.exists_eq_succ_of_ne_zero (Nat.ne_zero_of_lt enough)
    obtain ⟨small, string, next, others, followed, spelledOthers, rfl⟩ := spell_cons.mp spelled
    have read := inductionHypothesis spelledOthers (Nat.lt_of_succ_lt_succ enough)
      (left - table.width early)
    rw [Spelling.ended_cons, List.append_assoc, readBytes_code small (Table.ne_end_of_follow followed),
      followed, Option.bind_some]
    dsimp only
    rw [read]
    rfl

/-- What is read was written. -/
theorem exists_spell (read : readBytes early fuel left table bits = some bytes) :
    ∃ codes spelling rest, spell early table codes = some spelling ∧ spelling.bytes = bytes ∧
      bits = spelling.ended early ++ rest := by
  induction fuel generalizing left table bits bytes with
  | zero => cases read
  | succ fuel inductionHypothesis =>
    cases cut : bits.split? (table.width early) with
    | none =>
      rw [readBytes, readCodes, cut] at read
      cases read
    | some pair =>
      obtain ⟨front, rest⟩ := pair
      obtain ⟨rfl, whole⟩ := Bits.of_split? cut
      rw [← table.bitsOf_toNat whole] at read ⊢
      have small : Bits.toNat front.reverse < 2 ^ table.width early := by
        rw [← whole, ← List.length_reverse]
        exact Bits.toNat_lt front.reverse
      by_cases ends : Bits.toNat front.reverse = 257
      · rw [ends] at read ⊢
        rw [readBytes_end] at read
        cases read
        exact ⟨[], _, rest, rfl, rfl, rfl⟩
      · rw [readBytes_code small ends] at read
        obtain ⟨⟨string, next⟩, followed, read⟩ := Option.bind_eq_some_iff.mp read
        obtain ⟨others, readOthers, rfl⟩ := Option.map_eq_some_iff.mp read
        obtain ⟨codes, spelling, behind, spelled, rfl, rfl⟩ := inductionHypothesis readOthers
        refine ⟨_ :: codes, _, behind,
          spell_cons.mpr ⟨small, string, next, spelling, followed, spelled, rfl⟩, rfl, ?_⟩
        rw [Spelling.ended_cons, List.append_assoc]

end

end Lzw

end PdfCanvas
