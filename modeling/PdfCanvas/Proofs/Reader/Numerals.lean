import PdfCanvas.Proofs.Reader.Lexer

/-!
# Numerals read back

The characters of a numeral spell this numeral and no other: its sign, its units and its places. All of
them are regular, so a numeral is never cut in two.
-/

namespace PdfCanvas

namespace Decimal

theorem isDigit_of_mem_paddedDigits {width n : Nat} {c : Char} (member : c ∈ paddedDigits width n) :
    c.isDigit = true := by
  simp only [paddedDigits, List.mem_append, List.mem_replicate] at member
  rcases member with ⟨_, rfl⟩ | digit
  · rfl
  · exact Nat.isDigit_of_mem_toDigits (by decide) (by decide) digit

theorem length_paddedDigits {width n : Nat} (fits : n < Nat.pow 10 width) (hasPlaces : 0 < width) :
    (paddedDigits width n).length = width := by
  have short : (Nat.toDigits 10 n).length ≤ width :=
    (Nat.length_toDigits_le_iff (by decide) hasPlaces).mpr fits
  simp only [paddedDigits, List.length_append, List.length_replicate]
  omega

theorem value_paddedDigits (width n start : Nat) :
    Nat.ofDigitChars 10 (paddedDigits width n) start =
      Nat.pow 10 (paddedDigits width n).length * start + n := by
  rw [Nat.ofDigitChars_eq_ofDigitChars_zero, paddedDigits, Nat.ofDigitChars_append,
    Nat.ofDigitChars_replicate_zero, Nat.mul_zero, Nat.ofDigitChars_ten_toDigits]
  rfl

/-- The part of a numeral before the point. -/
def wholeDigits (d : Decimal) : List Char := Nat.toDigits 10 (d.units / Nat.pow 10 d.places)

/-- The part of a numeral behind the point. -/
def fractionDigits (d : Decimal) : List Char := paddedDigits d.places (d.units % Nat.pow 10 d.places)

theorem chars_eq (d : Decimal) :
    d.chars = (if d.negative then ['-'] else []) ++
      (d.wholeDigits ++ if d.places = 0 then [] else '.' :: d.fractionDigits) := by
  simp only [chars, wholeDigits, fractionDigits, List.append_assoc]

theorem isDigit_of_mem_wholeDigits {d : Decimal} {c : Char} (member : c ∈ d.wholeDigits) :
    c.isDigit = true :=
  Nat.isDigit_of_mem_toDigits (by decide) (by decide) member

theorem wholeDigits_ne_nil (d : Decimal) : d.wholeDigits ≠ [] := Nat.toDigits_ne_nil

/-- The digits on both sides of the point count the units. -/
theorem value_digits {d : Decimal} (hasPlaces : 0 < d.places) :
    Nat.ofDigitChars 10 (d.wholeDigits ++ d.fractionDigits) 0 = d.units := by
  have fits : d.units % Nat.pow 10 d.places < Nat.pow 10 d.places := Nat.mod_lt _ (Nat.pow_pos (by decide))
  rw [Nat.ofDigitChars_append, wholeDigits, Nat.ofDigitChars_ten_toDigits, fractionDigits,
    value_paddedDigits, length_paddedDigits fits hasPlaces]
  exact Nat.div_add_mod d.units (Nat.pow 10 d.places)

theorem mem_chars {d : Decimal} {c : Char} (member : c ∈ d.chars) :
    c.isDigit = true ∨ c = '-' ∨ c = '.' := by
  rw [chars_eq] at member
  rcases List.mem_append.mp member with sign | unsigned
  · right
    left
    cases negative : d.negative with
    | true => simpa [negative] using sign
    | false => simp [negative] at sign
  · rcases List.mem_append.mp unsigned with whole | fraction
    · exact .inl (isDigit_of_mem_wholeDigits whole)
    · by_cases noPlaces : d.places = 0
      · simp [noPlaces] at fraction
      · rw [if_neg noPlaces, List.mem_cons] at fraction
        rcases fraction with point | behind
        · exact .inr (.inr point)
        · exact .inl (isDigit_of_mem_paddedDigits behind)

theorem chars_ne_nil (d : Decimal) : d.chars ≠ [] := by
  rw [chars_eq]
  simp [wholeDigits_ne_nil]

def ofInt (value : Int) : Decimal := ⟨decide (value < 0), value.natAbs, 0⟩

theorem chars_ofInt (value : Int) : (ofInt value).chars = (toString value).toList := by
  have digits : (ofInt value).chars =
      (if value < 0 then ['-'] else []) ++ Nat.toDigits 10 value.natAbs := by
    simp [ofInt, chars_eq, wholeDigits]
  rw [digits]
  cases value with
  | ofNat n =>
    change _ = (Nat.repr n).toList
    rw [Nat.toList_repr]
    rfl
  | negSucc n =>
    change _ = ("-" ++ Nat.repr (n + 1)).toList
    rw [String.toList_append, Nat.toList_repr, if_pos (Int.negSucc_lt_zero n)]
    rfl

end Decimal

namespace Reader

open Decimal

theorem unsigned?_digits {whole : List Char} (digits : ∀ c ∈ whole, c.isDigit = true)
    (present : whole ≠ []) : unsigned? whole = some (Nat.ofDigitChars 10 whole 0, 0) := by
  -- The lemmas on taking and dropping want something behind the digits.
  have taken : (whole ++ []).takeWhile Char.isDigit = whole ++ [].takeWhile Char.isDigit :=
    List.takeWhile_append_of_pos digits
  have dropped : (whole ++ []).dropWhile Char.isDigit = [].dropWhile Char.isDigit :=
    List.dropWhile_append_of_pos digits
  simp only [List.append_nil, List.takeWhile_nil, List.dropWhile_nil] at taken dropped
  rw [unsigned?, taken, dropped]
  exact if_neg present

theorem unsigned?_point {whole fraction : List Char} (digits : ∀ c ∈ whole, c.isDigit = true)
    (digitsBehind : ∀ c ∈ fraction, c.isDigit = true) (present : whole ≠ []) :
    unsigned? (whole ++ '.' :: fraction) =
      some (Nat.ofDigitChars 10 (whole ++ fraction) 0, fraction.length) := by
  have notDigit : Char.isDigit '.' = false := rfl
  rw [unsigned?, List.takeWhile_append_of_pos digits, List.dropWhile_append_of_pos digits]
  simp [notDigit, present, List.all_eq_true.mpr digitsBehind]

theorem unsigned?_chars (d : Decimal) :
    unsigned? (d.wholeDigits ++ if d.places = 0 then [] else '.' :: d.fractionDigits) =
      some (d.units, d.places) := by
  have digits : ∀ c ∈ d.wholeDigits, c.isDigit = true := fun c => isDigit_of_mem_wholeDigits
  -- Without places there is no point either.
  by_cases whole : d.places = 0
  · rw [if_pos whole, List.append_nil, unsigned?_digits digits d.wholeDigits_ne_nil]
    simp [wholeDigits, whole]
  · have hasPlaces : 0 < d.places := Nat.pos_of_ne_zero whole
    have fits : d.units % Nat.pow 10 d.places < Nat.pow 10 d.places := Nat.mod_lt _ (Nat.pow_pos (by decide))
    have digitsBehind : ∀ c ∈ d.fractionDigits, c.isDigit = true :=
      fun c => isDigit_of_mem_paddedDigits
    have length : d.fractionDigits.length = d.places := length_paddedDigits fits hasPlaces
    rw [if_neg whole, unsigned?_point digits digitsBehind d.wholeDigits_ne_nil,
      value_digits hasPlaces, length]

theorem number?_unsigned {chars : List Char} {first : Char} {rest : List Char}
    (starts : chars = first :: rest) (digit : first.isDigit = true) :
    number? chars = (unsigned? chars).map fun (units, places) => ⟨false, units, places⟩ := by
  have notMinus : first ≠ '-' := by rintro rfl; exact absurd digit (by decide)
  have notPlus : first ≠ '+' := by rintro rfl; exact absurd digit (by decide)
  rw [starts, number?, if_neg notMinus, if_neg notPlus]

/-- A numeral is read as it was written. -/
theorem number?_chars (d : Decimal) : number? d.chars = some d := by
  have read := unsigned?_chars d
  obtain ⟨negative, units, places⟩ := d
  rw [chars_eq]
  cases negative with
  | true =>
    rw [if_pos rfl, List.singleton_append, number?, if_pos rfl, read]
    rfl
  | false =>
    -- The first character is a digit, which is no sign.
    obtain ⟨first, rest, starts⟩ :=
      List.exists_cons_of_ne_nil (wholeDigits_ne_nil ⟨false, units, places⟩)
    have digit : first.isDigit = true := isDigit_of_mem_wholeDigits (starts ▸ List.mem_cons_self)
    rw [if_neg (by simp), List.nil_append, number?_unsigned _ digit, read]
    · rfl
    · exact rest ++ if places = 0 then [] else '.' :: fractionDigits ⟨false, units, places⟩
    · rw [starts]
      rfl

end Reader

end PdfCanvas
