import PdfCanvas.Proofs.Decimal.Shortest
import PdfCanvas.Proofs.Numerals
import PdfCanvas.Proofs.Reader.Numerals

/-!
# Numerals of operands

An operand is the shortest numeral of a number if this is short enough, and the rounded exact value if not.
Whatever the way, no zero stands at the end of the fraction and no sign before a zero, and what is printed is
read back or as near as so many places allow.
-/

namespace PdfCanvas

namespace Decimal

variable (d : Decimal)

/-! ## Zeros at the end, and the sign of zero -/

theorem magnitude_trim : d.trim.magnitude = d.magnitude := by
  fun_induction trim d with
  | case1 negative units places zero inductionHypothesis =>
    rw [inductionHypothesis, magnitude_succ negative places zero]
  | case2 => rfl
  | case3 => rfl

theorem negative_trim : d.trim.negative = d.negative := by
  fun_induction trim d with
  | case1 negative units places zero inductionHypothesis => exact inductionHypothesis
  | case2 => rfl
  | case3 => rfl

theorem places_trim_le : d.trim.places ≤ d.places := by
  fun_induction trim d with
  | case1 negative units places zero inductionHypothesis => exact Nat.le_succ_of_le inductionHypothesis
  | case2 => exact Nat.le_refl _
  | case3 => exact Nat.le_refl _

theorem isTrimmed_trim : d.trim.IsTrimmed := by
  fun_induction trim d with
  | case1 negative units places zero inductionHypothesis => exact inductionHypothesis
  | case2 negative units places notZero => exact fun _ => notZero
  | case3 => exact fun hasPlaces => absurd hasPlaces (Nat.lt_irrefl 0)

theorem units_unsignedZero : d.unsignedZero.units = d.units := by
  rw [unsignedZero]
  split <;> rfl

theorem places_unsignedZero : d.unsignedZero.places = d.places := by
  rw [unsignedZero]
  split <;> rfl

theorem toRat_unsignedZero : d.unsignedZero.toRat = d.toRat := by
  rw [unsignedZero]
  split
  next zero => simp [toRat, magnitude, zero]
  next => rfl

variable {d}

theorem IsTrimmed.unsignedZero (trimmed : d.IsTrimmed) : d.unsignedZero.IsTrimmed := by
  rw [IsTrimmed, places_unsignedZero, units_unsignedZero]
  exact trimmed

theorem text_unsignedZero_ne : d.unsignedZero.text ≠ "-0" := by
  intro same
  have chars : d.unsignedZero.chars = ['-', '0'] := String.ofList_injective same
  have read := Reader.number?_chars d.unsignedZero
  have minusZero : Reader.number? ['-', '0'] = some ⟨true, 0, 0⟩ := by decide
  rw [chars, minusZero, Option.some.injEq, Decimal.unsignedZero] at read
  split at read
  · cases read
  next notZero => exact notZero (read ▸ rfl)

/-! ## The text -/

/-- What may stand behind the integer part of an operand: nothing, or a point and up to so many digits of which
the last is not zero. -/
inductive IsFraction (places : Nat) : List Char → Prop where
  | none : IsFraction places []
  | digits {front : List Char} {last : Char} (digits : ∀ c ∈ front, c.isDigit = true)
      (digit : last.isDigit = true) (notZero : last ≠ '0') (short : (front ++ [last]).length ≤ places) :
      IsFraction places ('.' :: (front ++ [last]))

/-- The text of an operand: a minus sign or none, at least one digit, a fraction. -/
inductive IsOperandText (places : Nat) : List Char → Prop where
  | parts (negative : Bool) {whole fraction : List Char} (present : whole ≠ [])
      (digits : ∀ c ∈ whole, c.isDigit = true) (isFraction : IsFraction places fraction) :
      IsOperandText places ((if negative then ['-'] else []) ++ (whole ++ fraction))

theorem isFraction_fractionDigits {places : Nat} (trimmed : d.IsTrimmed) (hasPlaces : 0 < d.places)
    (short : d.places ≤ places) : IsFraction places ('.' :: d.fractionDigits) := by
  have fits : d.units % Nat.pow 10 d.places < Nat.pow 10 d.places := Nat.mod_lt _ (Nat.pow_pos (by decide))
  have length : d.fractionDigits.length = d.places := length_paddedDigits fits hasPlaces
  have digits : ∀ c ∈ d.fractionDigits, c.isDigit = true := fun c => isDigit_of_mem_paddedDigits
  have value := value_digits hasPlaces
  rcases List.eq_nil_or_concat' d.fractionDigits with none | ⟨front, last, split⟩
  · rw [none] at length
    exact absurd length hasPlaces.ne
  · rw [split] at digits length value ⊢
    refine .digits (fun c member => digits c (List.mem_append_left _ member))
      (digits last (List.mem_append_right _ List.mem_cons_self)) ?_ (length.trans_le short)
    -- A zero at the end would count whole tens of units.
    rintro rfl
    have tens : d.units = 10 * Nat.ofDigitChars 10 (d.wholeDigits ++ front) 0 := by
      rw [← value, ← List.append_assoc, Nat.ofDigitChars_append]
      rfl
    exact trimmed hasPlaces (tens ▸ Nat.mul_mod_right 10 _)

theorem IsTrimmed.isOperandText {places : Nat} (trimmed : d.IsTrimmed) (short : d.places ≤ places) :
    IsOperandText places d.chars := by
  have digits : ∀ c ∈ d.wholeDigits, c.isDigit = true := fun c => isDigit_of_mem_wholeDigits
  rw [chars_eq]
  refine .parts d.negative d.wholeDigits_ne_nil digits ?_
  by_cases whole : d.places = 0
  · rw [if_pos whole]
    exact .none
  · rw [if_neg whole]
    exact isFraction_fractionDigits trimmed (Nat.pos_of_ne_zero whole) short

end Decimal

/-! ## The number that is printed -/

/-- A point of a decimal grid lies on every finer one. -/
theorem exists_finer_units (units : Nat) {fewer places : Nat} (fits : fewer ≤ places) :
    ∃ finer : Nat, (units : Rat) / 10 ^ fewer = finer / 10 ^ places := by
  obtain ⟨more, rfl⟩ := Nat.exists_eq_add_of_le fits
  refine ⟨units * 10 ^ more, ?_⟩
  rw [Nat.cast_mul, Nat.cast_pow, Nat.cast_ofNat, pow_add, mul_div_mul_right _ _ (by positivity)]

namespace FloatFormat

variable {format : FloatFormat} {places code : Nat} {printed : Rat}

/-- The magnitude that an operand with so many places gives for a code: one that is read back, or the rounded exact
one if the grid holds none. -/
inductive Prints (format : FloatFormat) (places code : Nat) : Rat → Prop where
  | short {units : Nat} (readsBack : format.encode (units / (10 : Rat) ^ places) = code) :
      Prints format places code (units / (10 : Rat) ^ places)
  | rounded (tooLong : ∀ units : Nat, format.encode (units / (10 : Rat) ^ places) ≠ code) :
      Prints format places code (roundEven (format.magnitude code * (10 : Rat) ^ places) / (10 : Rat) ^ places)

theorem Prints.readsBack_or_near (prints : format.Prints places code printed) :
    format.encode printed = code ∨ |printed - format.magnitude code| ≤ 1 / 2 * (1 / 10) ^ places := by
  cases prints with
  | short readsBack => exact .inl readsBack
  | rounded =>
    right
    have scale : 0 < (10 : Rat) ^ places := pow_pos (by norm_num) places
    have error := abs_roundEven_sub_le (format.magnitude code * (10 : Rat) ^ places)
    rw [one_div_pow, mul_one_div, le_div_iff₀ scale, ← abs_of_pos scale, ← abs_mul, abs_of_pos scale, sub_mul,
      div_mul_cancel₀ _ scale.ne']
    exact error

/-- The exact value is not rounded if so many places are enough for a numeral that is read back. -/
theorem Prints.readsBack (prints : format.Prints places code printed) {units fewer : Nat} (fits : fewer ≤ places)
    (point : format.encode (units / (10 : Rat) ^ fewer) = code) : format.encode printed = code := by
  cases prints with
  | short readsBack => exact readsBack
  | rounded tooLong =>
    obtain ⟨finer, same⟩ := exists_finer_units units fits
    exact absurd (same ▸ point) (tooLong finer)

end FloatFormat

namespace Floating

variable {format : FloatFormat} {negative : Bool} {code : Fin (format.infinityCode + 1)}

theorem magnitude_rounded {magnitude : Rat} (nonneg : 0 ≤ magnitude) (places : Nat) :
    (Decimal.rounded negative magnitude places).magnitude =
      roundEven (magnitude * (10 : Rat) ^ places) / (10 : Rat) ^ places := by
  have scaled : (0 : Int) ≤ roundEven (magnitude * (10 : Rat) ^ places) :=
    roundEven_mono_of_le (by simpa using by positivity)
  rw [Decimal.rounded, Decimal.magnitude, ← Int.cast_natCast, Int.toNat_of_nonneg scaled]

/-- What is printed of a finite number, but for the sign of zero. -/
theorem exists_operand (negative : Bool) (finite : code.val < format.infinityCode) (places : Nat) :
    ∃ d : Decimal, (signed negative code).operand? places = some d.unsignedZero ∧ d.negative = negative ∧
      d.IsTrimmed ∧ d.places ≤ places ∧ format.Prints places code.val d.magnitude := by
  obtain ⟨d, written, sign, shortest⟩ := exists_shortest negative finite
  simp only [operand?, written]
  split
  next long =>
    set rounded := Decimal.rounded negative (format.magnitude code.val) places with isRounded
    refine ⟨rounded.trim, rfl, rounded.negative_trim, rounded.isTrimmed_trim, rounded.places_trim_le, ?_⟩
    rw [rounded.magnitude_trim, isRounded, magnitude_rounded (format.magnitude_nonneg _)]
    exact .rounded (shortest.least places long)
  next fits =>
    refine ⟨d, rfl, sign, shortest.isTrimmed, Nat.not_lt.mp fits, ?_⟩
    have readsBack := shortest.readsBack
    obtain ⟨finer, same⟩ := exists_finer_units d.units (Nat.not_lt.mp fits)
    rw [Decimal.magnitude, same] at readsBack ⊢
    exact .short readsBack

theorem operand?_zero (finite : 0 < format.infinityCode) (negative : Bool) (places : Nat) :
    (signed negative 0 : Floating format).operand? places = some ⟨false, 0, 0⟩ := by
  have written : (signed negative 0 : Floating format).shortest? = some ⟨negative, 0, 0⟩ := by
    simp [shortest?, finite]
  simp [operand?, written, Decimal.unsignedZero]

/-- The number that a numeral is read as. -/
def ofDecimal (d : Decimal) : Floating format := ofMagnitude d.negative d.magnitude

theorem ofDecimal_eq_iff {d : Decimal} :
    ofDecimal d = signed negative code ↔ d.negative = negative ∧ format.encode d.magnitude = code.val := by
  simp [ofDecimal, ofMagnitude, Fin.ext_iff]

theorem ofDecimal_unsignedZero {d : Decimal} (notMinusZero : signed negative code ≠ signed true 0)
    (readsBack : ofDecimal d = signed negative code) : ofDecimal d.unsignedZero = signed negative code := by
  rw [Decimal.unsignedZero]
  split
  next zero =>
    obtain ⟨_, encoded⟩ := ofDecimal_eq_iff.mp readsBack
    have none : d.magnitude = 0 := by rw [Decimal.magnitude, zero, Nat.cast_zero, zero_div]
    have first : code = 0 := Fin.ext (encoded.symm.trans (none ▸ format.encode_zero))
    cases negative with
    | true => exact absurd (first ▸ rfl) notMinusZero
    | false => exact ofDecimal_eq_iff.mpr ⟨rfl, encoded⟩
  next => exact readsBack

theorem magnitude_of_zero {d : Decimal} {places : Nat} (finite : 0 < format.infinityCode)
    (printed : (signed negative 0 : Floating format).operand? places = some d.unsignedZero) : d.magnitude = 0 := by
  rw [operand?_zero finite, Option.some.injEq] at printed
  rw [Decimal.magnitude, ← d.units_unsignedZero, ← printed, Nat.cast_zero, zero_div]

theorem abs_toRat_sub {d : Decimal} (sign : d.negative = negative) (magnitude : Rat) :
    |d.toRat - (if negative then -magnitude else magnitude)| = |d.magnitude - magnitude| := by
  rw [Decimal.toRat, sign]
  cases negative with
  | true => rw [if_pos rfl, if_pos rfl, neg_sub_neg, abs_sub_comm]
  | false => rw [if_neg Bool.false_ne_true, if_neg Bool.false_ne_true]

/-- Only if a numeral with so many places is not read back as the number, the operand is not. -/
theorem ofDecimal_operand {d other : Decimal} {places : Nat} (sign : d.negative = negative)
    (prints : format.Prints places code.val d.magnitude) (notMinusZero : signed negative code ≠ signed true 0)
    (readsBack : ofDecimal other = signed negative code) (short : other.places ≤ places) :
    ofDecimal d.unsignedZero = signed negative code := by
  obtain ⟨_, point⟩ := ofDecimal_eq_iff.mp readsBack
  exact ofDecimal_unsignedZero notMinusZero (ofDecimal_eq_iff.mpr ⟨sign, prints.readsBack short point⟩)

theorem ofDecimal_or_near {d : Decimal} {places : Nat} (finite : code.val < format.infinityCode)
    (printed : (signed negative code).operand? places = some d.unsignedZero) (sign : d.negative = negative)
    (prints : format.Prints places code.val d.magnitude) :
    ofDecimal d.unsignedZero = signed negative code ∨
      |d.unsignedZero.toRat - (if negative then -format.magnitude code.val else format.magnitude code.val)| ≤
        1 / 2 * (1 / 10) ^ places := by
  rw [Decimal.toRat_unsignedZero, abs_toRat_sub sign]
  by_cases minusZero : signed negative code = signed true 0
  · -- It is read back without its sign, but no error is less than none.
    obtain ⟨rfl, rfl⟩ := signed.inj minusZero
    rw [magnitude_of_zero finite printed, Fin.val_zero, format.magnitude_zero, sub_zero, abs_zero]
    exact .inr (by positivity)
  · refine prints.readsBack_or_near.imp_left fun encoded => ?_
    exact ofDecimal_unsignedZero minusZero (ofDecimal_eq_iff.mpr ⟨sign, encoded⟩)

/-- An operand is well formed and accurate: its text is that of a numeral, with a fraction that does not end with
a zero and no sign before a zero, and the number is read back or off by half a unit of the last place at most. It
is read back if any numeral with so many places is; only the sign of zero is lost. -/
theorem operands_are_accurate (x : Single) (places : Nat) :
    (x.isFinite = false → x.operand? places = none) ∧
    (x.isFinite = true → ∃ value numeral shortest, x.toRat? = some value ∧
      x.operand? places = some numeral ∧ x.shortest? = some shortest ∧
      Decimal.IsOperandText places numeral.text.toList ∧ numeral.text ≠ "-0" ∧
      Reader.number? numeral.text.toList = some numeral ∧
      (ofDecimal numeral = x ∨ |numeral.toRat - value| ≤ 1 / 2 * (1 / 10) ^ places) ∧
      ofDecimal shortest = x ∧ (∀ other, ofDecimal other = x → shortest.places ≤ other.places) ∧
      (shortest.places ≤ places → ofDecimal numeral = if x = signed true 0 then zero else x)) := by
  refine ⟨fun notFinite => ?_, fun finite => ?_⟩
  · rw [← Option.not_isSome_iff_eq_none, operand?_isSome, notFinite]
    exact Bool.false_ne_true
  · cases x with
    | nan => exact absurd finite Bool.false_ne_true
    | signed negative code =>
      have below : code.val < FloatFormat.single.infinityCode := of_decide_eq_true finite
      obtain ⟨d, printed, sign, trimmed, fits, prints⟩ := exists_operand negative below places
      obtain ⟨shortest, written, signShortest, isShortest⟩ := exists_shortest negative below
      have readsBack : ofDecimal shortest = signed negative code :=
        ofDecimal_eq_iff.mpr ⟨signShortest, isShortest.readsBack⟩
      have text : d.unsignedZero.text.toList = d.unsignedZero.chars := String.toList_ofList
      refine ⟨_, d.unsignedZero, shortest, if_pos below, printed, written, ?_, Decimal.text_unsignedZero_ne, ?_,
        ofDecimal_or_near below printed sign prints, readsBack, fun other same => ?_, fun short => ?_⟩
      · rw [text]
        exact trimmed.unsignedZero.isOperandText (d.places_unsignedZero.trans_le fits)
      · rw [text]
        exact Reader.number?_chars _
      · obtain ⟨_, point⟩ := ofDecimal_eq_iff.mp same
        by_contra fewer
        exact isShortest.least other.places (not_le.mp fewer) other.units point
      · split
        next minusZero =>
          obtain ⟨rfl, rfl⟩ := signed.inj minusZero
          rw [operand?_zero below, Option.some.injEq] at printed
          rw [← printed]
          exact ofDecimal_eq_iff.mpr ⟨rfl, by simp [Decimal.magnitude, FloatFormat.encode_zero]⟩
        next notMinusZero => exact ofDecimal_operand sign prints notMinusZero readsBack short

theorem minus_one_half_is_read_back :
    (ofBits 0xBF000000 : Single).toRat? = some (-1 / 2) ∧
    (∃ numeral, (ofBits 0xBF000000 : Single).operand? 1 = some numeral ∧
      ofDecimal numeral = (ofBits 0xBF000000 : Single)) ∧
    (nan : Single).operand? 1 = none := by
  obtain ⟨_, numeral, shortest, _, printed, _, _, _, _, _, _, least, readBack⟩ :=
    (operands_are_accurate (ofBits 0xBF000000) 1).2 (by decide)
  have short : shortest.places ≤ 1 := least ⟨true, 5, 1⟩ (by decide +kernel)
  refine ⟨by decide +kernel, ⟨numeral, printed, (readBack short).trans (if_neg (by decide))⟩, ?_⟩
  exact (operands_are_accurate nan 1).1 rfl

end Floating

end PdfCanvas
