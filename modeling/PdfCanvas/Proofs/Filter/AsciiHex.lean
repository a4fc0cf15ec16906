import PdfCanvas.Proofs.Bits
import PdfCanvas.Proofs.Outcomes
import PdfCanvas.Proofs.Reader.Lexer

/-!
# Hexadecimal data as digits

What counts of hexadecimal data are the digits in front of the end mark, two for each byte. White space may
stand anywhere between them, with one exception: null is white space to a reader of pages, but the decoder takes
it for a digit and refuses it.
-/

namespace PdfCanvas.AsciiHex

/-! ## Digits -/

/-- The digit stands for the value, in upper or lower case. -/
def IsDigit (digit : UInt8) (value : Nat) : Prop :=
  (utf8 "0123456789ABCDEF")[value]? = some digit ∨ (utf8 "0123456789abcdef")[value]? = some digit

instance (digit : UInt8) (value : Nat) : Decidable (IsDigit digit value) :=
  inferInstanceAs (Decidable (_ ∨ _))

variable {digit : UInt8} {value : Nat}

theorem IsDigit.lt (isDigit : IsDigit digit value) : value < 16 := by
  rcases isDigit with upper | lower
  · exact (List.getElem?_eq_some_iff.mp upper).1
  · exact (List.getElem?_eq_some_iff.mp lower).1

theorem digitValue_of_isDigit (isDigit : IsDigit digit value) : digitValue digit = .ok value.toUInt8 := by
  have every : ∀ value < 16, ∀ digit ∈ (utf8 "0123456789ABCDEF")[value]?.toList ++
      (utf8 "0123456789abcdef")[value]?.toList, digitValue digit = .ok value.toUInt8 := by
    decide +kernel
  apply every value isDigit.lt
  rw [List.mem_append, Option.mem_toList, Option.mem_toList]
  exact isDigit

theorem isDigit_of_digitValue {value : UInt8} (named : digitValue digit = .ok value) :
    IsDigit digit value.toNat := by
  have every : ∀ digit, ∀ value ∈ (digitValue digit).toOption, IsDigit digit value.toNat :=
    forall_byte (by decide +kernel)
  apply every
  rw [named]
  rfl

theorem isDigit_zero_iff : IsDigit 0x30 value ↔ value = 0 := by
  have every : ∀ value < 16, IsDigit 0x30 value → value = 0 := by decide +kernel
  constructor
  · intro isDigit
    exact every value isDigit.lt isDigit
  · rintro rfl
    decide +kernel

theorem IsDigit.isWhiteSpace_eq_false (isDigit : IsDigit digit value) :
    Reader.isWhiteSpace digit = false := by
  have every : ∀ digit, (digitValue digit).toOption.isSome = true → Reader.isWhiteSpace digit = false :=
    forall_byte (by decide +kernel)
  apply every
  rw [digitValue_of_isDigit isDigit]
  rfl

theorem pairValue_eq_ok_iff {high low byte : UInt8} : pairValue high low = .ok byte ↔
    ∃ front back, IsDigit high front ∧ IsDigit low back ∧ byte = (16 * front + back).toUInt8 := by
  constructor
  · intro paired
    obtain ⟨front, namedHigh, paired⟩ := bind_eq_ok.mp paired
    obtain ⟨back, namedLow, whole⟩ := bind_eq_ok.mp paired
    refine ⟨_, _, isDigit_of_digitValue namedHigh, isDigit_of_digitValue namedLow, ?_⟩
    rw [← Except.ok.inj whole]
    simp
  · rintro ⟨front, back, isHigh, isLow, rfl⟩
    refine bind_eq_ok.mpr ⟨_, digitValue_of_isDigit isHigh,
      bind_eq_ok.mpr ⟨_, digitValue_of_isDigit isLow, congrArg Except.ok ?_⟩⟩
    simp

/-! ## Digits in pairs -/

/-- Digits spell bytes, the high half of each first. A last digit without a partner is the high half of its
byte. -/
inductive Spells : Bytes → Bytes → Prop where
  | nil : Spells [] []
  | half {high : UInt8} {front : Nat} (isHigh : IsDigit high front) :
      Spells [high] [(16 * front).toUInt8]
  | pair {high low : UInt8} {front back : Nat} {digits bytes : Bytes} (isHigh : IsDigit high front)
      (isLow : IsDigit low back) (others : Spells digits bytes) :
      Spells (high :: low :: digits) ((16 * front + back).toUInt8 :: bytes)

/-- Every byte is spelled by two digits. -/
theorem spells_hexPairs (bytes : Bytes) : Spells (bytes.flatMap hexPair) bytes := by
  induction bytes with
  | nil => exact .nil
  | cons byte bytes inductionHypothesis =>
    have every : ∀ byte : UInt8, IsDigit (hexDigit (byte / 16)) (byte / 16).toNat ∧
        IsDigit (hexDigit (byte % 16)) (byte % 16).toNat :=
      forall_byte (by decide +kernel)
    have halves : 16 * (byte / 16).toNat + (byte % 16).toNat = byte.toNat := by
      rw [UInt8.toNat_div, UInt8.toNat_mod]
      exact Nat.div_add_mod ..
    have spelled := Spells.pair (every byte).1 (every byte).2 inductionHypothesis
    rwa [halves, Nat.toUInt8_eq, UInt8.ofNat_toNat] at spelled

theorem Spells.isDigit {digits bytes : Bytes} (spells : Spells digits bytes) :
    ∀ digit ∈ digits, ∃ value, IsDigit digit value := by
  induction spells with
  | nil => simp
  | half isHigh => simpa using ⟨_, isHigh⟩
  | pair isHigh isLow _ inductionHypothesis =>
    simp only [List.forall_mem_cons]
    exact ⟨⟨_, isHigh⟩, ⟨_, isLow⟩, inductionHypothesis⟩

theorem decodeDigits_eq_ok_iff {digits bytes : Bytes} :
    decodeDigits digits = .ok bytes ↔ Spells digits bytes := by
  constructor
  · intro decoded
    fun_induction decodeDigits digits generalizing bytes with
    | case1 =>
      cases decoded
      exact .nil
    | case2 high =>
      obtain ⟨byte, paired, whole⟩ := bind_eq_ok.mp decoded
      obtain ⟨front, back, isHigh, isZero, rfl⟩ := pairValue_eq_ok_iff.mp paired
      cases whole
      -- zero stands in for the partner
      obtain rfl := isDigit_zero_iff.mp isZero
      exact .half isHigh
    | case3 high low digits inductionHypothesis =>
      obtain ⟨byte, paired, decoded⟩ := bind_eq_ok.mp decoded
      obtain ⟨others, decodedOthers, whole⟩ := bind_eq_ok.mp decoded
      obtain ⟨front, back, isHigh, isLow, rfl⟩ := pairValue_eq_ok_iff.mp paired
      cases whole
      exact .pair isHigh isLow (inductionHypothesis decodedOthers)
  · intro spells
    induction spells with
    | nil => rfl
    | half isHigh =>
      exact bind_eq_ok.mpr ⟨_, pairValue_eq_ok_iff.mpr ⟨_, _, isHigh, isDigit_zero_iff.mpr rfl, rfl⟩, rfl⟩
    | pair isHigh isLow _ inductionHypothesis =>
      exact bind_eq_ok.mpr ⟨_, pairValue_eq_ok_iff.mpr ⟨_, _, isHigh, isLow, rfl⟩,
        bind_eq_ok.mpr ⟨_, inductionHypothesis, rfl⟩⟩

theorem fault_of_digitValue {e : Error} (refused : digitValue digit = .error e) :
    e = .decode (.hexDigit digit) ∧ ∀ value, ¬ IsDigit digit value := by
  constructor
  · unfold digitValue at refused
    split at refused
    next => cases refused
    next =>
      split at refused
      next => cases refused
      next =>
        split at refused
        next => cases refused
        next => exact (Except.error.inj refused).symm
  · intro value isDigit
    rw [digitValue_of_isDigit isDigit] at refused
    cases refused

theorem fault_of_pairValue {high low : UInt8} {e : Error} (refused : pairValue high low = .error e) :
    digitValue high = .error e ∨ digitValue low = .error e := by
  rcases bind_eq_error.mp refused with first | ⟨_, _, refused⟩
  · exact .inl first
  · rcases bind_eq_error.mp refused with second | ⟨_, _, whole⟩
    · exact .inr second
    · cases whole

/-- Digits are refused for one that is none. -/
theorem fault_of_decodeDigits {digits : Bytes} {e : Error} (refused : decodeDigits digits = .error e) :
    ∃ digit ∈ digits, digitValue digit = .error e := by
  fun_induction decodeDigits digits with
  | case1 => cases refused
  | case2 high =>
    rcases bind_eq_error.mp refused with pair | ⟨_, _, whole⟩
    · -- the zero that stands in for the partner is a digit
      rcases fault_of_pairValue pair with isHigh | isZero
      · exact ⟨high, List.mem_cons_self, isHigh⟩
      · cases isZero
    · cases whole
  | case3 high low digits inductionHypothesis =>
    rcases bind_eq_error.mp refused with pair | ⟨_, _, refused⟩
    · rcases fault_of_pairValue pair with isHigh | isLow
      · exact ⟨high, List.mem_cons_self, isHigh⟩
      · exact ⟨low, List.mem_cons_of_mem _ List.mem_cons_self, isLow⟩
    · rcases bind_eq_error.mp refused with others | ⟨_, _, whole⟩
      · obtain ⟨digit, member, fault⟩ := inductionHypothesis others
        exact ⟨digit, List.mem_cons_of_mem _ (List.mem_cons_of_mem _ member), fault⟩
      · cases whole

theorem exists_spells {digits : Bytes} (each : ∀ digit ∈ digits, ∃ value, IsDigit digit value) :
    ∃ bytes, Spells digits bytes := by
  fun_induction decodeDigits digits with
  | case1 => exact ⟨_, .nil⟩
  | case2 high =>
    obtain ⟨_, isHigh⟩ := each high List.mem_cons_self
    exact ⟨_, .half isHigh⟩
  | case3 high low digits inductionHypothesis =>
    simp only [List.forall_mem_cons] at each
    obtain ⟨⟨_, isHigh⟩, ⟨_, isLow⟩, others⟩ := each
    obtain ⟨_, spells⟩ := inductionHypothesis others
    exact ⟨_, .pair isHigh isLow spells⟩

/-! ## Digits in data -/

/-- What stands in front of the end mark. -/
def body (data : Bytes) : Bytes := data.takeWhile (· ≠ 0x3E)

/-- What stands in front of the end mark and is not white space. -/
def significant (data : Bytes) : Bytes := (body data).filter (!Reader.isWhiteSpace ·)

theorem isWhiteSpace_eq (byte : UInt8) : Reader.isWhiteSpace byte = (byte == 0 || isBlank byte) := rfl

theorem digits_of_noNull {data : Bytes} (noNull : 0 ∉ body data) : digits data = significant data := by
  apply List.filter_congr
  intro byte member
  have other : (byte == 0) = false := beq_false_of_ne fun null => noNull (null ▸ member)
  rw [isWhiteSpace_eq, other, Bool.false_or]

theorem mem_digits_of_null {data : Bytes} (null : 0 ∈ body data) : 0 ∈ digits data :=
  List.mem_filter.mpr ⟨null, rfl⟩

theorem not_isDigit_null : ¬ IsDigit 0 value := by
  intro isDigit
  cases isDigit.isWhiteSpace_eq_false

theorem decode_eq_ok_iff {data out : Bytes} :
    decode data = .ok out ↔ 0 ∉ body data ∧ Spells (significant data) out := by
  by_cases null : 0 ∈ body data
  · have refused : ¬ Spells (digits data) out := by
      intro spells
      obtain ⟨_, isDigit⟩ := spells.isDigit 0 (mem_digits_of_null null)
      exact not_isDigit_null isDigit
    simp only [decode, decodeDigits_eq_ok_iff, refused, null, not_true, false_and]
  · simp only [decode, decodeDigits_eq_ok_iff, digits_of_noNull null, null, not_false_iff, true_and]

theorem exists_spells_iff {digits : Bytes} :
    (∃ bytes, Spells digits bytes) ↔ ∀ digit ∈ digits, ∃ value, IsDigit digit value :=
  ⟨fun ⟨_, spells⟩ => spells.isDigit, exists_spells⟩

/-- An end mark is no part of text that spells something. -/
theorem body_of_spells {text out : Bytes} (spells : Spells (text.filter (!Reader.isWhiteSpace ·)) out)
    (rest : Bytes) : body (text ++ rest) = text ++ body rest := by
  apply List.takeWhile_append_of_pos
  intro byte member
  rw [decide_eq_true_eq]
  rintro rfl
  obtain ⟨_, isDigit⟩ := spells.isDigit 0x3E (List.mem_filter.mpr ⟨member, rfl⟩)
  cases digitValue_of_isDigit isDigit

/-- Text with digits and white space, but without nulls, is decoded to what the digits spell, whether it ends
with the data or with an end mark that other data follow. -/
theorem decode_of_spells {text out : Bytes} (noNull : 0 ∉ text)
    (spells : Spells (text.filter (!Reader.isWhiteSpace ·)) out) :
    decode text = .ok out ∧ ∀ rest, decode (text ++ 0x3E :: rest) = .ok out := by
  have alone : body text = text := by
    have all := body_of_spells spells []
    rw [List.append_nil] at all
    exact all.trans (List.append_nil text)
  have ended (rest : Bytes) : body (text ++ 0x3E :: rest) = text := by
    rw [body_of_spells spells]
    exact List.append_nil text
  refine ⟨?_, fun rest => ?_⟩
  · rw [decode_eq_ok_iff, significant, alone]
    exact ⟨noNull, spells⟩
  · rw [decode_eq_ok_iff, significant, ended]
    exact ⟨noNull, spells⟩

/-- Bytes that are written in hexadecimal are read back. -/
theorem decode_hexPairs (bytes : Bytes) :
    decode (bytes.flatMap hexPair) = .ok bytes ∧
      ∀ rest, decode (bytes.flatMap hexPair ++ 0x3E :: rest) = .ok bytes := by
  have spells := spells_hexPairs bytes
  have noNull : 0 ∉ bytes.flatMap hexPair := by
    intro null
    obtain ⟨_, isDigit⟩ := spells.isDigit 0 null
    exact not_isDigit_null isDigit
  have solid : (bytes.flatMap hexPair).filter (!Reader.isWhiteSpace ·) = bytes.flatMap hexPair := by
    apply List.filter_eq_self.mpr
    intro digit member
    obtain ⟨_, isDigit⟩ := spells.isDigit digit member
    rw [isDigit.isWhiteSpace_eq_false, Bool.not_false]
  exact decode_of_spells noNull (solid.symm ▸ spells)

/-- The byte that data are refused for stands in front of the end mark and is no digit. It is not white space
either, unless it is a null. -/
theorem fault_of_decode {data : Bytes} {e : Error} (refused : decode data = .error e) :
    ∃ byte ∈ body data, e = .decode (.hexDigit byte) ∧ (∀ value, ¬ IsDigit byte value) ∧
      (Reader.isWhiteSpace byte = true → byte = 0) := by
  obtain ⟨byte, member, refused⟩ := fault_of_decodeDigits refused
  obtain ⟨isIn, solid⟩ := List.mem_filter.mp member
  obtain ⟨fault, noDigit⟩ := fault_of_digitValue refused
  refine ⟨byte, isIn, fault, noDigit, ?_⟩
  simp_all [isWhiteSpace_eq]

/-- Data in front of whose end mark there is no null are decoded exactly if what stands there are digits and
white space, and then to what the digits spell. Data with a null there are refused. -/
theorem digits_are_decoded_unless_null (data : Bytes) :
    (∀ out, decode data = .ok out ↔ 0 ∉ body data ∧ Spells (significant data) out) ∧
    ((∃ out, decode data = .ok out) ↔
      0 ∉ body data ∧ ∀ digit ∈ significant data, ∃ value, IsDigit digit value) ∧
    (∀ e, decode data = .error e → ∃ byte ∈ body data, e = .decode (.hexDigit byte) ∧
      (∀ value, ¬ IsDigit byte value) ∧ (Reader.isWhiteSpace byte = true → byte = 0)) ∧
    (0 ∉ data → ∀ out, Spells (data.filter (!Reader.isWhiteSpace ·)) out →
      decode data = .ok out ∧ ∀ rest, decode (data ++ 0x3E :: rest) = .ok out) := by
  refine ⟨fun _ => decode_eq_ok_iff, ?_, fun _ => fault_of_decode, fun noNull _ => decode_of_spells noNull⟩
  simp only [decode_eq_ok_iff, exists_and_left, exists_spells_iff]

/-- Bytes in either case, white space between the digits of a byte, and other data behind the end mark. -/
theorem scattered_digits_are_decoded :
    0 ∉ utf8 "4a 4\nB" ∧ decode (utf8 "4a 4\nB" ++ 0x3E :: utf8 "zz") = .ok [0x4A, 0x4B] := by
  have noNull : 0 ∉ utf8 "4a 4\nB" := by decide +kernel
  have first : IsDigit 0x34 4 := by decide +kernel
  have upper : IsDigit 0x61 10 := by decide +kernel
  have lower : IsDigit 0x42 11 := by decide +kernel
  have spells : Spells ((utf8 "4a 4\nB").filter (!Reader.isWhiteSpace ·)) [0x4A, 0x4B] :=
    .pair first upper (.pair first lower .nil)
  exact ⟨noNull, ((digits_are_decoded_unless_null _).2.2.2 noNull _ spells).2 _⟩

/-- A null between two digits is white space, but it is refused. -/
theorem null_is_refused_as_a_digit :
    significant [0x34, 0x00, 0x31] = [0x34, 0x31] ∧ Spells [0x34, 0x31] [0x41] ∧
      decode [0x34, 0x00, 0x31] = .error (.decode (.hexDigit 0)) := by
  have four : IsDigit 0x34 4 := by decide +kernel
  have one : IsDigit 0x31 1 := by decide +kernel
  exact ⟨rfl, .pair four one .nil, rfl⟩

end PdfCanvas.AsciiHex
