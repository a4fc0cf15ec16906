import PdfCanvas.Operand
import PdfCanvas.Proofs.Bits
import PdfCanvas.Proofs.Reader.Numerals

/-!
# Operands read back

A reader takes every operand for what it is, whatever follows the space after it: names and strings with
all their bytes, numbers as the numeral that was written.
-/

namespace PdfCanvas

theorem utf8_injective {first second : String} (same : utf8 first = utf8 second) :
    first = second := by
  have encoded : first.toList.utf8Encode = second.toList.utf8Encode :=
    congrArg List.toByteArray same
  rw [String.utf8Encode_toList, String.utf8Encode_toList] at encoded
  exact String.toByteArray_inj.mp encoded

namespace Reader

/-! ## Bytes -/

theorem isRegular_of_isRegularByte : ∀ byte : UInt8, isRegularByte byte = true →
    isRegular byte = true ∧ byte ≠ 0x23 :=
  forall_byte (by decide +kernel)

theorem hexByte?_hexPair : ∀ byte : UInt8,
    hexByte? (hexDigit (byte / 16)) (hexDigit (byte % 16)) = some byte :=
  forall_byte (by decide +kernel)

theorem hexDigits_of_byte : ∀ byte : UInt8,
    (isWhiteSpace (hexDigit (byte / 16)) = false ∧ hexDigit (byte / 16) ≠ 0x3E ∧
      (hexByte? 0x30 (hexDigit (byte / 16))).isSome = true) ∧
    isWhiteSpace (hexDigit (byte % 16)) = false ∧ hexDigit (byte % 16) ≠ 0x3E :=
  forall_byte (by decide +kernel)

/-! ## Names and strings -/

/-- A name ends where a byte follows that is not regular. -/
theorem readName_escaped (name : Bytes) {first : UInt8} {rest : Bytes}
    (ended : isRegular first = false) :
    readName (name.flatMap nameByte ++ first :: rest) = some (name, first :: rest) := by
  -- By induction on the bytes of the name: each is written as it is or as two digits.
  induction name with
  | nil => exact readName_end ended rest
  | cons byte name inductionHypothesis =>
    rw [List.flatMap_cons, List.append_assoc, nameByte]
    by_cases regular : isRegularByte byte = true
    · obtain ⟨shown, notEscape⟩ := isRegular_of_isRegularByte byte regular
      rw [if_pos regular, List.singleton_append, readName_regular shown notEscape,
        inductionHypothesis]
      rfl
    · rw [if_neg regular, hexPair, List.cons_append, List.cons_append, List.cons_append,
        List.nil_append, readName_escape (hexByte?_hexPair byte), inductionHypothesis]
      rfl

/-- The three bytes that parentheses cannot hold as they are, and all others. -/
theorem literalByte_cases (byte : UInt8) :
    (byte = 0x28 ∨ byte = 0x29 ∨ byte = 0x5C) ∧ literalByte byte = [0x5C, byte] ∨
      (byte ≠ 0x28 ∧ byte ≠ 0x29 ∧ byte ≠ 0x5C) ∧ literalByte byte = [byte] := by
  by_cases special : byte = 0x28 ∨ byte = 0x29 ∨ byte = 0x5C
  · exact .inl ⟨special, if_pos special⟩
  · refine .inr ⟨?_, if_neg special⟩
    simpa using special

theorem escape_special {byte : UInt8} (special : byte = 0x28 ∨ byte = 0x29 ∨ byte = 0x5C)
    (rest : Bytes) : escape (byte :: rest) = ([byte], 1) := by
  rcases special with rfl | rfl | rfl <;> rfl

theorem readLiteral_escaped {string : Bytes} (plain : isPlain string = true) (rest : Bytes) :
    readLiteral 0 0 (string.flatMap literalByte ++ 0x29 :: rest) = some (string, rest) := by
  induction string with
  | nil => rfl
  | cons byte string inductionHypothesis =>
    simp only [isPlain, List.all_cons, Bool.and_eq_true, bne_iff_ne, ne_eq] at plain
    obtain ⟨⟨⟨_, notReturn⟩, _⟩, others⟩ := plain
    have read := inductionHypothesis others
    rw [List.flatMap_cons, List.append_assoc]
    -- The depth stays zero: parentheses in the string are escaped, so none is read as one.
    rcases literalByte_cases byte with
      ⟨special, spelled⟩ | ⟨⟨notOpen, notClose, notEscape⟩, spelled⟩
    · rw [spelled, List.cons_append, List.singleton_append, readLiteral, if_pos rfl,
        escape_special special, readLiteral, read]
      rfl
    · rw [spelled, List.singleton_append, readLiteral, if_neg notEscape, if_neg notOpen,
        if_neg notClose, if_neg notReturn, read]
      rfl

theorem readHex_pairs (string rest : Bytes) :
    readHex none (string.flatMap hexPair ++ 0x3E :: rest) = some (string, rest) := by
  induction string with
  | nil => rfl
  | cons byte string inductionHypothesis =>
    obtain ⟨⟨visible, notEnd, isDigit⟩, visibleLow, notEndLow⟩ := hexDigits_of_byte byte
    -- Two steps of the reader for each byte: the first digit waits for the second.
    rw [List.flatMap_cons, List.append_assoc, hexPair, List.cons_append, List.singleton_append,
      readHex, visible]
    simp only [Bool.false_eq_true, if_false, if_neg notEnd, if_pos isDigit]
    rw [readHex, visibleLow]
    simp only [Bool.false_eq_true, if_false, if_neg notEndLow, hexByte?_hexPair byte,
      inductionHypothesis]
    rfl

/-! ## Numbers and keywords -/

/-- Characters below 128 whose bytes are regular. -/
def IsRegularChar (c : Char) : Prop := c.toNat < 128 ∧ isRegular c.toNat.toUInt8 = true

instance (c : Char) : Decidable (IsRegularChar c) := inferInstanceAs (Decidable (_ ∧ _))

/-- A list of characters is checked one by one, not by going through all characters there are. -/
theorem regular_of_all {chars : List Char} (checked : chars.all (IsRegularChar ·) = true) :
    ∀ c ∈ chars, IsRegularChar c := by
  simpa using checked

theorem isRegularChar_of_digit {c : Char} (digit : c.isDigit = true) : IsRegularChar c := by
  have digits : ∀ n < 58, 48 ≤ n → isRegular n.toUInt8 = true := by decide
  simp only [Char.isDigit, Bool.and_eq_true, decide_eq_true_eq, ge_iff_le, UInt32.le_iff_toNat_le] at digit
  obtain ⟨notBelow, notAbove⟩ := digit
  have low : 48 ≤ c.toNat := notBelow
  have high : c.toNat ≤ 57 := notAbove
  exact ⟨by omega, digits c.toNat (by omega) low⟩

theorem isRegularChar_of_mem_chars {d : Decimal} {c : Char} (member : c ∈ d.chars) :
    IsRegularChar c := by
  rcases Decimal.mem_chars member with digit | rfl | rfl
  · exact isRegularChar_of_digit digit
  · exact ⟨by decide, by decide⟩
  · exact ⟨by decide, by decide⟩

theorem charsOf_ascii {chars : List Char} (regular : ∀ c ∈ chars, IsRegularChar c) :
    charsOf (ascii chars) = chars := by
  unfold charsOf ascii
  rw [List.map_map]
  refine (List.map_congr_left fun c member => ?_).trans (List.map_id chars)
  have small : c.toNat % 256 = c.toNat := Nat.mod_eq_of_lt (Nat.lt_trans (regular c member).1 (by decide))
  simp [small]

theorem utf8_of_regular {text : String} (regular : ∀ c ∈ text.toList, IsRegularChar c) :
    utf8 text = ascii text.toList := by
  unfold utf8 ascii
  -- From here on it is about a list of characters, whatever text it belongs to.
  generalize text.toList = chars at regular
  induction chars with
  | nil => rfl
  | cons c rest inductionHypothesis =>
    have small : c.toNat < 128 := (regular c List.mem_cons_self).1
    have single : String.utf8EncodeChar c = [c.toNat.toUInt8] :=
      String.utf8EncodeChar_eq_singleton (Char.utf8Size_eq_one_iff.mpr (Nat.le_of_lt_succ small))
    rw [List.flatMap_cons, List.map_cons, single,
      inductionHypothesis fun c member => regular c (List.mem_cons_of_mem _ member)]
    rfl

/-- A run of regular characters is one token, up to the next byte that is not regular. -/
theorem readTokens_run {chars : List Char} {stop : UInt8} (rest : Bytes)
    (regular : ∀ c ∈ chars, IsRegularChar c) (present : chars ≠ [])
    (ended : isRegular stop = false) :
    readTokens (ascii chars ++ stop :: rest) =
      (readTokens (stop :: rest)).map (Token.ofRun (ascii chars) :: ·) := by
  obtain ⟨first, others, rfl⟩ := List.exists_cons_of_ne_nil present
  have shown : isRegular first.toNat.toUInt8 = true := (regular first List.mem_cons_self).2
  have allShown : ∀ byte ∈ ascii others, isRegular byte = true := by
    intro byte member
    obtain ⟨c, among, rfl⟩ := List.mem_map.mp member
    exact (regular c (List.mem_cons_of_mem _ among)).2
  have visible : isWhiteSpace first.toNat.toUInt8 = false := by
    simp [isRegular] at shown
    exact shown.1
  -- None of the bytes that start other tokens is regular.
  have notSpecial : ∀ byte : UInt8, isRegular byte = false → first.toNat.toUInt8 ≠ byte := by
    rintro byte irregular rfl
    rw [shown] at irregular
    cases irregular
  have read : readToken first.toNat.toUInt8 (ascii others ++ stop :: rest) =
      some (Token.ofRun (ascii (first :: others)), stop :: rest) := by
    rw [readToken, if_neg (notSpecial _ rfl), if_neg (notSpecial _ rfl), if_neg (notSpecial _ rfl),
      if_neg (notSpecial _ rfl), if_neg (notSpecial _ rfl), if_pos shown,
      List.takeWhile_append_of_pos allShown, List.dropWhile_append_of_pos allShown]
    simp [ended, ascii]
  exact readTokens_token visible (notSpecial _ rfl) read

theorem readTokens_numeral (numeral : Decimal) (rest : Bytes) :
    readTokens (Operand.numeralBytes numeral ++ rest) =
      (readTokens rest).map (.number numeral :: ·) := by
  have regular : ∀ c ∈ numeral.chars, IsRegularChar c := fun c => isRegularChar_of_mem_chars
  have token : Token.ofRun (ascii numeral.chars) = .number numeral := by
    rw [Token.ofRun, charsOf_ascii regular, number?_chars]
  rw [Operand.numeralBytes, List.append_assoc, List.singleton_append,
    readTokens_run rest regular numeral.chars_ne_nil rfl, token, readTokens_space rfl]

/-- The keywords consist of regular characters and spell no number. -/
theorem keyword_regular (o : Operator) :
    (∀ c ∈ o.keyword.toList, IsRegularChar c) ∧ number? o.keyword.toList = none ∧
      o.keyword.toList ≠ [] := by
  refine ⟨regular_of_all ?_, ?_, ?_⟩ <;> cases o <;> decide +kernel

theorem readTokens_keyword (o : Operator) (rest : Bytes) :
    readTokens (utf8 o.keyword ++ 0x0A :: rest) =
      (readTokens rest).map (.keyword o.keyword :: ·) := by
  obtain ⟨regular, notNumber, present⟩ := keyword_regular o
  have token : Token.ofRun (ascii o.keyword.toList) = .keyword o.keyword := by
    rw [Token.ofRun, charsOf_ascii regular, notNumber]
    simp
  rw [utf8_of_regular regular, readTokens_run rest regular present rfl, token, readTokens_space rfl]

/-! ## Operands -/

def tokensOf : Operand → List Token
  | .number numeral => [.number numeral]
  | .integer value => [.number (.ofInt value)]
  | .name text => [.name (utf8 text)]
  | .string bytes => [.string bytes]
  | .numbers numerals => .arrayStart :: numerals.map .number ++ [.arrayEnd]

theorem readTokens_numerals (numerals : List Decimal) (rest : Bytes) :
    readTokens (numerals.flatMap Operand.numeralBytes ++ rest) =
      (readTokens rest).map (numerals.map .number ++ ·) := by
  induction numerals with
  | nil => simp
  | cons first numerals inductionHypothesis =>
    rw [List.flatMap_cons, List.append_assoc, readTokens_numeral, inductionHypothesis,
      Option.map_map]
    rfl

theorem bytes_integer (value : Int) :
    (Operand.integer value).bytes = Operand.numeralBytes (.ofInt value) := by
  have regular : ∀ c ∈ (toString value).toList, IsRegularChar c := by
    rw [← Decimal.chars_ofInt]
    exact fun c => isRegularChar_of_mem_chars
  rw [Operand.bytes, Operand.numeralBytes, Decimal.chars_ofInt, utf8_of_regular regular]

theorem readToken_name (text : String) (rest : Bytes) :
    readToken 0x2F ((utf8 text).flatMap nameByte ++ 0x20 :: rest) =
      some (.name (utf8 text), 0x20 :: rest) := by
  rw [readToken, if_pos rfl, readName_escaped _ rfl]
  rfl

theorem readToken_literal {string : Bytes} (plain : isPlain string = true) (rest : Bytes) :
    readToken 0x28 (string.flatMap literalByte ++ 0x29 :: rest) = some (.string string, rest) := by
  rw [readToken, if_neg (by decide), if_pos rfl, readLiteral_escaped plain]
  rfl

theorem readToken_hex (string rest : Bytes) :
    readToken 0x3C (string.flatMap hexPair ++ 0x3E :: rest) = some (.string string, rest) := by
  rw [readToken, if_neg (by decide), if_neg (by decide), if_pos rfl, readHex_pairs]
  rfl

theorem readTokens_name (text : String) (rest : Bytes) :
    readTokens (escapeName text ++ 0x20 :: rest) =
      (readTokens rest).map (.name (utf8 text) :: ·) := by
  rw [escapeName, List.cons_append, readTokens_token rfl (by decide) (readToken_name text rest),
    readTokens_space rfl]

theorem readTokens_string (string rest : Bytes) :
    readTokens (stringLiteral string ++ 0x20 :: rest) =
      (readTokens rest).map (.string string :: ·) := by
  unfold stringLiteral
  -- Strings with bytes that a text cannot show are written in hexadecimal.
  by_cases plain : isPlain string = true
  · rw [if_pos plain, List.append_assoc, List.singleton_append, List.cons_append,
      readTokens_token rfl (by decide) (readToken_literal plain _), readTokens_space rfl]
  · rw [if_neg plain, List.append_assoc, List.singleton_append, List.cons_append,
      readTokens_token rfl (by decide) (readToken_hex string _), readTokens_space rfl]

/-- An operand is read back whatever follows it. -/
theorem readTokens_operand (operand : Operand) (rest : Bytes) :
    readTokens (operand.bytes ++ rest) = (readTokens rest).map (tokensOf operand ++ ·) := by
  cases operand with
  | number numeral => exact readTokens_numeral numeral rest
  | integer value =>
    rw [bytes_integer]
    exact readTokens_numeral (.ofInt value) rest
  | name text =>
    rw [Operand.bytes, List.append_assoc]
    exact readTokens_name text rest
  | string bytes =>
    rw [Operand.bytes, List.append_assoc]
    exact readTokens_string bytes rest
  | numbers numerals =>
    have opening : ∀ content, readTokens (0x5B :: content) =
        (readTokens content).map (.arrayStart :: ·) :=
      fun content => readTokens_token rfl (by decide) rfl
    have closing : readTokens (0x5D :: 0x20 :: rest) = (readTokens rest).map (.arrayEnd :: ·) := by
      rw [readTokens_token rfl (by decide) rfl, readTokens_space rfl]
    rw [Operand.bytes, List.append_assoc, List.cons_append, opening, readTokens_numerals]
    rw [List.cons_append, List.cons_append, List.nil_append, closing]
    cases readTokens rest <;> simp [tokensOf]

end Reader

end PdfCanvas
