import PdfCanvas.Decimal
import PdfCanvas.Filter.AsciiHex

/-!
# Reading tokens

The lexical rules by which a reader of pages takes content apart: white space and comments, names with
escapes, strings in parentheses and in hexadecimal, brackets of arrays, decimal numbers and keywords.
The rules are those of the format. They know nothing of how this library spells what it writes.
-/

namespace PdfCanvas.Reader

/-- Null, tab, line feed, form feed, carriage return and space. -/
def isWhiteSpace (byte : UInt8) : Bool := [0x00, 0x09, 0x0A, 0x0C, 0x0D, 0x20].contains byte

/-- Parentheses, angle brackets, square brackets, braces, the solidus and the percent sign. -/
def isDelimiter (byte : UInt8) : Bool :=
  [0x28, 0x29, 0x3C, 0x3E, 0x5B, 0x5D, 0x7B, 0x7D, 0x2F, 0x25].contains byte

/-- Bytes that names, numbers and keywords consist of. -/
def isRegular (byte : UInt8) : Bool := !isWhiteSpace byte && !isDelimiter byte

inductive Token where
  | number (numeral : Decimal)
  | name (bytes : Bytes)
  | string (bytes : Bytes)
  | arrayStart
  | arrayEnd
  | keyword (text : String)
  deriving DecidableEq, Repr

def prepend (front : Bytes) : Bytes × Bytes → Bytes × Bytes
  | (bytes, rest) => (front ++ bytes, rest)

/-- Skips white space and comments. A comment ends with its line. -/
def skipSpace (inComment : Bool) : Bytes → Bytes
  | [] => []
  | byte :: rest =>
    if inComment then skipSpace (byte != 0x0A && byte != 0x0D) rest
    else if isWhiteSpace byte then skipSpace false rest
    else if byte = 0x25 then skipSpace true rest
    else byte :: rest

def hexByte? (high low : UInt8) : Option UInt8 := (AsciiHex.pairValue high low).toOption

/-- Reads a name after its solidus. -/
def readName : Bytes → Option (Bytes × Bytes)
  | [] => some ([], [])
  | byte :: rest =>
    if byte = 0x23 then
      match rest with
      | high :: low :: rest =>
        match hexByte? high low with
        | some value => (readName rest).map (prepend [value])
        | none => none
      | _ => none
    else if isRegular byte then (readName rest).map (prepend [byte])
    else some ([], byte :: rest)

theorem readName_end {byte : UInt8} (ended : isRegular byte = false) (rest : Bytes) :
    readName (byte :: rest) = some ([], byte :: rest) := by
  have notEscape : byte ≠ 0x23 := by
    rintro rfl
    exact absurd ended (by decide)
  rw [readName.eq_def]
  simp [notEscape, ended]

theorem readName_regular {byte : UInt8} (regular : isRegular byte = true) (notEscape : byte ≠ 0x23)
    (rest : Bytes) : readName (byte :: rest) = (readName rest).map (prepend [byte]) := by
  rw [readName.eq_def]
  simp [notEscape, regular]

theorem readName_escape {high low value : UInt8} (spelled : hexByte? high low = some value)
    (rest : Bytes) :
    readName (0x23 :: high :: low :: rest) = (readName rest).map (prepend [value]) := by
  rw [readName.eq_def]
  simp [spelled]

def isOctalDigit (byte : UInt8) : Bool := 0x30 ≤ byte && byte ≤ 0x37

/-- The byte of an octal number. Digits that do not fit are lost. -/
def octalByte (digits : Bytes) : UInt8 :=
  digits.foldl (fun value digit => 8 * value + (digit - 0x30)) 0

/-- The bytes that an escape stands for, and how many bytes it takes after its reverse solidus. -/
def escape : Bytes → Bytes × Nat
  | [] => ([], 0)
  | byte :: rest =>
    let octal := ((byte :: rest).take 3).takeWhile isOctalDigit
    if octal ≠ [] then ([octalByte octal], octal.length)
    else if byte = 0x0A then ([], 1)
    else if byte = 0x0D then ([], if rest.head? = some 0x0A then 2 else 1)
    else if byte = 0x6E then ([0x0A], 1)
    else if byte = 0x72 then ([0x0D], 1)
    else if byte = 0x74 then ([0x09], 1)
    else if byte = 0x62 then ([0x08], 1)
    else if byte = 0x66 then ([0x0C], 1)
    else ([byte], 1)

/-- Reads a string after its left parenthesis. Inside it `depth` parentheses are open, and `skip` bytes
belong to what was read before. -/
def readLiteral : (depth skip : Nat) → Bytes → Option (Bytes × Bytes)
  | _, _, [] => none
  | depth, skip + 1, _ :: rest => readLiteral depth skip rest
  | depth, 0, byte :: rest =>
    if byte = 0x5C then
      (readLiteral depth (escape rest).2 rest).map (prepend (escape rest).1)
    else if byte = 0x28 then (readLiteral (depth + 1) 0 rest).map (prepend [byte])
    else if byte = 0x29 then
      match depth with
      | 0 => some ([], rest)
      | depth + 1 => (readLiteral depth 0 rest).map (prepend [byte])
    else if byte = 0x0D then
      (readLiteral depth (if rest.head? = some 0x0A then 1 else 0) rest).map (prepend [0x0A])
    else (readLiteral depth 0 rest).map (prepend [byte])

/-- Reads a string after its left angle bracket. A last digit without a partner counts as followed by
zero; `high` is the digit that waits for its partner. -/
def readHex (high : Option UInt8) : Bytes → Option (Bytes × Bytes)
  | [] => none
  | byte :: rest =>
    if isWhiteSpace byte then readHex high rest
    else
      match high with
      | none =>
        if byte = 0x3E then some ([], rest)
        else if (hexByte? 0x30 byte).isSome then readHex (some byte) rest
        else none
      | some high =>
        if byte = 0x3E then (hexByte? high 0x30).map fun value => ([value], rest)
        else
          match hexByte? high byte with
          | some value => (readHex none rest).map (prepend [value])
          | none => none

/-- The units and places of an unsigned number; one digit at least is needed, the point is not. -/
def unsigned? (chars : List Char) : Option (Nat × Nat) :=
  let whole := chars.takeWhile Char.isDigit
  match chars.dropWhile Char.isDigit with
  | [] => if whole = [] then none else some (Nat.ofDigitChars 10 whole 0, 0)
  | point :: fraction =>
    if point = '.' ∧ fraction.all Char.isDigit ∧ whole ++ fraction ≠ [] then
      some (Nat.ofDigitChars 10 (whole ++ fraction) 0, fraction.length)
    else none

/-- The number that characters spell: a sign may stand in front. -/
def number? : List Char → Option Decimal
  | [] => none
  | first :: rest =>
    if first = '-' then (unsigned? rest).map fun (units, places) => ⟨true, units, places⟩
    else if first = '+' then (unsigned? rest).map fun (units, places) => ⟨false, units, places⟩
    else (unsigned? (first :: rest)).map fun (units, places) => ⟨false, units, places⟩

def charsOf (bytes : Bytes) : List Char := bytes.map fun byte => Char.ofNat byte.toNat

/-- A run of regular bytes is a number if it spells one, and a keyword otherwise. -/
def Token.ofRun (run : Bytes) : Token :=
  match number? (charsOf run) with
  | some numeral => .number numeral
  | none => .keyword (String.ofList (charsOf run))

/-- Reads the token that starts with a byte, which is neither white space nor a percent sign. -/
def readToken (first : UInt8) (rest : Bytes) : Option (Token × Bytes) :=
  if first = 0x2F then (readName rest).map fun (bytes, rest) => (.name bytes, rest)
  else if first = 0x28 then (readLiteral 0 0 rest).map fun (bytes, rest) => (.string bytes, rest)
  else if first = 0x3C then (readHex none rest).map fun (bytes, rest) => (.string bytes, rest)
  else if first = 0x5B then some (.arrayStart, rest)
  else if first = 0x5D then some (.arrayEnd, rest)
  else if isRegular first then
    some (.ofRun (first :: rest.takeWhile isRegular), rest.dropWhile isRegular)
  else none

/-! ## Progress -/

theorem skipSpace_suffix (inComment : Bool) (bytes : Bytes) :
    skipSpace inComment bytes <:+ bytes := by
  induction bytes generalizing inComment with
  | nil => exact List.suffix_rfl
  | cons byte rest inductionHypothesis =>
    unfold skipSpace
    split
    · exact (inductionHypothesis _).trans (List.suffix_cons byte rest)
    · split
      · exact (inductionHypothesis _).trans (List.suffix_cons byte rest)
      · split
        · exact (inductionHypothesis _).trans (List.suffix_cons byte rest)
        · exact List.suffix_rfl

/-- Bytes put in front of those that were read do not change what is left. -/
theorem suffix_of_prepend {reading : Option (Bytes × Bytes)} {front bytes rest whole : Bytes}
    (further : ∀ {bytes}, reading = some (bytes, rest) → rest <:+ whole)
    (done : reading.map (prepend front) = some (bytes, rest)) : rest <:+ whole := by
  cases reading with
  | none => cases done
  | some result =>
    cases done
    exact further rfl

theorem readName_suffix {bytes name rest : Bytes} (done : readName bytes = some (name, rest)) :
    rest <:+ bytes := by
  fun_induction readName bytes generalizing name with
  | case1 => cases done; exact List.suffix_rfl
  | case2 high low tail value spelled inductionHypothesis =>
    have left := suffix_of_prepend inductionHypothesis done
    exact left.trans ⟨[0x23, high, low], rfl⟩
  | case3 => cases done
  | case4 => cases done
  | case5 byte tail notEscape regular inductionHypothesis =>
    exact (suffix_of_prepend inductionHypothesis done).trans (List.suffix_cons byte tail)
  | case6 => cases done; exact List.suffix_rfl

theorem readLiteral_suffix {depth skip : Nat} {bytes string rest : Bytes}
    (done : readLiteral depth skip bytes = some (string, rest)) : rest <:+ bytes := by
  -- The cases are those of the recursion: the string ends in the fifth, and cannot end in the first.
  fun_induction readLiteral depth skip bytes generalizing string with
  | case1 => cases done
  | case2 depth skip byte tail inductionHypothesis =>
    exact (inductionHypothesis done).trans (List.suffix_cons byte tail)
  | case5 => cases done; exact List.suffix_cons _ _
  | case3 depth tail inductionHypothesis | case4 depth tail _ inductionHypothesis
  | case6 tail depth _ _ inductionHypothesis | case7 depth tail _ _ _ inductionHypothesis
  | case8 depth byte tail _ _ _ _ inductionHypothesis =>
    exact (suffix_of_prepend inductionHypothesis done).trans (List.suffix_cons _ tail)

theorem readHex_suffix {high : Option UInt8} {bytes string rest : Bytes}
    (done : readHex high bytes = some (string, rest)) : rest <:+ bytes := by
  fun_induction readHex high bytes generalizing string with
  | case1 => cases done
  | case2 high byte tail blank inductionHypothesis =>
    exact (inductionHypothesis done).trans (List.suffix_cons byte tail)
  | case3 => cases done; exact List.suffix_cons _ _
  | case4 byte tail _ _ _ inductionHypothesis =>
    exact (inductionHypothesis done).trans (List.suffix_cons byte tail)
  | case5 => cases done
  | case6 tail high =>
    cases spelled : hexByte? high 0x30 with
    | none => simp [spelled] at done
    | some value =>
      simp only [spelled, Option.map_some, Option.some.injEq, Prod.mk.injEq] at done
      obtain ⟨-, rfl⟩ := done
      exact List.suffix_cons _ tail
  | case7 byte tail _ high _ value spelled inductionHypothesis =>
    exact (suffix_of_prepend inductionHypothesis done).trans (List.suffix_cons byte tail)
  | case8 => cases done

/-- The same for tokens that are made of the bytes that were read. -/
theorem suffix_of_map {reading : Option (Bytes × Bytes)} {make : Bytes → Token} {token : Token}
    {rest whole : Bytes} (further : ∀ {bytes}, reading = some (bytes, rest) → rest <:+ whole)
    (done : reading.map (fun (bytes, rest) => (make bytes, rest)) = some (token, rest)) :
    rest <:+ whole := by
  cases reading with
  | none => cases done
  | some result =>
    cases done
    exact further rfl

theorem readToken_suffix {first : UInt8} {bytes rest : Bytes} {token : Token}
    (done : readToken first bytes = some (token, rest)) : rest <:+ bytes := by
  unfold readToken at done
  split at done
  · exact suffix_of_map readName_suffix done
  · split at done
    · exact suffix_of_map readLiteral_suffix done
    · split at done
      · exact suffix_of_map readHex_suffix done
      · split at done
        · cases done; exact List.suffix_rfl
        · split at done
          · cases done; exact List.suffix_rfl
          · split at done
            · cases done; exact List.dropWhile_suffix _
            · cases done

/-! ## Tokens -/

/-- The tokens of content. -/
def readTokens (content : Bytes) : Option (List Token) :=
  match _ : skipSpace false content with
  | [] => some []
  | first :: rest =>
    match _ : readToken first rest with
    | some (token, rest) => (readTokens rest).map (token :: ·)
    | none => none
  termination_by content.length
  decreasing_by
    rename_i skipped read
    -- Reading a token takes its first byte at least.
    have notLonger := (skipSpace_suffix false content).length_le
    have shorter := (readToken_suffix read).length_le
    rw [skipped, List.length_cons] at notLonger
    omega

theorem readTokens_nil : readTokens [] = some [] := by
  rw [readTokens]
  rfl

theorem readTokens_space {byte : UInt8} (space : isWhiteSpace byte = true) (content : Bytes) :
    readTokens (byte :: content) = readTokens content := by
  have skipped : skipSpace false (byte :: content) = skipSpace false content := by
    rw [skipSpace, if_neg Bool.false_ne_true, if_pos space]
  rw [readTokens, readTokens, skipped]

theorem readTokens_token {first : UInt8} {content rest : Bytes} {token : Token}
    (visible : isWhiteSpace first = false) (notComment : first ≠ 0x25)
    (read : readToken first content = some (token, rest)) :
    readTokens (first :: content) = (readTokens rest).map (token :: ·) := by
  have skipped : skipSpace false (first :: content) = first :: content := by
    simp [skipSpace, visible, notComment]
  rw [readTokens, skipped]
  -- The definition matches with the equation of the match, so the reading is split and not rewritten.
  dsimp only
  split
  · next token' rest' done =>
    rw [read] at done
    cases done
    rfl
  · next failed =>
    rw [read] at failed
    cases failed

end PdfCanvas.Reader
