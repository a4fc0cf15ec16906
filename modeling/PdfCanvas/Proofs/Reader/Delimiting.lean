import PdfCanvas.Proofs.Reader.Spelling
import PdfCanvas.Sink

/-!
# Where strings and names end

A string or a name that was written is one token, whatever comes behind it, and the reader stops at the space
that was written after it. In a name every number sign starts an escape, and of the delimiters there is none but
the solidus in front. So no two strings and no two names are written alike.
-/

namespace PdfCanvas

namespace Reader

/-- The first token of content, and what is left behind it. -/
def nextToken (content : Bytes) : Option (Token × Bytes) :=
  match skipSpace false content with
  | [] => none
  | first :: rest => readToken first rest

theorem nextToken_cons {first : UInt8} (visible : isWhiteSpace first = false) (notComment : first ≠ 0x25)
    (rest : Bytes) : nextToken (first :: rest) = readToken first rest := by
  simp [nextToken, skipSpace, visible, notComment]

theorem nextToken_name (text : String) (rest : Bytes) :
    nextToken ((Operand.name text).bytes ++ rest) = some (.name (utf8 text), 0x20 :: rest) := by
  rw [Operand.bytes, List.append_assoc, escapeName, List.cons_append, nextToken_cons rfl (by decide)]
  exact readToken_name text rest

theorem nextToken_string (string rest : Bytes) :
    nextToken ((Operand.string string).bytes ++ rest) = some (.string string, 0x20 :: rest) := by
  rw [Operand.bytes, List.append_assoc, List.singleton_append, stringLiteral]
  by_cases plain : isPlain string = true
  · rw [if_pos plain, List.append_assoc, List.cons_append, nextToken_cons rfl (by decide)]
    exact readToken_literal plain _
  · rw [if_neg plain, List.append_assoc, List.cons_append, nextToken_cons rfl (by decide)]
    exact readToken_hex string _

/-! ## The bytes of names -/

theorem visible_of_mem_nameByte {byte shown : UInt8} (member : shown ∈ nameByte byte) :
    0x21 ≤ shown ∧ shown ≤ 0x7E ∧ isDelimiter shown = false := by
  have checked : ∀ byte : UInt8,
      (nameByte byte).all fun shown => 0x21 ≤ shown ∧ shown ≤ 0x7E ∧ isDelimiter shown = false :=
    forall_byte (by decide +kernel)
  exact of_decide_eq_true (List.all_eq_true.mp (checked byte) shown member)

theorem hexDigit_ne_numberSign : ∀ byte : UInt8,
    hexDigit (byte / 16) ≠ 0x23 ∧ hexDigit (byte % 16) ≠ 0x23 :=
  forall_byte (by decide +kernel)

/-- Behind every number sign there are the two digits of a byte. -/
theorem escape_of_numberSign {name front rest : Bytes}
    (shown : name.flatMap nameByte = front ++ 0x23 :: rest) :
    ∃ high low behind, rest = high :: low :: behind ∧ (hexByte? high low).isSome = true := by
  -- By induction on the bytes of the name: the sign is in the spelling of the first of them, or behind it.
  induction name generalizing front with
  | nil => simp at shown
  | cons byte name inductionHypothesis =>
    rw [List.flatMap_cons, nameByte] at shown
    by_cases regular : isRegularByte byte = true
    · rw [if_pos regular, List.singleton_append] at shown
      cases front with
      | nil => exact absurd (List.cons.inj shown).1 (isRegular_of_isRegularByte byte regular).2
      | cons first front => exact inductionHypothesis (List.cons.inj shown).2
    · rw [if_neg regular, hexPair, List.cons_append, List.cons_append, List.singleton_append] at shown
      obtain ⟨notHigh, notLow⟩ := hexDigit_ne_numberSign byte
      -- The spelling of the byte takes three bytes, of which only the first is a number sign.
      rcases front with _ | ⟨_, _ | ⟨_, _ | ⟨_, front⟩⟩⟩
      · exact ⟨_, _, _, (List.cons.inj shown).2.symm, by rw [hexByte?_hexPair byte]; rfl⟩
      · exact absurd (List.cons.inj (List.cons.inj shown).2).1 notHigh
      · exact absurd (List.cons.inj (List.cons.inj (List.cons.inj shown).2).2).1 notLow
      · exact inductionHypothesis (List.cons.inj (List.cons.inj (List.cons.inj shown).2).2).2

/-- What may stand between the solidus of a name and the space after it. -/
structure IsNameBody (body : Bytes) : Prop where
  visible : ∀ byte ∈ body, 0x21 ≤ byte ∧ byte ≤ 0x7E
  undelimited : ∀ byte ∈ body, isDelimiter byte = false
  escapes : ∀ front rest, body = front ++ 0x23 :: rest →
    ∃ high low behind, rest = high :: low :: behind ∧ (hexByte? high low).isSome = true

theorem isNameBody (name : Bytes) : IsNameBody (name.flatMap nameByte) := by
  have shown : ∀ byte ∈ name.flatMap nameByte, 0x21 ≤ byte ∧ byte ≤ 0x7E ∧ isDelimiter byte = false := by
    intro byte member
    obtain ⟨_, _, within⟩ := List.mem_flatMap.mp member
    exact visible_of_mem_nameByte within
  exact ⟨fun byte member => ⟨(shown byte member).1, (shown byte member).2.1⟩,
    fun byte member => (shown byte member).2.2, fun _ _ => escape_of_numberSign⟩

/-- A string in angle brackets is not taken for the start of a dictionary. -/
theorem not_dictionary_prefix_stringLiteral (string : Bytes) : ¬ [0x3C, 0x3C] <+: stringLiteral string := by
  have notBracket : ∀ byte : UInt8, hexDigit (byte / 16) ≠ 0x3C := forall_byte (by decide +kernel)
  rintro ⟨rest, begins⟩
  rw [stringLiteral] at begins
  by_cases plain : isPlain string = true
  · rw [if_pos plain] at begins
    simp at begins
  · rw [if_neg plain] at begins
    cases string with
    | nil => exact plain rfl
    | cons byte string =>
      simp only [List.flatMap_cons, hexPair, List.cons_append, List.cons.injEq] at begins
      exact notBracket byte begins.2.1.symm

end Reader

/-! ## Writers -/

/-- Bytes that a sink has not refused are all there, behind what was written before. -/
theorem Sink.written_of_write {s : Sink} {bytes : Bytes} (taken : (s.write bytes).1 = .ok ()) :
    (s.write bytes).2.written = s.written ++ bytes := by
  have front : s.accepted bytes <+: bytes := by
    rw [accepted]
    split
    · exact List.prefix_rfl
    · exact List.take_prefix _ _
  rw [write] at taken
  split at taken
  next whole => exact congrArg (s.written ++ ·) (front.eq_of_length whole)
  next => cases taken

theorem Sink.write_of_no_capacity {s : Sink} (unlimited : s.capacity = none) (bytes : Bytes) :
    (s.write bytes).1 = .ok () := by
  simp [write, accepted, unlimited]

open Reader

/-- A reader that starts where a string was written reads this string, one where a name was written the UTF-8
bytes of this name, whatever follows, and both stop at the space behind it. A name is written in visible bytes
without delimiters, in which every number sign starts an escape. Different strings are written differently, and
so are different names. -/
theorem strings_and_names_are_self_delimiting :
    (∀ string rest : Bytes,
      nextToken ((Operand.string string).bytes ++ rest) = some (.string string, 0x20 :: rest) ∧
        ¬ [0x3C, 0x3C] <+: stringLiteral string) ∧
    (∀ (name : String) (rest : Bytes),
      nextToken ((Operand.name name).bytes ++ rest) = some (.name (utf8 name), 0x20 :: rest)) ∧
    (∀ name : String, ∃ body, (Operand.name name).bytes = 0x2F :: body ++ [0x20] ∧ IsNameBody body) ∧
    (∀ (places : Nat) (operand : Operand) (sink : Sink),
      (sink.capacity = none → ((Output.operand operand).perform places sink).1 = .ok ()) ∧
        (((Output.operand operand).perform places sink).1 = .ok () →
          ((Output.operand operand).perform places sink).2.written = sink.written ++ operand.bytes)) ∧
    (Function.Injective fun string => (Operand.string string).bytes) ∧
      Function.Injective fun name => (Operand.name name).bytes := by
  refine ⟨fun string rest => ⟨nextToken_string string rest, not_dictionary_prefix_stringLiteral string⟩,
    nextToken_name, fun name => ⟨_, rfl, isNameBody (utf8 name)⟩, fun places operand sink => ?_, ?_, ?_⟩
  · exact ⟨fun unlimited => Sink.write_of_no_capacity unlimited _, Sink.written_of_write⟩
  · -- what is written is read as either of the two
    intro first second same
    have read := nextToken_string first []
    rw [show (Operand.string first).bytes = (Operand.string second).bytes from same,
      nextToken_string second []] at read
    simpa using read.symm
  · intro first second same
    have read := nextToken_name first []
    rw [show (Operand.name first).bytes = (Operand.name second).bytes from same,
      nextToken_name second []] at read
    exact utf8_injective (by simpa using read.symm)

/-- A right parenthesis, a reverse solidus and a left parenthesis, on a sink that has just the room, in front of
another right parenthesis. -/
theorem unbalanced_string_is_self_delimiting :
    ((Output.operand (.string [0x29, 0x5C, 0x28])).perform 6 ⟨some 9, false, []⟩).1 = .ok () ∧
      ((Output.operand (.string [0x29, 0x5C, 0x28])).perform 6 ⟨some 9, false, []⟩).2.written =
        [0x28, 0x5C, 0x29, 0x5C, 0x5C, 0x5C, 0x28, 0x29, 0x20] ∧
      nextToken [0x28, 0x5C, 0x29, 0x5C, 0x5C, 0x5C, 0x28, 0x29, 0x20, 0x29] =
        some (.string [0x29, 0x5C, 0x28], [0x20, 0x29]) := by
  obtain ⟨strings, -, -, written, -⟩ := strings_and_names_are_self_delimiting
  exact ⟨rfl, (written 6 _ ⟨some 9, false, []⟩).2 rfl, (strings [0x29, 0x5C, 0x28] [0x29]).1⟩

end PdfCanvas
