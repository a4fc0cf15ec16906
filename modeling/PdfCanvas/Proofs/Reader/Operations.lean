import PdfCanvas.Proofs.Reader.Spelling

/-!
# Operations read back

A reader takes content for a list of operations: every keyword is an operator, and the tokens in front of
it are its operands. Instructions written one after the other are read as these instructions.
-/

namespace PdfCanvas.Reader

structure Operation where
  operands : List Token
  operator : String
  deriving DecidableEq, Repr

/-- Cuts tokens into operations, where `operands` wait for their operator. Operands without an operator
at the end are no content. -/
def groupTokens (operands : List Token) : List Token → Option (List Operation)
  | [] => if operands = [] then some [] else none
  | .keyword text :: rest => (groupTokens [] rest).map (⟨operands, text⟩ :: ·)
  | operand :: rest => groupTokens (operands ++ [operand]) rest

/-- The operations of content. -/
def readOperations (content : Bytes) : Option (List Operation) :=
  (readTokens content).bind (groupTokens [])

/-- What a reader makes of an instruction. -/
def operationOf (i : Instruction) : Operation :=
  ⟨i.operands.flatMap tokensOf, i.operator.keyword⟩

def Token.IsOperand (token : Token) : Prop := ∀ text, token ≠ .keyword text

theorem isOperand_of_mem_tokensOf {operand : Operand} {token : Token}
    (member : token ∈ tokensOf operand) : token.IsOperand := by
  intro text
  rintro rfl
  cases operand <;> simp [tokensOf] at member

theorem groupTokens_operands {waiting front rest : List Token}
    (operands : ∀ token ∈ front, token.IsOperand) :
    groupTokens waiting (front ++ rest) = groupTokens (waiting ++ front) rest := by
  induction front generalizing waiting with
  | nil => rw [List.nil_append, List.append_nil]
  | cons token front inductionHypothesis =>
    have isOperand := operands token List.mem_cons_self
    rw [List.cons_append, groupTokens]
    · rw [inductionHypothesis fun token member => operands token (List.mem_cons_of_mem _ member),
        List.append_assoc, List.singleton_append]
    · exact isOperand

theorem readTokens_operands (operands : List Operand) (rest : Bytes) :
    readTokens (operands.flatMap Operand.bytes ++ rest) =
      (readTokens rest).map (operands.flatMap tokensOf ++ ·) := by
  induction operands with
  | nil => simp
  | cons first operands inductionHypothesis =>
    rw [List.flatMap_cons, List.append_assoc, readTokens_operand, inductionHypothesis,
      Option.map_map]
    cases readTokens rest <;> simp

theorem readOperations_instruction (i : Instruction) (rest : Bytes) :
    readOperations (i.bytes ++ rest) = (readOperations rest).map (operationOf i :: ·) := by
  have operands : ∀ token ∈ i.operands.flatMap tokensOf, token.IsOperand := by
    intro token member
    obtain ⟨operand, _, among⟩ := List.mem_flatMap.mp member
    exact isOperand_of_mem_tokensOf among
  have spelled : i.bytes ++ rest =
      i.operands.flatMap Operand.bytes ++ (utf8 i.operator.keyword ++ 0x0A :: rest) := by
    simp [Instruction.bytes]
  rw [spelled, readOperations, readTokens_operands, readTokens_keyword, readOperations]
  -- If what follows cannot be read, neither can the whole.
  cases readTokens rest with
  | none => rfl
  | some tokens =>
    simp only [Option.map_some, Option.bind_some]
    rw [groupTokens_operands operands]
    rfl

/-- Content made of instructions is read as these instructions. -/
theorem readOperations_instructions (instructions : List Instruction) :
    readOperations (instructions.flatMap Instruction.bytes) =
      some (instructions.map operationOf) := by
  induction instructions with
  | nil => rw [List.flatMap_nil, readOperations, readTokens_nil]; rfl
  | cons first instructions inductionHypothesis =>
    rw [List.flatMap_cons, readOperations_instruction, inductionHypothesis]
    rfl

end PdfCanvas.Reader
