import PdfCanvas.Proofs.Bits
import PdfCanvas.Proofs.Filter.Deflate

/-!
# Inflating the front of data

Whatever reads bits from the front gives the same if more bits follow, unless it comes to their end. What was
inflated by then is a front of all that can be inflated, since inflating only ever adds bytes. Nothing is
known of how the bits came about.
-/

namespace PdfCanvas

namespace Inflate

/-! ## Bits that are followed by more -/

/-- What is made of bits, and of the same bits with more of them behind. -/
inductive ReadsOn {α : Type} (more : Bits) :
    Except Stop (α × Bits) → Except Stop (α × Bits) → Prop
  | read (a : α) (rest : Bits) : ReadsOn more (.ok (a, rest)) (.ok (a, rest ++ more))
  | invalid : ReadsOn more (.error .invalid) (.error .invalid)
  | truncated (whole : Except Stop (α × Bits)) : ReadsOn more (.error .truncated) whole

section

variable {α β : Type} (more : Bits)

variable {more} in
theorem ReadsOn.bind {x y : Except Stop (α × Bits)} {f g : α × Bits → Except Stop (β × Bits)}
    (first : ReadsOn more x y)
    (next : ∀ a rest, ReadsOn more (f (a, rest)) (g (a, rest ++ more))) :
    ReadsOn more (x >>= f) (y >>= g) := by
  cases first with
  | read a rest => exact next a rest
  | invalid => exact .invalid
  | truncated whole => exact .truncated _

theorem split?_append {count : Nat} {bits front rest : Bits}
    (cut : bits.split? count = some (front, rest)) :
    (bits ++ more).split? count = some (front, rest ++ more) := by
  induction count generalizing bits front with
  | zero =>
    cases cut
    rfl
  | succ count inductionHypothesis =>
    cases bits with
    | nil => cases cut
    | cons bit bits =>
      rw [Bits.split?, Option.map_eq_some_iff] at cut
      obtain ⟨⟨others, _⟩, cutRest, made⟩ := cut
      cases made
      rw [List.cons_append, Bits.split?, inductionHypothesis cutRest]
      rfl

theorem readNat_readsOn (count : Nat) (bits : Bits) :
    ReadsOn more (readNat count bits) (readNat count (bits ++ more)) := by
  cases cut : bits.split? count with
  | none =>
    rw [readNat, cut]
    exact .truncated _
  | some pair =>
    obtain ⟨front, rest⟩ := pair
    rw [readNat, readNat, cut, split?_append more cut]
    exact .read _ _

theorem decode_readsOn (tree : CodeTree) (bits : Bits) :
    ReadsOn more (tree.decode bits) (tree.decode (bits ++ more)) := by
  induction tree generalizing bits with
  | gap => exact .invalid
  | leaf symbol => exact .read symbol bits
  | node zero one readsZero readsOne =>
    cases bits with
    | nil => exact .truncated _
    | cons bit bits =>
      cases bit with
      | false => exact readsZero bits
      | true => exact readsOne bits

theorem readFromTable_readsOn (table : List (Nat × Nat)) (symbol : Nat) (bits : Bits) :
    ReadsOn more (readFromTable table symbol bits) (readFromTable table symbol (bits ++ more)) := by
  unfold readFromTable
  cases table[symbol]? with
  | none => exact .invalid
  | some entry =>
    refine (readNat_readsOn more entry.2 bits).bind ?_
    intro added rest
    exact .read _ _

theorem readItem_readsOn (codes : Codes) (bits : Bits) :
    ReadsOn more (readItem codes bits) (readItem codes (bits ++ more)) := by
  refine (decode_readsOn more codes.literals bits).bind ?_
  intro symbol rest
  show ReadsOn more (if symbol < 256 then _ else _) (if symbol < 256 then _ else _)
  split
  · exact .read _ _
  · split
    · exact .read _ _
    · refine (readFromTable_readsOn more lengthTable _ rest).bind ?_
      intro length rest
      refine (decode_readsOn more codes.distances rest).bind ?_
      intro symbol rest
      refine (readFromTable_readsOn more distanceTable symbol rest).bind ?_
      intro distance rest
      exact .read _ _

theorem readTriples_readsOn (count : Nat) (bits : Bits) :
    ReadsOn more (readTriples count bits) (readTriples count (bits ++ more)) := by
  induction count generalizing bits with
  | zero => exact .read [] bits
  | succ count inductionHypothesis =>
    refine (readNat_readsOn more 3 bits).bind ?_
    intro value rest
    refine (inductionHypothesis rest).bind ?_
    intro values rest
    exact .read _ _

theorem readLengths_readsOn (tree : CodeTree) (count fuel : Nat) (lengths : List Nat) (bits : Bits) :
    ReadsOn more (readLengths tree count fuel lengths bits)
      (readLengths tree count fuel lengths (bits ++ more)) := by
  induction fuel generalizing lengths bits with
  | zero => exact .truncated _
  | succ fuel inductionHypothesis =>
    rw [readLengths, readLengths]
    split
    · exact .read _ _
    · split
      · exact .invalid
      · refine (decode_readsOn more tree bits).bind ?_
        intro symbol rest
        show ReadsOn more (if symbol < 16 then _ else _) (if symbol < 16 then _ else _)
        split
        · exact inductionHypothesis _ rest
        · split
          · cases lengths with
            | nil => exact .invalid
            | cons last lengths =>
              refine (readNat_readsOn more 2 rest).bind ?_
              intro added rest
              exact inductionHypothesis _ rest
          · refine (readNat_readsOn more _ rest).bind ?_
            intro added rest
            exact inductionHypothesis _ rest

theorem readCodes_readsOn (bits : Bits) :
    ReadsOn more (readCodes bits) (readCodes (bits ++ more)) := by
  refine (readNat_readsOn more 5 bits).bind ?_
  intro literals rest
  refine (readNat_readsOn more 5 rest).bind ?_
  intro distances rest
  refine (readNat_readsOn more 4 rest).bind ?_
  intro triples rest
  dsimp only
  split
  · exact .invalid
  · refine (readTriples_readsOn more (triples + 4) rest).bind ?_
    intro values rest
    dsimp only
    split
    · exact .invalid
    · refine (readLengths_readsOn more _ _ _ _ rest).bind ?_
      intro lengths rest
      dsimp only
      split
      · exact .read _ _
      · exact .invalid

end

/-! ## What is inflated is kept -/

theorem prefix_push (output : Array UInt8) (byte : UInt8) :
    output.toList <+: (output.push byte).toList := by
  rw [Array.toList_push]
  exact List.prefix_append _ _

theorem prefix_copy (output : Array UInt8) (distance length : Nat) :
    output.toList <+: (copy output distance length).toList := by
  induction length generalizing output with
  | zero => exact List.prefix_rfl
  | succ length inductionHypothesis =>
    exact (prefix_push output _).trans (inductionHypothesis _)

theorem prefix_inflateItems (codes : Codes) (fuel : Nat) (bits : Bits) (output : Array UInt8) :
    output.toList <+: (inflateItems codes fuel bits output).output.toList := by
  induction fuel generalizing bits output with
  | zero => exact List.prefix_rfl
  | succ fuel inductionHypothesis =>
    rw [inflateItems]
    split
    · exact List.prefix_rfl
    · exact (prefix_push output _).trans (inductionHypothesis _ _)
    · split
      · exact List.prefix_rfl
      · exact (prefix_copy output _ _).trans (inductionHypothesis _ _)
    · exact List.prefix_rfl

theorem prefix_inflateBytes (count : Nat) (bits : Bits) (output : Array UInt8) :
    output.toList <+: (inflateBytes count bits output).output.toList := by
  induction count generalizing bits output with
  | zero => exact List.prefix_rfl
  | succ count inductionHypothesis =>
    rw [inflateBytes]
    split
    · exact List.prefix_rfl
    · exact (prefix_push output _).trans (inductionHypothesis _ _)

/-! ## Blocks -/

/-- The number of bytes in a stored block, which its complement follows. -/
def readStoredLength (bits : Bits) : Except Stop (Nat × Bits) := do
  let (length, bits) ← readNat 16 bits
  let (complement, bits) ← readNat 16 bits
  if length + complement = 0xFFFF then return (length, bits) else throw .invalid

theorem inflateStored_eq (bits : Bits) (output : Array UInt8) :
    inflateStored bits output =
      match readStoredLength (bits.drop (bits.length % 8)) with
      | .error stop => ⟨output, .error stop⟩
      | .ok (length, bits) => inflateBytes length bits output := rfl

/-- What is in a block, behind the bit that tells whether it is the last one. -/
def inflateContent (bits : Bits) (output : Array UInt8) : Result :=
  match readNat 2 bits with
  | .error stop => ⟨output, .error stop⟩
  | .ok (kind, bits) =>
    if kind = 0 then inflateStored bits output
    else if kind = 1 then inflateItems fixedCodes (bits.length + 1) bits output
    else if kind = 2 then
      match readCodes bits with
      | .error stop => ⟨output, .error stop⟩
      | .ok (codes, bits) => inflateItems codes (bits.length + 1) bits output
    else ⟨output, .error .invalid⟩

theorem inflateBlock_eq (bits : Bits) (output : Array UInt8) :
    inflateBlock bits output =
      match readNat 1 bits with
      | .error stop => (true, ⟨output, .error stop⟩)
      | .ok (last, bits) => (last = 1, inflateContent bits output) := rfl

theorem prefix_inflateStored (bits : Bits) (output : Array UInt8) :
    output.toList <+: (inflateStored bits output).output.toList := by
  rw [inflateStored_eq]
  split
  · exact List.prefix_rfl
  · exact prefix_inflateBytes _ _ _

theorem prefix_inflateContent (bits : Bits) (output : Array UInt8) :
    output.toList <+: (inflateContent bits output).output.toList := by
  rw [inflateContent]
  split
  · exact List.prefix_rfl
  · split
    · exact prefix_inflateStored _ _
    · split
      · exact prefix_inflateItems _ _ _ _
      · split
        · split
          · exact List.prefix_rfl
          · exact prefix_inflateItems _ _ _ _
        · exact List.prefix_rfl

theorem prefix_inflateBlocks (fuel : Nat) (bits : Bits) (output : Array UInt8) :
    output.toList <+: (inflateBlocks fuel bits output).output.toList := by
  induction fuel generalizing bits output with
  | zero => exact List.prefix_rfl
  | succ fuel inductionHypothesis =>
    have block : output.toList <+: (inflateBlock bits output).2.output.toList := by
      rw [inflateBlock_eq]
      split
      · exact List.prefix_rfl
      · exact prefix_inflateContent _ _
    rw [inflateBlocks]
    generalize inflateBlock bits output = inflated at block
    obtain ⟨last, output, rest⟩ := inflated
    cases last with
    | true => exact block
    | false =>
      cases rest with
      | error stop => exact block
      | ok bits => exact block.trans (inductionHypothesis bits output)

/-! ## Inflating the front of data -/

/-- What is inflated from bits, and from the same bits with more of them behind. -/
inductive Result.GoesOn (more : Bits) : Result → Result → Prop
  | ended (output : Array UInt8) (rest : Bits) :
    GoesOn more ⟨output, .ok rest⟩ ⟨output, .ok (rest ++ more)⟩
  | invalid (output : Array UInt8) :
    GoesOn more ⟨output, .error .invalid⟩ ⟨output, .error .invalid⟩
  | truncated {output : Array UInt8} {whole : Result}
    (front : output.toList <+: whole.output.toList) :
    GoesOn more ⟨output, .error .truncated⟩ whole

section

variable (more : Bits)

theorem inflateItems_goesOn (codes : Codes) {fuel enough : Nat} (less : fuel ≤ enough) (bits : Bits)
    (output : Array UInt8) :
    Result.GoesOn more (inflateItems codes fuel bits output)
      (inflateItems codes enough (bits ++ more) output) := by
  -- Fuel is counted by the bits, so there is more of it where more bits follow.
  induction fuel generalizing enough bits output with
  | zero => exact .truncated (prefix_inflateItems _ _ _ _)
  | succ fuel inductionHypothesis =>
    obtain ⟨enough, rfl⟩ : ∃ fewer, enough = fewer + 1 := ⟨enough - 1, by omega⟩
    have less : fuel ≤ enough := by omega
    have kept := prefix_inflateItems codes (enough + 1) (bits ++ more) output
    have reads := readItem_readsOn more codes bits
    rw [inflateItems] at kept ⊢
    rw [inflateItems]
    generalize readItem codes bits = cut at reads
    generalize readItem codes (bits ++ more) = whole at reads kept
    cases reads with
    | invalid => exact .invalid output
    | truncated => exact .truncated kept
    | read item rest =>
      cases item with
      | literal byte => exact inductionHypothesis less rest _
      | endOfBlock => exact .ended output rest
      | copy length distance =>
        show Result.GoesOn more (if output.size < distance then _ else _)
          (if output.size < distance then _ else _)
        split
        · exact .invalid output
        · exact inductionHypothesis less rest _

theorem inflateBytes_goesOn (count : Nat) (bits : Bits) (output : Array UInt8) :
    Result.GoesOn more (inflateBytes count bits output) (inflateBytes count (bits ++ more) output) := by
  induction count generalizing bits output with
  | zero => exact .ended output bits
  | succ count inductionHypothesis =>
    have kept := prefix_inflateBytes (count + 1) (bits ++ more) output
    have reads := readNat_readsOn more 8 bits
    rw [inflateBytes] at kept ⊢
    rw [inflateBytes]
    generalize readNat 8 bits = cut at reads
    generalize readNat 8 (bits ++ more) = whole at reads kept
    cases reads with
    | invalid => exact .invalid output
    | truncated => exact .truncated kept
    | read byte rest => exact inductionHypothesis rest _

variable {more}

theorem inflateStored_goesOn (bytes : more.length % 8 = 0) (bits : Bits) (output : Array UInt8) :
    Result.GoesOn more (inflateStored bits output) (inflateStored (bits ++ more) output) := by
  have aligned := Bits.drop_to_byte bytes bits
  have kept := prefix_inflateStored (bits ++ more) output
  rw [inflateStored_eq, aligned] at kept
  rw [inflateStored_eq, inflateStored_eq, aligned]
  have reads : ReadsOn more (readStoredLength (bits.drop (bits.length % 8)))
      (readStoredLength (bits.drop (bits.length % 8) ++ more)) := by
    refine (readNat_readsOn more 16 _).bind ?_
    intro length rest
    refine (readNat_readsOn more 16 rest).bind ?_
    intro complement rest
    dsimp only
    split
    · exact .read _ _
    · exact .invalid
  generalize readStoredLength (bits.drop (bits.length % 8)) = cut at reads
  generalize readStoredLength (bits.drop (bits.length % 8) ++ more) = whole at reads kept
  cases reads with
  | invalid => exact .invalid output
  | truncated => exact .truncated kept
  | read length rest => exact inflateBytes_goesOn more length rest output

theorem inflateContent_goesOn (bytes : more.length % 8 = 0) (bits : Bits) (output : Array UInt8) :
    Result.GoesOn more (inflateContent bits output) (inflateContent (bits ++ more) output) := by
  have kept := prefix_inflateContent (bits ++ more) output
  have reads := readNat_readsOn more 2 bits
  rw [inflateContent] at kept ⊢
  rw [inflateContent]
  generalize readNat 2 bits = cut at reads
  generalize readNat 2 (bits ++ more) = whole at reads kept
  cases reads with
  | invalid => exact .invalid output
  | truncated => exact .truncated kept
  | read kind rest =>
    have longer : rest.length + 1 ≤ (rest ++ more).length + 1 := by
      rw [List.length_append]
      omega
    dsimp only at kept ⊢
    split
    · exact inflateStored_goesOn bytes rest output
    · split
      · exact inflateItems_goesOn more fixedCodes longer rest output
      · split
        next stored fixed dynamic =>
          rw [if_neg stored, if_neg fixed, if_pos dynamic] at kept
          have reads := readCodes_readsOn more rest
          generalize readCodes rest = cut at reads
          generalize readCodes (rest ++ more) = whole at reads kept
          cases reads with
          | invalid => exact .invalid output
          | truncated => exact .truncated kept
          | read codes rest =>
            refine inflateItems_goesOn more codes ?_ rest output
            rw [List.length_append]
            omega
        next => exact .invalid output

theorem inflateBlocks_goesOn (bytes : more.length % 8 = 0) {fuel enough : Nat} (less : fuel ≤ enough)
    (bits : Bits) (output : Array UInt8) :
    Result.GoesOn more (inflateBlocks fuel bits output) (inflateBlocks enough (bits ++ more) output) := by
  induction fuel generalizing enough bits output with
  | zero => exact .truncated (prefix_inflateBlocks _ _ _)
  | succ fuel inductionHypothesis =>
    obtain ⟨enough, rfl⟩ : ∃ fewer, enough = fewer + 1 := ⟨enough - 1, by omega⟩
    have kept := prefix_inflateBlocks (enough + 1) (bits ++ more) output
    have reads := readNat_readsOn more 1 bits
    rw [inflateBlocks, inflateBlock_eq] at kept ⊢
    rw [inflateBlocks, inflateBlock_eq]
    generalize readNat 1 bits = cut at reads
    generalize readNat 1 (bits ++ more) = whole at reads kept
    cases reads with
    | invalid => exact .invalid output
    | truncated => exact .truncated kept
    | read last rest =>
      have content := inflateContent_goesOn bytes rest output
      dsimp only
      generalize inflateContent rest output = cut at content
      generalize inflateContent (rest ++ more) output = whole at content
      by_cases isLast : last = 1
      · simp only [isLast, decide_true]
        exact content
      · simp only [isLast, decide_false]
        cases content with
        | ended output rest => exact inductionHypothesis (by omega) rest output
        | invalid output => exact .invalid output
        | truncated front =>
          -- the block goes on, and others may follow it
          refine .truncated (front.trans ?_)
          obtain ⟨whole, wholeRest⟩ := whole
          cases wholeRest with
          | error stop => exact List.prefix_rfl
          | ok rest => exact prefix_inflateBlocks enough rest whole

theorem inflate_goesOn (bytes : more.length % 8 = 0) (bits : Bits) :
    Result.GoesOn more (inflate bits) (inflate (bits ++ more)) := by
  refine inflateBlocks_goesOn bytes ?_ bits #[]
  rw [List.length_append]
  omega

end

end Inflate

end PdfCanvas
