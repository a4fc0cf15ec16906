import PdfCanvas.Object
import PdfCanvas.Proofs.Reader.Operations

/-!
# The graphics state of a reader

Nothing is known here of the graphics state of a reader, but that `q` saves it and `Q` goes back to what
was saved last. Every other operator may change it in any way. A page is read stream after stream: a token
does not go on in the next stream, but an operation may.
-/

namespace PdfCanvas.Reader

/-! ## Balanced content -/

def countOf (operator : String) (operations : List Operation) : Nat :=
  operations.countP (·.operator = operator)

@[simp]
theorem countOf_nil (operator : String) : countOf operator [] = 0 := rfl

@[simp]
theorem countOf_cons (operator : String) (operation : Operation) (operations : List Operation) :
    countOf operator (operation :: operations) =
      countOf operator operations + if operation.operator = operator then 1 else 0 := by
  simp [countOf, List.countP_cons]

@[simp]
theorem countOf_append (operator : String) (first second : List Operation) :
    countOf operator (first ++ second) = countOf operator first + countOf operator second :=
  List.countP_append

/-- Every `Q` has a `q` of its own in front of it, and every `q` its `Q` behind it. -/
structure IsBalanced (operations : List Operation) : Prop where
  covered : ∀ front, front <+: operations → countOf "Q" front ≤ countOf "q" front
  even : countOf "q" operations = countOf "Q" operations

/-- Every `Q` has a `q` of its own in front of it, and so many `q` have no `Q` behind them. -/
structure LeavesOpen (count : Nat) (operations : List Operation) : Prop where
  covered : ∀ front, front <+: operations → countOf "Q" front ≤ countOf "q" front
  counted : countOf "q" operations = countOf "Q" operations + count

theorem leavesOpen_zero_iff {operations : List Operation} :
    LeavesOpen 0 operations ↔ IsBalanced operations :=
  ⟨fun none => ⟨none.covered, none.counted⟩, fun balanced => ⟨balanced.covered, balanced.even⟩⟩

theorem IsBalanced.nil : IsBalanced [] := by
  refine ⟨fun front before => ?_, rfl⟩
  rw [List.prefix_nil.mp before]
  exact Nat.le_refl _

namespace LeavesOpen

variable {count further : Nat} {first second operations : List Operation}

theorem append (head : LeavesOpen count first) (tail : LeavesOpen further second) :
    LeavesOpen (count + further) (first ++ second) := by
  have counted := head.counted
  refine ⟨fun front before => ?_, ?_⟩
  · rcases List.prefix_or_prefix_of_prefix before (List.prefix_append first second) with within | beyond
    · exact head.covered front within
    · obtain ⟨beyond, rfl⟩ := beyond
      have covered := tail.covered beyond ((List.prefix_append_right_inj first).mp before)
      simp only [countOf_append]
      omega
  · rw [countOf_append, countOf_append, counted, tail.counted]
    omega

theorem save : LeavesOpen 1 [⟨[], "q"⟩] := by
  refine ⟨fun front before => ?_, rfl⟩
  rcases List.prefix_cons_iff.mp before with rfl | ⟨none, rfl, isNone⟩
  · exact Nat.le_refl _
  · rw [List.prefix_nil.mp isNone]
    exact Nat.zero_le _

theorem saves (count : Nat) : LeavesOpen count (List.replicate count ⟨[], "q"⟩) := by
  induction count with
  | zero => exact leavesOpen_zero_iff.mpr .nil
  | succ count inductionHypothesis =>
    rw [List.replicate_succ']
    exact inductionHypothesis.append save

theorem restore (leaves : LeavesOpen (count + 1) operations) :
    LeavesOpen count (operations ++ [⟨[], "Q"⟩]) := by
  have counted := leaves.counted
  refine ⟨fun front before => ?_, ?_⟩
  · rcases List.prefix_concat_iff.mp before with rfl | within
    · simp only [countOf_append, countOf_cons, countOf_nil, String.reduceEq, if_true, if_false]
      omega
    · exact leaves.covered front within
  · simp only [countOf_append, countOf_cons, countOf_nil, String.reduceEq, if_true, if_false]
    omega

theorem isBalanced_iff (leaves : LeavesOpen count operations) : IsBalanced operations ↔ count = 0 := by
  have counted := leaves.counted
  constructor
  · intro balanced
    have even := balanced.even
    omega
  · rintro rfl
    exact leavesOpen_zero_iff.mp leaves

/-- What is put between `q` and `Q` leaves as much open as before. -/
theorem bracket (leaves : LeavesOpen count operations) :
    LeavesOpen count (⟨[], "q"⟩ :: operations ++ [⟨[], "Q"⟩]) := by
  have saved := save.append leaves
  rw [Nat.add_comm] at saved
  exact saved.restore

end LeavesOpen

namespace IsBalanced

theorem single {operation : Operation} (noSave : operation.operator ≠ "q")
    (noRestore : operation.operator ≠ "Q") : IsBalanced [operation] := by
  refine ⟨fun front before => ?_, by simp [noSave, noRestore]⟩
  rcases List.prefix_cons_iff.mp before with rfl | ⟨further, rfl, none⟩
  · exact Nat.le_refl _
  · rw [List.prefix_nil.mp none]
    simp [noSave, noRestore]

theorem append {first second : List Operation} (head : IsBalanced first) (tail : IsBalanced second) :
    IsBalanced (first ++ second) := by
  rw [← leavesOpen_zero_iff] at head tail ⊢
  exact head.append tail

/-- Balanced content between `q` and `Q` is balanced. -/
theorem bracket {operations : List Operation} (balanced : IsBalanced operations) :
    IsBalanced (⟨[], "q"⟩ :: operations ++ [⟨[], "Q"⟩]) := by
  rw [← leavesOpen_zero_iff] at balanced ⊢
  exact balanced.bracket

end IsBalanced

/-! ## Saving and restoring -/

structure StateReader (σ : Type) where
  current : σ
  saved : List σ

namespace StateReader

variable {σ : Type}

def start (initial : σ) : StateReader σ := ⟨initial, []⟩

def save (reader : StateReader σ) : StateReader σ :=
  { reader with saved := reader.current :: reader.saved }

/-- Without anything saved nothing changes. -/
def restore (reader : StateReader σ) : StateReader σ :=
  match reader.saved with
  | [] => reader
  | last :: rest => ⟨last, rest⟩

def read (effect : Operation → σ → σ) (reader : StateReader σ) (operation : Operation) :
    StateReader σ :=
  match operation.operator with
  | "q" => reader.save
  | "Q" => reader.restore
  | _ => { reader with current := effect operation reader.current }

def readAll (effect : Operation → σ → σ) (reader : StateReader σ) (operations : List Operation) :
    StateReader σ :=
  operations.foldl (read effect) reader

variable (effect : Operation → σ → σ)

theorem readAll_append (reader : StateReader σ) (first second : List Operation) :
    reader.readAll effect (first ++ second) = (reader.readAll effect first).readAll effect second :=
  List.foldl_append

/-- A step restores what was saved here, as long as there is any of it. -/
theorem saved_read (reader : StateReader σ) (inner : List σ) {outer : List σ} (operation : Operation)
    (saved : reader.saved = inner ++ outer)
    (covered : countOf "Q" [operation] ≤ countOf "q" [operation] + inner.length) :
    ∃ left, (reader.read effect operation).saved = left ++ outer ∧
      left.length + countOf "Q" [operation] = inner.length + countOf "q" [operation] := by
  obtain ⟨operands, operator⟩ := operation
  by_cases saves : operator = "q"
  · subst saves
    exact ⟨reader.current :: inner, congrArg (reader.current :: ·) saved, rfl⟩
  by_cases restores : operator = "Q"
  · subst restores
    cases inner with
    | nil => simp at covered
    | cons last inner =>
      refine ⟨inner, ?_, rfl⟩
      change reader.restore.saved = inner ++ outer
      rw [restore, saved]
      rfl
  · have kept : (reader.read effect ⟨operands, operator⟩).saved = reader.saved := by
      unfold read
      split <;> first | contradiction | rfl
    refine ⟨inner, kept.trans saved, ?_⟩
    simp [saves, restores]

/-- As long as no more is restored than was saved here, what was saved before is not touched. -/
theorem saved_readAll (reader : StateReader σ) (inner : List σ) {outer : List σ}
    {operations : List Operation} (saved : reader.saved = inner ++ outer)
    (covered : ∀ front, front <+: operations → countOf "Q" front ≤ countOf "q" front + inner.length) :
    ∃ left, (reader.readAll effect operations).saved = left ++ outer ∧
      left.length + countOf "Q" operations = inner.length + countOf "q" operations := by
  induction operations generalizing reader inner with
  | nil => exact ⟨inner, saved, rfl⟩
  | cons operation operations inductionHypothesis =>
    obtain ⟨first, savedFirst, countFirst⟩ :=
      saved_read effect reader inner operation saved (covered [operation] ⟨operations, rfl⟩)
    simp only [countOf_cons, countOf_nil, Nat.zero_add] at countFirst
    obtain ⟨left, kept, count⟩ := inductionHypothesis _ first savedFirst fun front before => by
      have further := covered (operation :: front) ((List.prefix_cons_inj operation).mpr before)
      simp only [countOf_cons] at further
      omega
    refine ⟨left, kept, ?_⟩
    simp only [countOf_cons]
    omega

theorem saved_of_balanced (reader : StateReader σ) {operations : List Operation}
    (balanced : IsBalanced operations) : (reader.readAll effect operations).saved = reader.saved := by
  obtain ⟨left, kept, count⟩ := saved_readAll effect reader [] rfl balanced.covered
  have none : left = [] := by
    rw [← List.length_eq_zero_iff]
    have even := balanced.even
    rw [List.length_nil] at count
    omega
  rw [kept, none, List.nil_append]

/-- Balanced content between `q` and `Q` leaves the reader as it was, whatever it does to the state. -/
theorem readAll_bracket (reader : StateReader σ) {operations : List Operation}
    (balanced : IsBalanced operations) :
    reader.readAll effect (⟨[], "q"⟩ :: operations ++ [⟨[], "Q"⟩]) = reader := by
  rw [readAll_append]
  change (reader.save.readAll effect operations).restore = reader
  rw [restore, saved_of_balanced effect reader.save balanced]
  rfl

/-- However often the initial state is saved, it stays current. -/
theorem current_saves (reader : StateReader σ) (count : Nat) :
    (reader.readAll effect (List.replicate count ⟨[], "q"⟩)).current = reader.current := by
  induction count generalizing reader with
  | zero => rfl
  | succ count inductionHypothesis =>
    rw [List.replicate_succ]
    exact inductionHypothesis reader.save

end StateReader

/-! ## Pages -/

/-- The tokens of streams, for a reader that gets at their content by `unfilter`. -/
def readStreamTokens (unfilter : Stream → Option Bytes) (streams : List Stream) : Option (List Token) :=
  (streams.mapM fun stream => (unfilter stream).bind readTokens).map List.flatten

/-- The operations of streams that are read one after the other. -/
def readStreams (unfilter : Stream → Option Bytes) (streams : List Stream) : Option (List Operation) :=
  (readStreamTokens unfilter streams).bind (groupTokens [])

theorem groupTokens_append {waiting tokens : List Token} {operations : List Operation}
    (grouped : groupTokens waiting tokens = some operations) (rest : List Token) :
    groupTokens waiting (tokens ++ rest) = (groupTokens [] rest).map (operations ++ ·) := by
  fun_induction groupTokens waiting tokens generalizing operations with
  | case1 =>
    cases grouped
    simp
  | case2 => cases grouped
  | case3 waiting text tokens inductionHypothesis =>
    obtain ⟨others, groupedOthers, rfl⟩ := Option.map_eq_some_iff.mp grouped
    rw [List.cons_append, groupTokens, inductionHypothesis groupedOthers, Option.map_map]
    rfl
  | case4 waiting token tokens isOperand inductionHypothesis =>
    rw [List.cons_append, groupTokens]
    · exact inductionHypothesis grouped
    · exact isOperand

variable {unfilter : Stream → Option Bytes}

theorem readStreams_append {first : List Stream} {operations : List Operation}
    (read : readStreams unfilter first = some operations) (second : List Stream) :
    readStreams unfilter (first ++ second) = (readStreams unfilter second).map (operations ++ ·) := by
  obtain ⟨tokens, readFirst, grouped⟩ := Option.bind_eq_some_iff.mp read
  obtain ⟨pieces, readPieces, rfl⟩ := Option.map_eq_some_iff.mp readFirst
  rw [readStreams, readStreams, readStreamTokens, readStreamTokens, List.mapM_append, readPieces]
  cases second.mapM fun stream => (unfilter stream).bind readTokens with
  | none => rfl
  | some others =>
    simp only [Option.bind_eq_bind, Option.bind_some, Option.pure_def, Option.map_some,
      List.flatten_append]
    exact groupTokens_append grouped others.flatten

theorem readStreams_singleton {stream : Stream} {content : Bytes}
    (opened : unfilter stream = some content) : readStreams unfilter [stream] = readOperations content := by
  rw [readStreams, readStreamTokens, List.mapM_cons, List.mapM_nil, opened]
  cases read : readTokens content <;> simp [readOperations, read]

end PdfCanvas.Reader
