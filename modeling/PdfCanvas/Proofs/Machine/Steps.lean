import PdfCanvas.Image.Samples
import PdfCanvas.Proofs.Outcomes

/-!
# Steps of a machine

A computation is described elsewhere by what it gives. Here the single steps are taken on a machine, where a
step may have no result: a number has a width that it must fit, an index or a slice must lie in its buffer,
pieces must have a size, a lower bound must not exceed the upper one. A run that takes such a step panics.
A run may also find no memory for a buffer, which is not held against it.

A run goes as a computation says (`RunsAs`) if it gives the same result or the same refusal, or memory runs
out. What the computation marks as a step that cannot be taken is a panic of the run.
-/

namespace PdfCanvas.Machine

/-- Why a run stops before its end: the input is refused, a step has no result, or there is no memory for a
buffer. -/
inductive Halt where
  | refused (e : Error)
  | panic
  | memory
  deriving DecidableEq

abbrev Run (α : Type) := Except Halt α

def refuse {α : Type} (e : Error) : Run α := .error (.refused e)

/-- A buffer of this size in bytes is more than any machine has memory for. -/
def memorySize : Nat := 1 <<< 60

theorem memorySize_lt_bufferSize : memorySize < SampleLayout.bufferSize := by decide

/-! ## Steps -/

def fit (bits n : Nat) : Run Nat := if n < 1 <<< bits then .ok n else .error .panic

def add (bits a b : Nat) : Run Nat := fit bits (a + b)

def mul (bits a b : Nat) : Run Nat := fit bits (a * b)

def sub (a b : Nat) : Run Nat := if b ≤ a then .ok (a - b) else .error .panic

def divide (a b : Nat) : Run Nat := if b = 0 then .error .panic else .ok (a / b)

def modulo (a b : Nat) : Run Nat := if b = 0 then .error .panic else .ok (a % b)

/-- Bits that leave the width on the left are lost. -/
def shiftLeft (bits a count : Nat) : Run Nat :=
  if count < bits then .ok ((a <<< count) % (1 <<< bits)) else .error .panic

def shiftRight (bits a count : Nat) : Run Nat :=
  if count < bits then .ok (a >>> count) else .error .panic

/-- The greatest number of `count` bits. -/
def ones (bits count : Nat) : Run Nat := do sub (← shiftLeft bits 1 count) 1

/-- Moves a number between two bounds, of which the first must not be the greater one. -/
def clamp (low high value : Int) : Run Int :=
  if high < low then .error .panic else .ok (max low (min high value))

/-- Bounds that a number can be moved between; "not a number" is not a bound. -/
def areBounds (low high : Single) : Bool := low.lt high || low.same high

def bounds (low high : Single) : Run Unit := if areBounds low high then .ok () else .error .panic

def fitSigned (n : Int) : Run Int := if -32768 ≤ n ∧ n < 32768 then .ok n else .error .panic

section

variable {α : Type}

def get (buffer : List α) (index : Nat) : Run α :=
  match buffer[index]? with
  | some element => .ok element
  | none => .error .panic

def put (buffer : List α) (index : Nat) (element : α) : Run (List α) :=
  if index < buffer.length then .ok (buffer.set index element) else .error .panic

def slice (buffer : List α) (first stop : Nat) : Run (List α) :=
  if first ≤ stop ∧ stop ≤ buffer.length then .ok ((buffer.take stop).drop first) else .error .panic

/-- Pieces of one size, the last one may be shorter. -/
def chunks (size : Nat) (buffer : List α) : Run (List (List α)) :=
  if size = 0 then .error .panic else .ok (pieces size buffer)

def chunksExact (size : Nat) (buffer : List α) : Run (List (List α)) :=
  if size = 0 then .error .panic else .ok (wholePieces size buffer)

/-- Makes room for so many elements of a size in bytes. The size of a buffer is bounded. -/
def reserve (count size : Nat) : Run Unit :=
  if SampleLayout.bufferSize ≤ count * size then .error .panic
  else if memorySize ≤ count * size then .error .memory
  else .ok ()

/-- Keeps bytes that came one after the other: memory runs out before their buffer is too large to have a
size. -/
def hold (bytes : Bytes) : Run Bytes := if memorySize ≤ bytes.length then .error .memory else .ok bytes

end

section

variable {α β : Type} {bits a b count index size : Nat}

@[simp]
theorem ok_bind (x : α) (f : α → Run β) : ((.ok x : Run α) >>= f) = f x := rfl

theorem fit_ok {n : Nat} (fits : n < 1 <<< bits) : fit bits n = .ok n := if_pos fits

theorem add_ok (fits : a + b < 1 <<< bits) : add bits a b = .ok (a + b) := fit_ok fits

theorem mul_ok (fits : a * b < 1 <<< bits) : mul bits a b = .ok (a * b) := fit_ok fits

theorem sub_ok (fits : b ≤ a) : sub a b = .ok (a - b) := if_pos fits

theorem divide_ok (some : b ≠ 0) : divide a b = .ok (a / b) := if_neg some

theorem modulo_ok (some : b ≠ 0) : modulo a b = .ok (a % b) := if_neg some

theorem shiftLeft_one_ok (fits : count < bits) : shiftLeft bits 1 count = .ok (1 <<< count) := by
  have below : 1 <<< count < 1 <<< bits := by
    rw [Nat.one_shiftLeft, Nat.one_shiftLeft]
    exact Nat.pow_lt_pow_right (by decide) fits
  rw [shiftLeft, if_pos fits, Nat.mod_eq_of_lt below]

theorem ones_ok (fits : count < bits) : ones bits count = .ok (1 <<< count - 1) := by
  have positive : 1 ≤ 1 <<< count := by
    rw [Nat.one_shiftLeft]
    exact Nat.one_le_two_pow
  rw [ones, shiftLeft_one_ok fits, ok_bind, sub_ok positive]

theorem shiftRight_ok (fits : count < bits) : shiftRight bits a count = .ok (a >>> count) :=
  if_pos fits

theorem fitSigned_ok {n : Int} (above : -32768 ≤ n) (below : n < 32768) : fitSigned n = .ok n :=
  if_pos ⟨above, below⟩

theorem clamp_ok {low high : Int} (order : low ≤ high) (value : Int) :
    clamp low high value = .ok (max low (min high value)) :=
  if_neg (Int.not_lt.mpr order)

theorem get_ok {buffer : List α} {element : α} (there : buffer[index]? = some element) :
    get buffer index = .ok element := by
  rw [get, there]

theorem put_ok {buffer : List α} (inside : index < buffer.length) (element : α) :
    put buffer index element = .ok (buffer.set index element) :=
  if_pos inside

theorem slice_ok {buffer : List α} {first stop : Nat} (order : first ≤ stop)
    (inside : stop ≤ buffer.length) :
    slice buffer first stop = .ok ((buffer.take stop).drop first) :=
  if_pos ⟨order, inside⟩

theorem chunks_ok (some : size ≠ 0) (buffer : List α) : chunks size buffer = .ok (pieces size buffer) :=
  if_neg some

theorem chunksExact_ok (some : size ≠ 0) (buffer : List α) :
    chunksExact size buffer = .ok (wholePieces size buffer) :=
  if_neg some

theorem reserve_ok (some : count * size < memorySize) : reserve count size = .ok () := by
  have below := memorySize_lt_bufferSize
  rw [reserve, if_neg (by omega), if_neg (by omega)]

theorem hold_ok {bytes : Bytes} (held : bytes.length < memorySize) : hold bytes = .ok bytes :=
  if_neg (Nat.not_le.mpr held)

/-- Elements that are each made without a panic are made one after the other. -/
theorem mapM_ok {f : α → Run β} {g : α → β} {xs : List α} (each : ∀ x ∈ xs, f x = .ok (g x)) :
    xs.mapM f = .ok (xs.map g) := by
  induction xs with
  | nil => rfl
  | cons x xs inductionHypothesis =>
    rw [List.mapM_cons, each x List.mem_cons_self, ok_bind,
      inductionHypothesis fun y member => each y (List.mem_cons_of_mem x member)]
    rfl

end

/-! ## Runs and what they give -/

/-- Whether an error is about the input, and not about a step that cannot be taken. -/
def isRefusal : Error → Bool
  | .abort _ => false
  | _ => true

def lift {α : Type} : Except Error α → Run α
  | .ok a => .ok a
  | .error (.abort _) => .error .panic
  | .error e => .error (.refused e)

/-- A run goes as a computation says, unless memory runs out. -/
def RunsAs {α : Type} (run : Run α) (computation : Except Error α) : Prop :=
  run = .error .memory ∨ run = lift computation

/-- No step of a computation is one that cannot be taken. -/
def NeverAborts {α : Type} (computation : Except Error α) : Prop :=
  ∀ cause, computation ≠ .error (.abort cause)

section

variable {α β : Type} {x : Except Error α} {g : α → Except Error β}

theorem lift_bind (x : Except Error α) (g : α → Except Error β) :
    lift (x >>= g) = lift x >>= fun a => lift (g a) := by
  cases x with
  | ok a => rfl
  | error e => cases e <;> rfl

/-- A run that starts with a computation and goes on as it does. -/
theorem bind_lift {f : α → Run β} (next : ∀ a, x = .ok a → f a = lift (g a)) :
    lift x >>= f = lift (x >>= g) := by
  rw [lift_bind]
  cases x with
  | ok a => exact next a rfl
  | error e => cases e <;> rfl

theorem lift_unless {refused : Prop} [Decidable refused] {e : Error} {rest : Unit → Except Error α} :
    lift (if refused then (throw e : Except Error Unit) >>= rest else rest ()) =
      if refused then lift (.error e) else lift (rest ()) := by
  by_cases given : refused
  · rw [if_pos given, if_pos given]
    rfl
  · rw [if_neg given, if_neg given]

theorem lift_eq_panic : lift x = .error .panic ↔ ¬ NeverAborts x := by
  cases x with
  | ok a => simp [lift, NeverAborts]
  | error e => cases e <;> simp [lift, NeverAborts]

namespace RunsAs

variable {run : Run α} {f : α → Run β}

theorem bind (first : RunsAs run x) (next : ∀ a, x = .ok a → RunsAs (f a) (g a)) :
    RunsAs (run >>= f) (x >>= g) := by
  rcases first with rfl | rfl
  · exact .inl rfl
  · cases x with
    | ok a => exact next a rfl
    | error e =>
      right
      rw [lift_bind]
      cases e <;> rfl

/-- What fits a buffer is held, unless memory runs out. -/
theorem reserve {count size : Nat} {next : Unit → Run α}
    (bounded : count * size < SampleLayout.bufferSize)
    (runs : count * size < memorySize → RunsAs (next ()) x) :
    RunsAs (Machine.reserve count size >>= next) x := by
  by_cases some : count * size < memorySize
  · rw [reserve_ok some]
    exact runs some
  · rw [Machine.reserve, if_neg (by omega), if_pos (by omega)]
    exact .inl rfl

theorem never_panics (runs : RunsAs run x) (total : NeverAborts x) : run ≠ .error .panic := by
  rcases runs with rfl | rfl
  · simp
  · exact fun panics => lift_eq_panic.mp panics total

end RunsAs

theorem neverAborts_ok (a : α) : NeverAborts (.ok a) := fun _ same => by cases same

theorem neverAborts_error {e : Error} (refusal : isRefusal e = true) :
    NeverAborts (.error e : Except Error α) := by
  intro cause same
  rw [Except.error.inj same] at refusal
  cases refusal

/-- A check that a computation starts with, for which the input is to blame. -/
theorem NeverAborts.checked {refused : Prop} [Decidable refused] {e : Error}
    {rest : Unit → Except Error α} (refusal : refused → isRefusal e = true)
    (next : ¬ refused → NeverAborts (rest ())) :
    NeverAborts (if refused then (throw e : Except Error Unit) >>= rest else rest ()) := by
  by_cases given : refused
  · rw [if_pos given]
    exact neverAborts_error (refusal given)
  · rw [if_neg given]
    exact next given

theorem NeverAborts.bind (first : NeverAborts x) (next : ∀ a, x = .ok a → NeverAborts (g a)) :
    NeverAborts (x >>= g) := by
  cases x with
  | ok a => exact next a rfl
  | error e => exact fun cause same => first cause (congrArg Except.error (Except.error.inj same))

theorem NeverAborts.mapM {xs : List α} (each : ∀ x ∈ xs, NeverAborts (g x)) :
    NeverAborts (xs.mapM g) := by
  induction xs with
  | nil => exact neverAborts_ok []
  | cons x xs inductionHypothesis =>
    rw [List.mapM_cons]
    refine (each x List.mem_cons_self).bind fun made _ => ?_
    refine (inductionHypothesis fun y member => each y (List.mem_cons_of_mem x member)).bind ?_
    exact fun rest _ => neverAborts_ok (made :: rest)

end

/-! ## Runs that do not panic -/

/-- A run goes as a computation says, unless memory runs out, and does not panic. -/
structure Safe {α : Type} (run : Run α) (computation : Except Error α) : Prop where
  runs : RunsAs run computation
  never_panics : run ≠ .error .panic

namespace Safe

variable {α β : Type} {run : Run α} {x : Except Error α} {f : α → Run β} {g : α → Except Error β}

theorem of_runs (runs : RunsAs run x) (total : NeverAborts x) : Safe run x :=
  ⟨runs, runs.never_panics total⟩

theorem of_ok {a : α} (same : run = .ok a) : Safe run (.ok a) := of_runs (.inr same) (neverAborts_ok a)

theorem ok (a : α) : Safe (.ok a) (.ok a) := of_ok rfl

theorem refuse {e : Error} (refusal : isRefusal e = true) :
    Safe (Machine.refuse e : Run α) (.error e) := by
  refine of_runs (.inr ?_) (neverAborts_error refusal)
  cases e with
  | abort cause => cases refusal
  | _ => rfl

theorem lift (total : NeverAborts x) : Safe (lift x) x := of_runs (.inr rfl) total

theorem memory (x : Except Error α) : Safe (.error .memory) x := ⟨.inl rfl, fun panics => by cases panics⟩

theorem bind (first : Safe run x) (next : ∀ a, x = .ok a → Safe (f a) (g a)) :
    Safe (run >>= f) (x >>= g) := by
  refine ⟨first.runs.bind fun a made => (next a made).runs, ?_⟩
  rcases first.runs with rfl | rfl
  · exact (memory (x >>= g)).never_panics
  · cases x with
    | ok a => exact (next a rfl).never_panics
    | error e =>
      cases e with
      | abort abort => exact absurd rfl first.never_panics
      | _ => exact fun panics => by cases panics

/-- A step of the machine that the computation does not have. -/
theorem after {a : α} (first : Safe run (.ok a)) {y : Except Error β} (next : Safe (f a) y) :
    Safe (run >>= f) y :=
  first.bind (g := fun _ => y) fun _ same => Except.ok.inj same ▸ next

theorem map (safe : Safe run x) (f : α → β) : Safe (f <$> run) (f <$> x) := by
  rw [← bind_pure_comp, ← bind_pure_comp]
  exact safe.bind fun a _ => ok (f a)

theorem mapM {f : α → Run β} {xs : List α} (each : ∀ x ∈ xs, Safe (f x) (g x)) :
    Safe (xs.mapM f) (xs.mapM g) := by
  induction xs with
  | nil => exact ok []
  | cons x xs inductionHypothesis =>
    rw [List.mapM_cons, List.mapM_cons]
    refine (each x List.mem_cons_self).bind fun made _ => ?_
    refine (inductionHypothesis fun y member => each y (List.mem_cons_of_mem x member)).bind ?_
    exact fun rest _ => ok (made :: rest)

theorem checked {refused : Prop} [Decidable refused] {e : Error} {rest : Unit → Except Error α}
    (refusal : isRefusal e = true) (next : ¬ refused → Safe run (rest ())) :
    Safe (if refused then Machine.refuse e else run)
      (if refused then (throw e : Except Error Unit) >>= rest else rest ()) := by
  by_cases given : refused
  · rw [if_pos given, if_pos given]
    exact refuse refusal
  · rw [if_neg given, if_neg given]
    exact next given

/-- What fits a buffer is held, unless memory runs out. -/
theorem reserve {count size : Nat} {next : Unit → Run α} (bounded : count * size < SampleLayout.bufferSize)
    (safe : Safe (next ()) x) : Safe (Machine.reserve count size >>= next) x := by
  refine ⟨RunsAs.reserve bounded fun _ => safe.runs, ?_⟩
  by_cases some : count * size < memorySize
  · rw [reserve_ok some]
    exact safe.never_panics
  · rw [Machine.reserve, if_neg (by omega), if_pos (by omega)]
    exact (memory x).never_panics

/-- What is kept in memory is small enough for it. -/
theorem hold {bytes : Bytes} {next : Bytes → Run α}
    (safe : bytes.length < memorySize → Safe (next bytes) x) : Safe (Machine.hold bytes >>= next) x := by
  by_cases held : bytes.length < memorySize
  · rw [hold_ok held]
    exact safe held
  · rw [Machine.hold, if_pos (Nat.not_lt.mp held)]
    exact memory x

end Safe

end PdfCanvas.Machine
