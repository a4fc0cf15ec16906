import PdfCanvas.Proofs.Content.Refinement

/-!
# Sinks of limited capacity

The same tasks are carried out on a sink that takes so many bytes and on one that takes everything. Up to
the write that does not fit, the two cannot be told apart. From then on they can: the task that was stopped
half-way has changed the state, and what the caller goes on with may come out differently. But by then the
limited sink is full, so that what it holds is the front of what the other holds and stays so.
-/

namespace PdfCanvas

/-- Carries out tasks one after the other for as long as the caller goes on, and lists what becomes of
each. -/
def runTasks {σ τ : Type} (perform : σ → τ → Except Error Unit × σ)
    (goesOn : Except Error Unit → Bool) (s : σ) : List τ → List (Except Error Unit) × σ
  | [] => ([], s)
  | task :: rest =>
    let (outcome, after) := perform s task
    let (outcomes, last) :=
      if goesOn outcome then runTasks perform goesOn after rest else ([], after)
    (outcome :: outcomes, last)

/-- A caller that does not go on is like one who has no tasks left. -/
theorem runTasks_cons {σ τ : Type} (perform : σ → τ → Except Error Unit × σ)
    (goesOn : Except Error Unit → Bool) (s : σ) (task : τ) (rest : List τ) :
    runTasks perform goesOn s (task :: rest) =
      ((perform s task).1 :: (runTasks perform goesOn (perform s task).2
          (if goesOn (perform s task).1 then rest else [])).1,
        (runTasks perform goesOn (perform s task).2
          (if goesOn (perform s task).1 then rest else [])).2) := by
  rw [runTasks]
  rcases perform s task with ⟨outcome, after⟩
  cases going : goesOn outcome <;> simp [going, runTasks]

namespace Sink

/-- Writes bytes piece by piece; stops at the first piece that does not fit. -/
def writeAll (s : Sink) : List Bytes → Except Error Unit × Sink
  | [] => (.ok (), s)
  | piece :: rest =>
    match s.write piece with
    | (.ok (), after) => after.writeAll rest
    | (.error e, after) => (.error e, after)

theorem write_nil (s : Sink) : s.write [] = (.ok (), s) := by
  obtain ⟨_ | capacity, refusesFlush, written⟩ := s <;> simp [write, accepted]

/-- It makes no difference in how many writes bytes are handed over. -/
theorem writeAll_eq (s : Sink) (parts : List Bytes) : s.writeAll parts = s.write parts.flatten := by
  induction parts generalizing s with
  | nil => exact (write_nil s).symm
  | cons part rest inductionHypothesis =>
    rw [writeAll, List.flatten_cons, write_append]
    rcases s.write part with ⟨_ | _, after⟩
    · rfl
    · exact inductionHypothesis after

/-! ## Two sinks -/

/-- A limited sink holds the same as one without a limit, and has had room for it. -/
def InStep (capacity : Nat) (limited whole : Sink) : Prop :=
  whole.capacity = none ∧ whole.written.length ≤ capacity ∧
    limited = { whole with capacity := some capacity }

/-- A sink without room for another byte. -/
def IsFull (s : Sink) : Prop := s.capacity = some s.written.length

/-- A limited sink is full, with the front of what one without a limit holds. -/
structure Overrun (capacity : Nat) (limited whole : Sink) : Prop where
  full : limited.IsFull
  length : limited.written.length = capacity
  unlimited : whole.capacity = none
  front : limited.written <+: whole.written

theorem write_of_unlimited {s : Sink} (unlimited : s.capacity = none) (bytes : Bytes) :
    s.write bytes = (.ok (), { s with written := s.written ++ bytes }) := by
  simp [write, accepted, unlimited]

theorem write_of_isFull {s : Sink} (full : s.IsFull) (bytes : Bytes) : (s.write bytes).2 = s := by
  obtain ⟨capacity, refusesFlush, written⟩ := s
  obtain rfl : capacity = some written.length := full
  simp [write, accepted]

section

variable {capacity : Nat} {limited whole : Sink}

theorem InStep.written (inStep : InStep capacity limited whole) :
    limited.written = whole.written.take capacity := by
  obtain ⟨-, room, rfl⟩ := inStep
  exact (List.take_of_length_le room).symm

theorem Overrun.written (overrun : Overrun capacity limited whole) :
    limited.written = whole.written.take capacity := by
  rw [← overrun.length]
  exact List.prefix_iff_eq_take.mp overrun.front

/-- Bytes either fit both sinks, or they fill the limited one. -/
theorem InStep.write (inStep : InStep capacity limited whole) (bytes : Bytes) :
    ((limited.write bytes).1 = .ok () ∧
        InStep capacity (limited.write bytes).2 (whole.write bytes).2) ∨
      ((limited.write bytes).1 = .error (.write .full) ∧
        Overrun capacity (limited.write bytes).2 (whole.write bytes).2) := by
  obtain ⟨unlimited, room, rfl⟩ := inStep
  rw [write_of_unlimited unlimited]
  have accepts : ({ whole with capacity := some capacity } : Sink).accepted bytes =
      bytes.take (capacity - whole.written.length) := rfl
  rw [Sink.write, accepts]
  by_cases fits : bytes.length ≤ capacity - whole.written.length
  · refine .inl ⟨if_pos (by rw [List.take_of_length_le fits]), unlimited, ?_, ?_⟩
    · rw [List.length_append]
      omega
    · rw [List.take_of_length_le fits]
  · have cut : (bytes.take (capacity - whole.written.length)).length =
        capacity - whole.written.length := by
      rw [List.length_take]
      omega
    have filled : (whole.written ++ bytes.take (capacity - whole.written.length)).length =
        capacity := by
      rw [List.length_append, cut]
      omega
    refine .inr ⟨if_neg (by omega), congrArg some filled.symm, filled, unlimited, ?_⟩
    exact List.prefix_append_right_inj _ |>.mpr (List.take_prefix _ _)

end

end Sink

/-! ## Two runs -/

section

variable {σ τ : Type}

/-- Tasks on a state with a sink: on two states that agree but for the capacity of their sinks, a task has
the same outcome, or the limited sink has become full by it. A full sink takes nothing more, and one
without a limit loses nothing. -/
structure Lockstep (capacity : Nat) (perform : σ → τ → Except Error Unit × σ) (sink : σ → Sink)
    (Agree : σ → σ → Prop) : Prop where
  inStep : ∀ {limited whole}, Agree limited whole → (sink limited).InStep capacity (sink whole)
  together : ∀ {limited whole} (task : τ), Agree limited whole →
    ((perform limited task).1 = (perform whole task).1 ∧
        Agree (perform limited task).2 (perform whole task).2) ∨
      ((perform limited task).1 = .error (.write .full) ∧ (perform whole task).1 = .ok () ∧
        (sink (perform limited task).2).Overrun capacity (sink (perform whole task).2))
  stays : ∀ {s} (task : τ), (sink s).IsFull → sink (perform s task).2 = sink s
  grows : ∀ {s} (task : τ), (sink s).capacity = none →
    (sink (perform s task).2).capacity = none ∧ (sink s).written <+: (sink (perform s task).2).written

/-- The first outcome that differs is that the sink was full, where without a limit all was well. -/
def FirstDifferenceIsFull (limited whole : List (Except Error Unit)) : Prop :=
  ∃ before later laterWhole, limited = before ++ .error (.write .full) :: later ∧
    whole = before ++ .ok () :: laterWhole

namespace Lockstep

variable {capacity : Nat} {perform : σ → τ → Except Error Unit × σ} {sink : σ → Sink}
  {Agree : σ → σ → Prop} (lockstep : Lockstep capacity perform sink Agree)
  (goesOn : Except Error Unit → Bool)

include lockstep

/-- A run leaves a full sink as it is. -/
theorem stays_run {s : σ} (full : (sink s).IsFull) (tasks : List τ) :
    sink (runTasks perform goesOn s tasks).2 = sink s := by
  induction tasks generalizing s with
  | nil => rfl
  | cons task rest inductionHypothesis =>
    have same := lockstep.stays task full
    rw [runTasks_cons]
    split
    · exact (inductionHypothesis (same ▸ full)).trans same
    · exact same

/-- A run adds to a sink without a limit. -/
theorem grows_run {s : σ} (unlimited : (sink s).capacity = none) (tasks : List τ) :
    (sink (runTasks perform goesOn s tasks).2).capacity = none ∧
      (sink s).written <+: (sink (runTasks perform goesOn s tasks).2).written := by
  induction tasks generalizing s with
  | nil => exact ⟨unlimited, List.prefix_refl _⟩
  | cons task rest inductionHypothesis =>
    obtain ⟨still, further⟩ := lockstep.grows task unlimited
    rw [runTasks_cons]
    split
    · obtain ⟨last, furthest⟩ := inductionHypothesis still
      exact ⟨last, further.trans furthest⟩
    · exact ⟨still, further⟩

/-- Once the limited sink is full, neither run matters any more, whatever its tasks are. -/
theorem overrun_run {limited whole : σ} (overrun : (sink limited).Overrun capacity (sink whole))
    (tasks others : List τ) :
    (sink (runTasks perform goesOn limited tasks).2).Overrun capacity
      (sink (runTasks perform goesOn whole others).2) := by
  obtain ⟨still, further⟩ := lockstep.grows_run goesOn overrun.unlimited others
  rw [lockstep.stays_run goesOn overrun.full tasks]
  exact ⟨overrun.full, overrun.length, still, overrun.front.trans further⟩

/-- Two runs of the same tasks agree to the end, or until the limited sink is full. -/
theorem run {limited whole : σ} (agree : Agree limited whole) (tasks : List τ) :
    ((runTasks perform goesOn limited tasks).1 = (runTasks perform goesOn whole tasks).1 ∧
        Agree (runTasks perform goesOn limited tasks).2 (runTasks perform goesOn whole tasks).2) ∨
      (FirstDifferenceIsFull (runTasks perform goesOn limited tasks).1
          (runTasks perform goesOn whole tasks).1 ∧
        (sink (runTasks perform goesOn limited tasks).2).Overrun capacity
          (sink (runTasks perform goesOn whole tasks).2)) := by
  induction tasks generalizing limited whole with
  | nil => exact .inl ⟨rfl, agree⟩
  | cons task rest inductionHypothesis =>
    simp only [runTasks_cons]
    rcases lockstep.together task agree with ⟨same, agreeAfter⟩ | ⟨refused, allowed, overrun⟩
    · rw [same]
      split
      · rcases inductionHypothesis agreeAfter with ⟨sameRest, agreeLast⟩ | ⟨differs, overrun⟩
        · exact .inl ⟨congrArg _ sameRest, agreeLast⟩
        · obtain ⟨before, later, laterWhole, first, second⟩ := differs
          exact .inr ⟨⟨_ :: before, later, laterWhole, congrArg _ first, congrArg _ second⟩, overrun⟩
      · exact .inl ⟨rfl, agreeAfter⟩
    · -- Here the callers may go on or not, each as it likes.
      exact .inr ⟨⟨[], _, _, congrArg (· :: _) refused, congrArg (· :: _) allowed⟩,
        lockstep.overrun_run goesOn overrun _ _⟩

end Lockstep

end

theorem Lockstep.written_run {σ τ : Type} {capacity : Nat}
    {perform : σ → τ → Except Error Unit × σ} {sink : σ → Sink} {Agree : σ → σ → Prop}
    (lockstep : Lockstep capacity perform sink Agree) (goesOn : Except Error Unit → Bool)
    {limited whole : σ} (agree : Agree limited whole) (tasks : List τ) :
    (sink (runTasks perform goesOn limited tasks).2).written =
      (sink (runTasks perform goesOn whole tasks).2).written.take capacity := by
  rcases lockstep.run goesOn agree tasks with ⟨-, agreeLast⟩ | ⟨-, overrun⟩
  · exact (lockstep.inStep agreeLast).written
  · exact overrun.written

/-! ## Tokens -/

/-- A way to hand over bytes in several writes. -/
structure Cutting where
  parts : Bytes → List Bytes
  flatten_parts : ∀ bytes, (parts bytes).flatten = bytes

namespace Output

/-- Writes an output to a sink part by part. -/
def performIn (cutting : Cutting) (places : Nat) (output : Output) (sink : Sink) :
    Except Error Unit × Sink :=
  match output with
  | .flush => (sink.flush, sink)
  | _ =>
    match output.bytes places with
    | .ok bytes => sink.writeAll (cutting.parts bytes)
    | .error e => (.error e, sink)

theorem performIn_eq (cutting : Cutting) (places : Nat) (output : Output) (sink : Sink) :
    output.performIn cutting places sink = output.perform places sink := by
  have same : (match output.bytes places with
      | .ok bytes => sink.writeAll (cutting.parts bytes)
      | .error e => (.error e, sink)) =
      (match output.bytes places with
      | .ok bytes => sink.write bytes
      | .error e => (.error e, sink)) := by
    cases output.bytes places with
    | error e => rfl
    | ok bytes =>
      dsimp only
      rw [Sink.writeAll_eq, cutting.flatten_parts]
  cases output with
  | flush => rfl
  | _ => exact same

/-- An output is written, is refused without regard to the sink, or flushes it. -/
theorem perform_cases (places : Nat) (output : Output) :
    (∃ bytes, ∀ sink, output.perform places sink = sink.write bytes) ∨
      (∃ e, ∀ sink, output.perform places sink = (.error e, sink)) ∨ output = .flush := by
  cases output with
  | flush => exact .inr (.inr rfl)
  | operand value => exact .inl ⟨value.bytes, fun _ => rfl⟩
  | keyword text => exact .inl ⟨_, fun _ => rfl⟩
  | verbatim bytes => exact .inl ⟨bytes, fun _ => rfl⟩
  | reals values =>
    cases spelled : (Output.reals values).bytes places with
    | ok bytes => exact .inl ⟨bytes, fun sink => by simp only [perform, spelled]⟩
    | error e => exact .inr (.inl ⟨e, fun sink => by simp only [perform, spelled]⟩)

theorem lockstep (capacity places : Nat) :
    Lockstep capacity (fun sink (output : Output) => output.perform places sink) id
      (Sink.InStep capacity) where
  inStep agree := agree
  together := by
    rintro limited whole output agree
    rcases perform_cases places output with ⟨bytes, writes⟩ | ⟨e, refuses⟩ | rfl
    · simp only [writes, id]
      have taken := Sink.write_of_unlimited agree.1 bytes
      rcases agree.write bytes with ⟨fits, agreeAfter⟩ | ⟨stopped, overrun⟩
      · exact .inl ⟨fits.trans (congrArg Prod.fst taken).symm, agreeAfter⟩
      · exact .inr ⟨stopped, congrArg Prod.fst taken, overrun⟩
    · simp only [refuses]
      exact .inl ⟨trivial, agree⟩
    · obtain ⟨unlimited, room, rfl⟩ := agree
      exact .inl ⟨rfl, unlimited, room, rfl⟩
  stays := by
    rintro sink output full
    rcases perform_cases places output with ⟨bytes, writes⟩ | ⟨e, refuses⟩ | rfl
    · simp only [writes]
      exact Sink.write_of_isFull full bytes
    · simp only [refuses]
    · rfl
  grows := by
    rintro sink output unlimited
    rcases perform_cases places output with ⟨bytes, writes⟩ | ⟨e, refuses⟩ | rfl
    · simp only [writes, id]
      rw [Sink.write_of_unlimited (s := sink) unlimited bytes]
      exact ⟨unlimited, List.prefix_append _ _⟩
    · simp only [refuses]
      exact ⟨unlimited, List.prefix_refl _⟩
    · exact ⟨unlimited, List.prefix_refl _⟩

end Output

/-! ## Drawing calls -/

namespace ContentStream

/-- Two streams that agree but for the capacity of their sinks. -/
def InStep (capacity : Nat) (limited whole : ContentStream) : Prop :=
  limited.sink.InStep capacity whole.sink ∧ limited.state = whole.state ∧
    limited.places = whole.places

/-- A plan that is stopped half-way has left its last state behind, but has filled the sink. -/
theorem InStep.carryOut {capacity : Nat} {limited whole : ContentStream}
    (agree : InStep capacity limited whole) (plan : Plan) :
    ((limited.carryOut plan).1 = .ok () ∧
        InStep capacity (limited.carryOut plan).2 (whole.carryOut plan).2) ∨
      ((limited.carryOut plan).1 = .error (.write .full) ∧
        (limited.carryOut plan).2.sink.Overrun capacity (whole.carryOut plan).2.sink) := by
  induction plan generalizing limited whole with
  | nil => exact .inl ⟨rfl, agree⟩
  | cons step rest inductionHypothesis =>
    obtain ⟨inStep, -, places⟩ := agree
    have taken := Sink.write_of_unlimited inStep.1 step.emission.bytes
    rcases inStep.write step.emission.bytes with ⟨fits, inStepAfter⟩ | ⟨stopped, overrun⟩
    · have agreeAfter : InStep capacity
          { limited with state := step.state, sink := (limited.sink.write step.emission.bytes).2 }
          { whole with state := step.state, sink := (whole.sink.write step.emission.bytes).2 } :=
        ⟨inStepAfter, rfl, places⟩
      simp only [ContentStream.carryOut, fits, congrArg Prod.fst taken]
      exact inductionHypothesis agreeAfter
    · simp only [ContentStream.carryOut, stopped, congrArg Prod.fst taken]
      -- What the other stream writes from here on comes behind what it has written by now.
      have onward := carryOut_of_unlimited (c := { whole with
        state := step.state, sink := (whole.sink.write step.emission.bytes).2 }) overrun.unlimited rest
      rw [onward]
      exact .inr ⟨trivial, overrun.full, overrun.length, overrun.unlimited,
        overrun.front.trans (List.prefix_append _ _)⟩

theorem sink_carryOut_of_isFull {c : ContentStream} (full : c.sink.IsFull) (plan : Plan) :
    (c.carryOut plan).2.sink = c.sink := by
  induction plan generalizing c with
  | nil => rfl
  | cons step rest inductionHypothesis =>
    have same := Sink.write_of_isFull full step.emission.bytes
    simp only [carryOut, same]
    split
    · exact inductionHypothesis (c := { c with state := step.state }) full
    · rfl

theorem lockstep (capacity : Nat) :
    Lockstep capacity perform ContentStream.sink (InStep capacity) where
  inStep agree := agree.1
  together := by
    rintro limited whole call agree
    rw [perform_eq_follow, perform_eq_follow, agree.2.1, agree.2.2]
    cases call.plan whole.places whole.state with
    | error e => exact .inl ⟨rfl, agree⟩
    | ok plan =>
      have taken := congrArg Prod.fst (carryOut_of_unlimited agree.1.1 plan)
      rcases agree.carryOut plan with ⟨fits, agreeAfter⟩ | ⟨stopped, overrun⟩
      · exact .inl ⟨fits.trans taken.symm, agreeAfter⟩
      · exact .inr ⟨stopped, taken, overrun⟩
  stays := by
    rintro c call full
    rw [perform_eq_follow]
    cases call.plan c.places c.state with
    | error e => rfl
    | ok plan => exact sink_carryOut_of_isFull full plan
  grows := by
    rintro c call unlimited
    rw [perform_eq_follow]
    cases call.plan c.places c.state with
    | error e => exact ⟨unlimited, List.prefix_refl _⟩
    | ok plan =>
      rw [follow, carryOut_of_unlimited unlimited plan]
      exact ⟨unlimited, List.prefix_append _ _⟩

end ContentStream

/-- Streams that agree but for the capacity of their sinks are closed alike. -/
theorem ContentStream.InStep.close {capacity : Nat} {limited whole : ContentStream}
    (agree : InStep capacity limited whole) : limited.close = whole.close := by
  obtain ⟨⟨-, -, sink⟩, state, -⟩ := agree
  rw [ContentStream.close, ContentStream.close, state, sink]
  rfl

/-- A sink that takes so many bytes keeps the front of what the same tasks write to a sink without a limit,
and all of it if it is short enough. The first outcome that differs says that the sink is full. That holds
of a writer of tokens, in however many writes each token is handed over, and of drawing calls; streams
whose calls have come out the same are also in the same state and closed alike. The caller may go on after
errors or not. -/
theorem limited_sink_keeps_the_front (capacity places : Nat) (refusesFlush : Bool)
    (goesOn : Except Error Unit → Bool) :
    (∀ (cutting : Cutting) (outputs : List Output),
      let perform := fun sink (output : Output) => output.performIn cutting places sink
      let limited := runTasks perform goesOn ⟨some capacity, refusesFlush, []⟩ outputs
      let whole := runTasks perform goesOn ⟨none, refusesFlush, []⟩ outputs
      limited.2.written = whole.2.written.take capacity ∧
        (limited.1 = whole.1 ∨ FirstDifferenceIsFull limited.1 whole.1)) ∧
    (∀ (resources : Resources) (subsets : Subsets) (calls : List Call),
      let limited := runTasks ContentStream.perform goesOn
        (.start ⟨some capacity, refusesFlush, []⟩ resources subsets places) calls
      let whole := runTasks ContentStream.perform goesOn
        (.start ⟨none, refusesFlush, []⟩ resources subsets places) calls
      limited.2.sink.written = whole.2.sink.written.take capacity ∧
        (limited.1 = whole.1 ∧ limited.2.state = whole.2.state ∧ limited.2.close = whole.2.close ∨
          FirstDifferenceIsFull limited.1 whole.1)) := by
  have empty : Sink.InStep capacity ⟨some capacity, refusesFlush, []⟩ ⟨none, refusesFlush, []⟩ :=
    ⟨rfl, Nat.zero_le capacity, rfl⟩
  constructor
  · intro cutting outputs
    simp only [Output.performIn_eq]
    have lockstep := Output.lockstep capacity places
    refine ⟨lockstep.written_run goesOn empty outputs, ?_⟩
    exact (lockstep.run goesOn empty outputs).imp And.left And.left
  · intro resources subsets calls
    have agree : ContentStream.InStep capacity
        (.start ⟨some capacity, refusesFlush, []⟩ resources subsets places)
        (.start ⟨none, refusesFlush, []⟩ resources subsets places) := ⟨empty, rfl, rfl⟩
    have lockstep := ContentStream.lockstep capacity
    refine ⟨lockstep.written_run goesOn agree calls, ?_⟩
    rcases lockstep.run goesOn agree calls with ⟨same, agreeLast⟩ | ⟨differs, -⟩
    · exact .inl ⟨same, agreeLast.2.1, agreeLast.close⟩
    · exact .inr differs

/-- `BT` was cut after its first two bytes, but the text object counts as open. -/
example : runTasks ContentStream.perform (fun _ => true) (.start ⟨some 4, false, []⟩ .empty ⟨[]⟩ 6)
      [.save, .beginText, .beginText] =
    ([.ok (), .error (.write .full), .error (.sequence .nestedText)],
      ⟨⟨{ GraphicsState.initial with inText := true }, .empty, ⟨[]⟩⟩,
        ⟨some 4, false, utf8 "q\nBT"⟩, 6⟩) := rfl

end PdfCanvas
