import PdfCanvas.Proofs.Content.Refinement

/-!
# Runs on a sink without a limit

Calls one after the other, on a sink that takes everything: what is written is what the plans of the
accepted calls say, and the state is the one that their last step leaves.
-/

namespace PdfCanvas

namespace DrawingState

/-- The steps of a run. A call that is refused adds none. -/
def planAll (places : Nat) (s : DrawingState) : List Call → Plan
  | [] => []
  | call :: rest =>
    match call.plan places s with
    | .ok plan => plan ++ planAll places (plan.outcome s) rest
    | .error _ => planAll places s rest

end DrawingState

namespace Plan

theorem bytes_append (first second : Plan) : (first ++ second).bytes = first.bytes ++ second.bytes :=
  List.flatMap_append

theorem instructions_append (first second : Plan) :
    (first ++ second).instructions = first.instructions ++ second.instructions :=
  List.flatMap_append

theorem outcome_append (before : DrawingState) (first second : Plan) :
    (first ++ second).outcome before = second.outcome (first.outcome before) :=
  List.foldl_append

end Plan

theorem DrawingState.planAll_append (places : Nat) (s : DrawingState) (first second : List Call) :
    s.planAll places (first ++ second) =
      s.planAll places first ++ ((s.planAll places first).outcome s).planAll places second := by
  induction first generalizing s with
  | nil => rfl
  | cons call rest inductionHypothesis =>
    rw [List.cons_append, planAll, planAll]
    cases call.plan places s with
    | error e => exact inductionHypothesis s
    | ok plan =>
      dsimp only
      rw [inductionHypothesis, Plan.outcome_append, List.append_assoc]

/-- The steps of an accepted call stand between those of the calls before it and after it. -/
theorem DrawingState.planAll_of_plan {places : Nat} {s : DrawingState} {before : List Call}
    {call : Call} {plan : Plan}
    (planned : call.plan places ((s.planAll places before).outcome s) = .ok plan)
    (after : List Call) :
    s.planAll places (before ++ call :: after) =
      s.planAll places before ++
        (plan ++ (plan.outcome ((s.planAll places before).outcome s)).planAll places after) := by
  rw [planAll_append, planAll, planned]

namespace ContentStream

theorem perform_of_plan {c : ContentStream} (unlimited : c.sink.capacity = none) {call : Call}
    {plan : Plan} (planned : call.plan c.places c.state = .ok plan) :
    c.perform call =
      (.ok (), ⟨plan.outcome c.state,
        { c.sink with written := c.sink.written ++ plan.bytes }, c.places⟩) := by
  rw [perform_eq_follow, planned]
  exact carryOut_of_unlimited unlimited plan

theorem perform_of_refusal {c : ContentStream} {call : Call} {e : Error}
    (planned : call.plan c.places c.state = .error e) : c.perform call = (.error e, c) := by
  rw [perform_eq_follow, planned]
  rfl

theorem performAll_of_unlimited {c : ContentStream} (unlimited : c.sink.capacity = none)
    (calls : List Call) :
    c.performAll calls =
      ⟨(c.state.planAll c.places calls).outcome c.state,
        { c.sink with written := c.sink.written ++ (c.state.planAll c.places calls).bytes },
        c.places⟩ := by
  induction calls generalizing c with
  | nil => simp [performAll, DrawingState.planAll, Plan.outcome, Plan.bytes]
  | cons call rest inductionHypothesis =>
    rw [performAll, DrawingState.planAll]
    -- A call that is refused leaves the stream, so the rest runs as if it had not been there.
    cases planned : call.plan c.places c.state with
    | error e =>
      rw [perform_of_refusal planned]
      exact inductionHypothesis unlimited
    | ok plan =>
      rw [perform_of_plan unlimited planned]
      have further := inductionHypothesis (c := ⟨plan.outcome c.state,
        { c.sink with written := c.sink.written ++ plan.bytes }, c.places⟩) unlimited
      refine further.trans ?_
      simp only [Plan.bytes_append, Plan.outcome_append, List.append_assoc]

end ContentStream

end PdfCanvas
