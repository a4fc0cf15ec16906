import PdfCanvas.Page
import PdfCanvas.Proofs.Content.Runs

/-!
# Runs of drawing sessions

Sessions on a page one after the other, each from its opening to its end, with a log of the calls that
were accepted and of the bytes that each of them added to its stream.
-/

namespace PdfCanvas

structure Script where
  options : SessionOptions
  subsets : Subsets
  places : Nat
  calls : List Call

/-- Accepted calls, each with the bytes it wrote. -/
abbrev DrawingLog := List (Call × Bytes)

namespace ContentStream

def log (c : ContentStream) : List Call → DrawingLog
  | [] => []
  | call :: rest =>
    let (outcome, after) := c.perform call
    match outcome with
    | .ok () => (call, after.sink.written.drop c.sink.written.length) :: after.log rest
    | .error _ => after.log rest

/-- What a run writes is what the log of it says, call after call. -/
theorem written_performAll {c : ContentStream} (unlimited : c.sink.capacity = none)
    (calls : List Call) :
    (c.performAll calls).sink.written = c.sink.written ++ (c.log calls).flatMap (·.2) := by
  induction calls generalizing c with
  | nil => exact (List.append_nil _).symm
  | cons call rest inductionHypothesis =>
    rw [performAll, log]
    cases planned : call.plan c.places c.state with
    | error e =>
      rw [perform_of_refusal planned]
      exact inductionHypothesis unlimited
    | ok plan =>
      rw [perform_of_plan unlimited planned]
      let next : ContentStream :=
        ⟨plan.outcome c.state, { c.sink with written := c.sink.written ++ plan.bytes }, c.places⟩
      refine (inductionHypothesis (c := next) unlimited).trans ?_
      rw [List.flatMap_cons, List.drop_left, List.append_assoc]

/-- A call that leaves the state as it is does the same again each time it is repeated. -/
theorem repeated_of_plan {c : ContentStream} (unlimited : c.sink.capacity = none) {call : Call}
    {plan : Plan} (planned : call.plan c.places c.state = .ok plan)
    (kept : plan.outcome c.state = c.state) (count : Nat) :
    c.log (List.replicate count call) = List.replicate count (call, plan.bytes) ∧
      (c.performAll (List.replicate count call)).state = c.state := by
  induction count generalizing c with
  | zero => exact ⟨rfl, rfl⟩
  | succ count inductionHypothesis =>
    let next : ContentStream :=
      ⟨c.state, { c.sink with written := c.sink.written ++ plan.bytes }, c.places⟩
    have performed : c.perform call = (.ok (), next) := by
      rw [perform_of_plan unlimited planned, kept]
    obtain ⟨logged, state⟩ := inductionHypothesis (c := next) unlimited planned kept
    refine ⟨?_, ?_⟩
    · rw [List.replicate_succ, log, performed]
      change (call, (c.sink.written ++ plan.bytes).drop c.sink.written.length) :: next.log _ = _
      rw [List.drop_left, logged, List.replicate_succ]
    · rw [List.replicate_succ, performAll, performed, state]

end ContentStream

namespace Session

/-- Carries out calls one after the other, whatever becomes of each. -/
def performAll (s : Session) : List Call → Session
  | [] => s
  | call :: rest => (s.perform call).2.performAll rest

theorem performAll_eq (s : Session) (calls : List Call) :
    s.performAll calls = { s with content := s.content.performAll calls } := by
  induction calls generalizing s with
  | nil => rfl
  | cons call rest inductionHypothesis =>
    rw [performAll, inductionHypothesis]
    rfl

end Session

namespace Page

/-- The resources of a page, none of which may be bound yet. -/
def boundResources (p : Page) : Resources := p.resources.getD .empty

def openSession (p : Page) (script : Script) : Session :=
  Session.start p script.subsets script.options script.places

/-- Carries out sessions. A run in which a session cannot be closed is none. -/
def drawAll (p : Page) : List Script → Except Error (DrawingLog × Page)
  | [] => .ok ([], p)
  | script :: rest =>
    match ((p.openSession script).performAll script.calls).close with
    | (.ok (), next) => do
      let (log, last) ← next.drawAll rest
      return ((p.openSession script).content.log script.calls ++ log, last)
    | (.error e, _) => .error e

/-- A session starts with the resources of its page and on a sink without a limit. -/
theorem content_openSession (p : Page) (script : Script) :
    (p.openSession script).content.state.resources = p.boundResources ∧
      (p.openSession script).content.sink.capacity = none := by
  let blank := ContentStream.start .unlimited p.boundResources script.subsets script.places
  have restored : (blank.perform .restore).2.state.resources = p.boundResources ∧
      (blank.perform .restore).2.sink.capacity = none := by
    -- The bracket is closed by a call, which binds nothing and cannot fail.
    have planned : Call.plan blank.places blank.state .restore = .ok _ := rfl
    rw [ContentStream.perform_of_plan rfl planned]
    exact ⟨rfl, rfl⟩
  unfold openSession Session.start
  split
  · split
    · exact restored
    · exact ⟨rfl, rfl⟩
  · exact ⟨rfl, rfl⟩

/-- A session that is closed leaves its resources to the page. -/
theorem boundResources_close {s : Session} {next : Page} (closed : s.close = (.ok (), next)) :
    next.boundResources = s.content.state.resources := by
  unfold Session.close at closed
  cases ended : s.content.close with
  | error e => simp [ended] at closed
  | ok bytes =>
    simp only [ended, Prod.mk.injEq, true_and] at closed
    rw [← closed]
    rfl

theorem drawAll_cons {p last : Page} {script : Script} {rest : List Script} {log : DrawingLog}
    (ran : p.drawAll (script :: rest) = .ok (log, last)) :
    ∃ next others, ((p.openSession script).performAll script.calls).close = (.ok (), next) ∧
      next.drawAll rest = .ok (others, last) ∧
      log = (p.openSession script).content.log script.calls ++ others := by
  rw [drawAll] at ran
  split at ran
  · next next closed =>
    obtain ⟨⟨others, final⟩, ranRest, made⟩ := bind_eq_ok.mp ran
    obtain ⟨rfl, rfl⟩ := Prod.mk.inj (Except.ok.inj made)
    exact ⟨next, others, closed, ranRest, rfl⟩
  · cases ran

/-- A run through a session is one of the sessions before it, the session itself, and one of those after
it. -/
theorem drawAll_split {p last : Page} {before after : List Script} {script : Script}
    {log : DrawingLog} (ran : p.drawAll (before ++ script :: after) = .ok (log, last)) :
    ∃ earlier current next later, p.drawAll before = .ok (earlier, current) ∧
      ((current.openSession script).performAll script.calls).close = (.ok (), next) ∧
      next.drawAll after = .ok (later, last) ∧
      log = earlier ++ (current.openSession script).content.log script.calls ++ later := by
  induction before generalizing p log with
  | nil =>
    obtain ⟨next, later, closed, ranAfter, rfl⟩ := drawAll_cons ran
    exact ⟨[], p, next, later, rfl, closed, ranAfter, rfl⟩
  | cons first before inductionHypothesis =>
    obtain ⟨second, others, closedFirst, ranOthers, rfl⟩ := drawAll_cons ran
    obtain ⟨earlier, current, next, later, ranBefore, closed, ranAfter, rfl⟩ :=
      inductionHypothesis ranOthers
    refine ⟨(p.openSession first).content.log first.calls ++ earlier, current, next, later, ?_, closed,
      ranAfter, by simp only [List.append_assoc]⟩
    rw [drawAll, closedFirst]
    simp only [ranBefore]
    rfl

end Page

end PdfCanvas
