import PdfCanvas.Proofs.Content.Refinement

/-!
# Refused calls

A call fails for one of two reasons: it is refused, or the sink does not take what it writes. A refused
call has not begun to write, to bind names or to change the graphics state, however many checks it passed
before the one that refused it.
-/

namespace PdfCanvas.ContentStream

/-- A call that fails for another reason than the sink has no plan. -/
theorem plan_of_refused {c after : ContentStream} {call : Call} {e : Error}
    (failed : c.perform call = (.error e, after)) (refused : ∀ fault, e ≠ .write fault) :
    call.plan c.places c.state = .error e ∧ after = c := by
  rw [perform_eq_follow] at failed
  cases planned : call.plan c.places c.state with
  | error cause =>
    rw [planned] at failed
    cases failed
    exact ⟨rfl, rfl⟩
  | ok plan =>
    rw [planned] at failed
    obtain ⟨fault, cause⟩ := cause_of_carryOut failed
    exact absurd cause (refused fault)

/-- A call that is refused leaves the whole stream as it was: what is in the sink, the text flag and the
stacks of the graphics state, the bound names and the recorded characters. -/
theorem refused_call_changes_nothing {c after : ContentStream} {call : Call} {e : Error}
    (failed : c.perform call = (.error e, after)) (refused : ∀ fault, e ≠ .write fault) :
    after = c :=
  (plan_of_refused failed refused).2

/-- A polygon whose last ordinate is infinite is refused after its other numbers have passed. -/
theorem infinite_polygon_changes_nothing :
    ((start .unlimited .empty ⟨[]⟩ 6).perform
      (.addPolygon [.zero, .zero] [.zero, .infinity false])).2 = start .unlimited .empty ⟨[]⟩ 6 := by
  have failed : (start .unlimited .empty ⟨[]⟩ 6).perform
      (.addPolygon [.zero, .zero] [.zero, .infinity false]) =
      (.error (.unsupportedValue (.notFinite (.infinity false))), _) := rfl
  exact refused_call_changes_nothing failed fun fault => Error.noConfusion

end PdfCanvas.ContentStream
