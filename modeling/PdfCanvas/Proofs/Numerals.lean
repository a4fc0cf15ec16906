import PdfCanvas.Operand

/-!
# Which numbers have numerals

Exactly the finite numbers have a numeral, with any number of places. So the check that all numbers of a
list are finite decides whether the list can be written, and with which error it is refused.
-/

namespace PdfCanvas

theorem Floating.operand?_isSome {format : FloatFormat} (x : Floating format) (places : Nat) :
    (x.operand? places).isSome = x.isFinite := by
  cases x with
  | nan => rfl
  | signed negative code =>
    simp only [Floating.operand?, Floating.shortest?, Floating.isFinite]
    by_cases finite : code.val < format.infinityCode
    · by_cases zero : code.val = 0
      · rw [if_pos finite, if_pos zero, decide_eq_true finite]
        rfl
      · rw [if_pos finite, if_neg zero, decide_eq_true finite]
        rfl
    · rw [if_neg finite, decide_eq_false finite]
      rfl

namespace Operand

theorem numeral_of_finite {places : Nat} {x : Single} (finite : x.isFinite = true) :
    ∃ d, x.operand? places = some d ∧ numeral places x = .ok d := by
  rw [← Floating.operand?_isSome x places, Option.isSome_iff_exists] at finite
  obtain ⟨d, printed⟩ := finite
  exact ⟨d, printed, by simp [numeral, printed]⟩

theorem numeral_of_not_finite {places : Nat} {x : Single} (notFinite : x.isFinite = false) :
    numeral places x = .error (.unsupportedValue (.notFinite x)) := by
  rw [← Floating.operand?_isSome x places, Option.isSome_eq_false_iff] at notFinite
  simp [numeral, Option.isNone_iff_eq_none.mp notFinite]

theorem operand?_of_numeral {places : Nat} {x : Single} {d : Decimal}
    (printed : numeral places x = .ok d) : x.operand? places = some d := by
  unfold numeral at printed
  cases written : x.operand? places with
  | none => simp [written] at printed
  | some numeral =>
    simp only [written, Except.ok.injEq] at printed
    rw [printed]

theorem numerals_nil (places : Nat) : Operand.numerals places [] = .ok [] := rfl

theorem numerals_cons_of_ok {places : Nat} {x : Single} {rest : List Single}
    {numerals : List Decimal} (printed : Operand.numerals places (x :: rest) = .ok numerals) :
    ∃ first others, numeral places x = .ok first ∧ Operand.numerals places rest = .ok others ∧
      numerals = first :: others := by
  unfold Operand.numerals at printed
  rw [List.mapM_cons] at printed
  cases head : numeral places x with
  | error e => simp [head, bind, Except.bind] at printed
  | ok first =>
    cases tail : rest.mapM (numeral places) with
    | error e => simp [head, tail, bind, Except.bind] at printed
    | ok others =>
      simp only [head, tail, bind, Except.bind, pure, Except.pure, Except.ok.injEq] at printed
      exact ⟨first, others, rfl, tail, printed.symm⟩

/-- The numerals of a list are those of its members once all of them are found finite. -/
theorem numerals_eq (places : Nat) (values : List Single) :
    numerals places values =
      (checkFinite values).bind fun _ => .ok (values.filterMap (·.operand? places)) := by
  unfold numerals
  induction values with
  | nil => rfl
  | cons x rest inductionHypothesis =>
    rw [List.mapM_cons, inductionHypothesis]
    cases finite : x.isFinite with
    | true =>
      obtain ⟨d, printed, written⟩ := numeral_of_finite finite
      have checked : checkFinite (x :: rest) = checkFinite rest := by simp [checkFinite, finite]
      rw [written, checked]
      simp only [List.filterMap_cons, printed]
      cases checkFinite rest <;> rfl
    | false =>
      have checked : checkFinite (x :: rest) = .error (.unsupportedValue (.notFinite x)) := by
        simp [checkFinite, finite]
      rw [numeral_of_not_finite finite, checked]
      rfl

theorem numerals_of_checkFinite {places : Nat} {values : List Single}
    (finite : checkFinite values = .ok ()) :
    numerals places values = .ok (values.filterMap (·.operand? places)) := by
  rw [numerals_eq, finite]
  rfl

theorem numerals_of_checkFinite_error {places : Nat} {values : List Single} {e : Error}
    (notFinite : checkFinite values = .error e) : numerals places values = .error e := by
  rw [numerals_eq, notFinite]
  rfl

/-- A list is found finite exactly if each of its members is finite. -/
theorem checkFinite_eq_ok_iff {values : List Single} :
    checkFinite values = .ok () ↔ ∀ x ∈ values, x.isFinite = true := by
  unfold checkFinite
  cases found : values.find? (!·.isFinite) with
  | none => simpa using found
  | some x =>
    have notFinite := List.find?_some found
    simp only [reduceCtorEq, false_iff]
    intro finite
    simp [finite x (List.mem_of_find?_eq_some found)] at notFinite

end Operand

end PdfCanvas
