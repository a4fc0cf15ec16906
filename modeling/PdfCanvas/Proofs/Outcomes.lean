import PdfCanvas.Error

/-!
# Outcomes

What is known of the steps of a computation that has come to its end.
-/

namespace PdfCanvas

theorem bind_eq_ok {α β : Type} {x : Except Error α} {f : α → Except Error β} {b : β} :
    (x >>= f) = .ok b ↔ ∃ a, x = .ok a ∧ f a = .ok b := by
  cases x with
  | error e => simp [bind, Except.bind]
  | ok a => simp [bind, Except.bind]

theorem bind_eq_error {α β : Type} {x : Except Error α} {f : α → Except Error β} {e : Error} :
    (x >>= f) = .error e ↔ x = .error e ∨ ∃ a, x = .ok a ∧ f a = .error e := by
  cases x with
  | error e => simp [bind, Except.bind]
  | ok a => simp [bind, Except.bind]

theorem map_eq_ok {α β : Type} {x : Except Error α} {f : α → β} {b : β} :
    f <$> x = .ok b ↔ ∃ a, x = .ok a ∧ f a = b := by
  cases x with
  | error e => simp [Functor.map, Except.map]
  | ok a => simp [Functor.map, Except.map]

/-- A computation that starts with a check goes on only if the check is passed. -/
theorem unless_eq_ok {β : Type} {refused : Prop} [Decidable refused] {e : Error}
    {rest : Unit → Except Error β} {b : β} :
    (if refused then (throw e : Except Error Unit) >>= rest else rest ()) = .ok b ↔
      ¬ refused ∧ rest () = .ok b := by
  by_cases given : refused <;> simp [given, throw, throwThe, MonadExceptOf.throw, bind, Except.bind]

theorem eq_ok_of_toOption {α : Type} {x : Except Error α} {a : α} (given : x.toOption = some a) :
    x = .ok a := by
  cases x with
  | error e => cases given
  | ok b => exact congrArg Except.ok (Option.some.inj given)

theorem mapM_eq_ok {α β : Type} {f : α → Except Error β} {xs : List α} {ys : List β} :
    xs.mapM f = .ok ys ↔ xs.map f = ys.map .ok := by
  induction xs generalizing ys with
  | nil => cases ys <;> simp [pure, Except.pure]
  | cons x xs inductionHypothesis =>
    rw [List.mapM_cons, bind_eq_ok, List.map_cons]
    constructor
    · rintro ⟨y, made, ran⟩
      obtain ⟨rest, ranRest, whole⟩ := bind_eq_ok.mp ran
      cases whole
      rw [List.map_cons, made, inductionHypothesis.mp ranRest]
    · intro allMade
      cases ys with
      | nil => cases allMade
      | cons y ys =>
        obtain ⟨made, madeRest⟩ := List.cons.inj allMade
        exact ⟨y, made, bind_eq_ok.mpr ⟨ys, inductionHypothesis.mpr madeRest, rfl⟩⟩

/-- Nothing is left out before the first failure. -/
theorem of_mapM_eq_error {α β : Type} {f : α → Except Error β} {xs : List α} {e : Error}
    (failed : xs.mapM f = .error e) : ∃ x ∈ xs, f x = .error e := by
  induction xs with
  | nil => cases failed
  | cons x xs inductionHypothesis =>
    rw [List.mapM_cons] at failed
    rcases bind_eq_error.mp failed with first | ⟨_, _, failed⟩
    · exact ⟨x, List.mem_cons_self, first⟩
    · rcases bind_eq_error.mp failed with others | ⟨_, _, made⟩
      · obtain ⟨other, member, fault⟩ := inductionHypothesis others
        exact ⟨other, List.mem_cons_of_mem x member, fault⟩
      · cases made

/-- What is known of each outcome is known of all. -/
theorem map_eq_of_mapM {α β γ : Type} {f : α → Except Error β} {g : α → γ} {h : β → γ}
    (each : ∀ x y, f x = .ok y → g x = h y) {xs : List α} {ys : List β} (made : xs.mapM f = .ok ys) :
    xs.map g = ys.map h := by
  rw [mapM_eq_ok] at made
  induction xs generalizing ys with
  | nil =>
    cases ys with
    | nil => rfl
    | cons y ys => cases made
  | cons x xs inductionHypothesis =>
    cases ys with
    | nil => cases made
    | cons y ys =>
      obtain ⟨first, others⟩ := List.cons.inj made
      rw [List.map_cons, List.map_cons, each x y first, inductionHypothesis others]

theorem exists_mapM {α β : Type} {f : α → Except Error β} {xs : List α}
    (each : ∀ x ∈ xs, ∃ y, f x = .ok y) : ∃ ys, xs.mapM f = .ok ys := by
  induction xs with
  | nil => exact ⟨[], rfl⟩
  | cons x xs inductionHypothesis =>
    obtain ⟨y, made⟩ := each x List.mem_cons_self
    obtain ⟨ys, madeRest⟩ := inductionHypothesis fun x member => each x (List.mem_cons_of_mem _ member)
    rw [List.mapM_cons]
    exact ⟨y :: ys, bind_eq_ok.mpr ⟨y, made, bind_eq_ok.mpr ⟨ys, madeRest, rfl⟩⟩⟩

end PdfCanvas
