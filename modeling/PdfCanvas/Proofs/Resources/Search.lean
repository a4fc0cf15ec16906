import Mathlib.Order.Bounds.Defs
import PdfCanvas.Proofs.Machine.Steps
import PdfCanvas.Proofs.Resources.Sharing

/-!
# The search for a name

An object that is new to its table is named in rounds: each counts up by one and looks whether the name with
this number is bound. The rounds have no bound of their own. They come to an end because different numbers make
different names, so that among numbers that are one more than the names of a table one is free. Since the count
starts at the number of names, it never gets past twice that number and one, for which a word has room: a table
has less than half as many names as there are words.
-/

namespace PdfCanvas

namespace Resources

/-- How far a search has come: it goes on behind a number, or it has settled on one. -/
inductive Search where
  | counting (number : Nat)
  | settled (number : Nat)
  deriving DecidableEq

/-- The number in the name of an object that is new to a table. -/
def nextNumber (kind : ResourceKind) (entries : Dictionary) : Nat :=
  freeNumber (fun number => (entries.get? (numberedName kind.stem number)).isSome) entries.length
    entries.length

section

variable (kind : ResourceKind) (entries : Dictionary)

/-- One round takes the next number, and the search settles on it if no object has the name with it. There
are no rounds after that. -/
def searchRound : Search → Search
  | .counting number =>
    if (entries.get? (numberedName kind.stem (number + 1))).isSome then .counting (number + 1)
    else .settled (number + 1)
  | .settled number => .settled number

/-- The search after so many rounds. -/
def searchAfter : (rounds : Nat) → Search
  | 0 => .counting entries.length
  | rounds + 1 => searchRound kind entries (searchAfter rounds)

/-- The search counts up in all rounds before the last one, and settles on a number in that. -/
structure SettlesIn (rounds number : Nat) : Prop where
  counting : ∀ earlier < rounds, searchAfter kind entries earlier = .counting (entries.length + earlier)
  settled : ∀ later, rounds ≤ later → searchAfter kind entries later = .settled number

/-! ## The number it settles on -/

theorem freshName_eq : freshName kind entries = numberedName kind.stem (nextNumber kind entries) := rfl

theorem lt_nextNumber : entries.length < nextNumber kind entries := freeNumber_gt _ _ _

theorem nextNumber_le : nextNumber kind entries ≤ 2 * entries.length + 1 := by
  have bound : nextNumber kind entries ≤ entries.length + entries.length + 1 := freeNumber_le _ _ _
  omega

/-- All numbers above the number of names that are less than the next one are taken. -/
theorem isLeast_nextNumber :
    IsLeast {number | entries.length < number ∧ numberedName kind.stem number ∉ entries.map (·.1)}
      (nextNumber kind entries) := by
  refine ⟨⟨lt_nextNumber kind entries, ?_⟩, ?_⟩
  · rw [← Dictionary.get?_eq_none_iff, ← freshName_eq]
    exact freshName_fresh kind entries
  · rintro number ⟨above, free⟩
    by_contra less
    have taken := isTaken_of_lt_freeNumber above (Nat.lt_of_not_le less)
    rw [Dictionary.get?_eq_none_iff.mpr free] at taken
    cases taken

end

/-! ## Rounds -/

section

variable {kind : ResourceKind} {entries : Dictionary}

theorem searchRound_of_less {number : Nat} (above : entries.length ≤ number)
    (less : number + 1 < nextNumber kind entries) :
    searchRound kind entries (.counting number) = .counting (number + 1) := by
  have taken := isTaken_of_lt_freeNumber (Nat.lt_succ_of_le above) less
  simp [searchRound, taken]

theorem searchRound_of_next {number : Nat} (next : number + 1 = nextNumber kind entries) :
    searchRound kind entries (.counting number) = .settled (number + 1) := by
  have free : entries.get? (numberedName kind.stem (number + 1)) = none := by
    rw [next, ← freshName_eq]
    exact freshName_fresh kind entries
  simp [searchRound, free]

variable (kind entries)

/-- Every round counts up by one until the next number is reached. -/
theorem searchAfter_eq (rounds : Nat) :
    searchAfter kind entries rounds =
      if entries.length + rounds < nextNumber kind entries then .counting (entries.length + rounds)
      else .settled (nextNumber kind entries) := by
  induction rounds with
  | zero => simp [searchAfter, lt_nextNumber]
  | succ rounds inductionHypothesis =>
    rw [searchAfter, inductionHypothesis, ← Nat.add_assoc]
    by_cases counting : entries.length + rounds < nextNumber kind entries
    · rw [if_pos counting]
      by_cases less : entries.length + rounds + 1 < nextNumber kind entries
      · rw [if_pos less]
        exact searchRound_of_less (Nat.le_add_right _ _) less
      · have next : entries.length + rounds + 1 = nextNumber kind entries := by omega
        rw [if_neg less, searchRound_of_next next, next]
    · -- a search that has settled stays where it is
      have further : ¬ entries.length + rounds + 1 < nextNumber kind entries := by omega
      rw [if_neg counting, if_neg further]
      rfl

theorem settlesIn_nextNumber :
    SettlesIn kind entries (nextNumber kind entries - entries.length) (nextNumber kind entries) where
  counting earlier before := by
    rw [searchAfter_eq, if_pos (by omega)]
  settled later notBefore := by
    rw [searchAfter_eq, if_neg (by omega)]

end

end Resources

/-! ## Counters of a machine -/

namespace Machine

open Resources

section

variable (bits : Nat) (kind : ResourceKind) (entries : Dictionary)

/-- One round with a counter that has so many bits. -/
def searchRound : Search → Run Search
  | .counting number => do
    let next ← add bits number 1
    if (entries.get? (numberedName kind.stem next)).isSome then return .counting next
    else return .settled next
  | .settled number => return .settled number

/-- The search after so many rounds, with a counter that has so many bits. -/
def searchAfter : (rounds : Nat) → Run Search
  | 0 => return .counting (← fit bits entries.length)
  | rounds + 1 => do searchRound bits kind entries (← searchAfter rounds)

end

variable {bits : Nat} {kind : ResourceKind} {entries : Dictionary}

theorem searchRound_ok {number : Nat} (fits : number + 1 < 1 <<< bits) :
    searchRound bits kind entries (.counting number) =
      .ok (Resources.searchRound kind entries (.counting number)) := by
  rw [searchRound, add_ok fits, ok_bind, Resources.searchRound]
  split <;> rfl

/-- No round panics if the greatest number that can be next fits the counter. -/
theorem searchAfter_ok (fits : 2 * entries.length + 1 < 1 <<< bits) (rounds : Nat) :
    searchAfter bits kind entries rounds = .ok (Resources.searchAfter kind entries rounds) := by
  induction rounds with
  | zero =>
    rw [searchAfter, fit_ok (by omega)]
    rfl
  | succ rounds inductionHypothesis =>
    rw [searchAfter, inductionHypothesis, ok_bind, Resources.searchAfter, Resources.searchAfter_eq]
    split
    next counting =>
      have bound := nextNumber_le kind entries
      exact searchRound_ok (by omega)
    · rfl

end Machine

namespace Resources

/-- Whatever names a table has, the search for another one ends after at most one round more than there are
names, with the least number above the number of names that makes a free name. It is what the name of a new object
is made with. The counter never overflows: one bit more than the number of names takes is enough. -/
theorem search_settles_on_the_least_free_number (kind : ResourceKind) (entries : Dictionary) :
    ∃ rounds number, rounds ≤ entries.length + 1 ∧ SettlesIn kind entries rounds number ∧
      IsLeast {free | entries.length < free ∧ numberedName kind.stem free ∉ entries.map (·.1)} number ∧
      number ≤ 2 * entries.length + 1 ∧
      (∀ (r : Resources) (object : Object), r.entries kind.category = entries →
        nameOf? entries object = none → (r.add kind object).1 = numberedName kind.stem number) ∧
      ∀ bits, entries.length < 1 <<< bits → ∀ round,
        Machine.searchAfter (bits + 1) kind entries round = .ok (searchAfter kind entries round) := by
  have bound := nextNumber_le kind entries
  refine ⟨nextNumber kind entries - entries.length, nextNumber kind entries, by omega,
    settlesIn_nextNumber kind entries, isLeast_nextNumber kind entries, bound, ?_, ?_⟩
  · rintro r object rfl unnamed
    rw [add_of_unnamed unnamed, freshName_eq]
  · intro bits small round
    refine Machine.searchAfter_ok ?_ round
    -- the greatest number is odd, so that it is less than twice the power that is above the names
    have double : 1 <<< (bits + 1) = 2 * 1 <<< bits := by
      rw [Nat.one_shiftLeft, Nat.one_shiftLeft, Nat.pow_succ']
    omega

/-- A font under the name with the number that would be next. -/
def secondFont : Dictionary := [("F2", .reference ⟨3, 0⟩)]

/-- One name can cost a second round, which takes the search as far as it can get. -/
theorem name_of_second_font_is_passed_over :
    nameOf? secondFont (.reference ⟨4, 0⟩) = none ∧ SettlesIn .font secondFont 2 3 ∧
      ((⟨[("Font", secondFont)]⟩ : Resources).add .font (.reference ⟨4, 0⟩)).1 = "F3" ∧
      secondFont.length < 1 <<< 63 ∧ ∀ round,
        Machine.searchAfter 64 .font secondFont round = .ok (searchAfter .font secondFont round) := by
  obtain ⟨rounds, number, few, settles, -, -, named, fits⟩ :=
    search_settles_on_the_least_free_number .font secondFont
  have first : searchAfter .font secondFont 1 = .counting 2 := rfl
  have second : searchAfter .font secondFont 2 = .settled 3 := rfl
  obtain rfl : number = 3 := by
    rw [settles.settled 2 few, Search.settled.injEq] at second
    exact second
  obtain rfl : rounds = 2 := by
    have notEarlier : ¬ rounds ≤ 1 := by
      intro earlier
      rw [settles.settled 1 earlier] at first
      cases first
    have atMost : rounds ≤ 2 := few
    omega
  have small : secondFont.length < 1 <<< 63 := by decide
  exact ⟨rfl, settles, named ⟨[("Font", secondFont)]⟩ _ rfl rfl, small, fits 63 small⟩

end Resources

end PdfCanvas
