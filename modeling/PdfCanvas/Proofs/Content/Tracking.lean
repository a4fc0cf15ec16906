import PdfCanvas.Content.State

/-!
# Saved and restored states

A stack that is empty stays empty when the state is saved, so the depth of a stack does not tell how many states
are saved, and what is selected between `q` and `Q` may come to lie at the bottom of it. What can be followed
is everything that lies below so many places: to save moves it one place down, to restore moves it one place up,
and a selection reaches the first place only. The non-trivial ingredient is `below_trackAll`, by which what lay
below the places in use lies there again once as much was restored as was saved.
-/

namespace PdfCanvas

/-- What is done to the tracked state. -/
inductive Tracking where
  | beginText
  | endText
  | setFont (font : Font)
  | setSpace (use : ColorUse) (space : ColorSpace)
  | save
  | restore

namespace Tracking

def isSave : Tracking → Bool
  | .save => true
  | _ => false

def isRestore : Tracking → Bool
  | .restore => true
  | _ => false

/-! ## Balance -/

/-- Nowhere more was restored than saved, and in all just as much. -/
structure IsBalanced (operations : List Tracking) : Prop where
  covered : ∀ front, front <+: operations → front.countP isRestore ≤ front.countP isSave
  even : operations.countP isSave = operations.countP isRestore

/-- How many of the states saved are left, starting with so many. There is no answer if one is restored that
was not saved. -/
def openAfter : Nat → List Tracking → Option Nat
  | count, [] => some count
  | count, .save :: rest => openAfter (count + 1) rest
  | 0, .restore :: _ => none
  | count + 1, .restore :: rest => openAfter count rest
  | count, _ :: rest => openAfter count rest

theorem forall_prefix_cons {α : Type} {P : List α → Prop} {a : α} {rest : List α} :
    (∀ front, front <+: a :: rest → P front) ↔ P [] ∧ ∀ front, front <+: rest → P (a :: front) := by
  constructor
  · intro all
    exact ⟨all [] List.nil_prefix, fun front before => all _ ((List.prefix_cons_inj a).mpr before)⟩
  · rintro ⟨none, some⟩ front before
    rcases List.prefix_cons_iff.mp before with rfl | ⟨further, rfl, within⟩
    · exact none
    · exact some further within

theorem openAfter_eq_some_iff {operations : List Tracking} {count left : Nat} :
    openAfter count operations = some left ↔
      (∀ front, front <+: operations → front.countP isRestore ≤ front.countP isSave + count) ∧
        operations.countP isSave + count = operations.countP isRestore + left := by
  induction operations generalizing count with
  | nil => simp [openAfter]
  | cons operation rest inductionHypothesis =>
    rw [forall_prefix_cons]
    cases operation with
    | save =>
      simp only [openAfter, inductionHypothesis, List.countP_cons, isSave, isRestore]
      grind
    | restore =>
      cases count with
      | zero =>
        -- The operation in front is a restore without a save.
        rw [openAfter]
        refine iff_of_false (by simp) fun both => ?_
        exact absurd (both.1.2 [] List.nil_prefix) (by decide)
      | succ count =>
        simp only [openAfter, inductionHypothesis, List.countP_cons, isSave, isRestore]
        grind
    | beginText | endText | setFont | setSpace =>
      simp [openAfter, inductionHypothesis, isSave, isRestore]

theorem isBalanced_iff {operations : List Tracking} :
    IsBalanced operations ↔ openAfter 0 operations = some 0 := by
  rw [openAfter_eq_some_iff]
  exact ⟨fun balanced => ⟨balanced.covered, balanced.even⟩, fun ⟨covered, even⟩ => ⟨covered, even⟩⟩

theorem IsBalanced.nil : IsBalanced [] := isBalanced_iff.mpr rfl

theorem openAfter_append (count : Nat) (first second : List Tracking) :
    openAfter count (first ++ second) = (openAfter count first).bind (openAfter · second) := by
  fun_induction openAfter count first <;> simp_all [openAfter]

/-- Whatever neither saves nor restores leaves as much open as before. -/
theorem openAfter_of_level {operations : List Tracking} (count : Nat)
    (level : ∀ operation ∈ operations, operation.isSave = false ∧ operation.isRestore = false) :
    openAfter count operations = some count := by
  induction operations with
  | nil => rfl
  | cons operation rest inductionHypothesis =>
    obtain ⟨first, others⟩ := List.forall_mem_cons.mp level
    cases operation with
    | save => exact absurd first.1 (by decide)
    | restore => exact absurd first.2 (by decide)
    | beginText | endText | setFont | setSpace => exact inductionHypothesis others

end Tracking

open Tracking

/-! ## Stacks -/

theorem drop_replaceTop {α : Type} (stack : List α) (value : α) (count : Nat) :
    (replaceTop stack value).drop (count + 1) = stack.drop (count + 1) := by
  simp [replaceTop]

theorem drop_duplicateTop {α : Type} (stack : List α) (count : Nat) :
    (duplicateTop stack).drop (count + 1) = stack.drop count := by
  cases stack <;> simp [duplicateTop]

theorem head?_duplicateTop {α : Type} (stack : List α) : (duplicateTop stack).head? = stack.head? := by
  cases stack <;> rfl

namespace GraphicsState

/-- A text object that cannot be begun or ended leaves everything as it is. -/
def track (g : GraphicsState) : Tracking → GraphicsState
  | .beginText => g.beginText.toOption.getD g
  | .endText => g.endText.toOption.getD g
  | .setFont font => g.setFont font
  | .setSpace use space => use.setSpace g space
  | .save => g.save
  | .restore => g.restore

def trackAll (g : GraphicsState) (operations : List Tracking) : GraphicsState :=
  operations.foldl track g

/-- The three stacks without so many places on top of each. -/
def below (g : GraphicsState) (count : Nat) : List Font × List ColorSpace × List ColorSpace :=
  (g.fonts.drop count, g.strokingSpaces.drop count, g.fillingSpaces.drop count)

/-- The states differ in nothing but whether a text object is open. -/
structure SameStacks (g other : GraphicsState) : Prop where
  fonts : g.fonts = other.fonts
  strokingSpaces : g.strokingSpaces = other.strokingSpaces
  fillingSpaces : g.fillingSpaces = other.fillingSpaces

/-- The states have the same current font and the same current colour spaces. -/
structure SameCurrent (g other : GraphicsState) : Prop where
  font : g.font? = other.font?
  strokingSpace : g.strokingSpace? = other.strokingSpace?
  fillingSpace : g.fillingSpace? = other.fillingSpace?

variable {g other : GraphicsState}

theorem sameStacks_of_below (same : g.below 0 = other.below 0) : g.SameStacks other := by
  simp only [below, List.drop_zero, Prod.mk.injEq] at same
  exact ⟨same.1, same.2.1, same.2.2⟩

theorem SameStacks.current (same : g.SameStacks other) : g.SameCurrent other :=
  ⟨congrArg List.head? same.fonts, congrArg List.head? same.strokingSpaces,
    congrArg List.head? same.fillingSpaces⟩

@[simp]
theorem trackAll_nil (g : GraphicsState) : g.trackAll [] = g := rfl

@[simp]
theorem trackAll_cons (g : GraphicsState) (operation : Tracking) (rest : List Tracking) :
    g.trackAll (operation :: rest) = (g.track operation).trackAll rest := rfl

theorem trackAll_append (g : GraphicsState) (first second : List Tracking) :
    g.trackAll (first ++ second) = (g.trackAll first).trackAll second := List.foldl_append

theorem SameStacks.refl (g : GraphicsState) : g.SameStacks g := ⟨rfl, rfl, rfl⟩

theorem below_save (g : GraphicsState) (count : Nat) : g.save.below (count + 1) = g.below count := by
  simp only [below, save, drop_duplicateTop]

theorem below_restore (g : GraphicsState) (count : Nat) : g.restore.below count = g.below (count + 1) := by
  simp only [below, restore, List.drop_tail]

/-- Other operations do not reach below the first place. -/
theorem below_track (g : GraphicsState) {operation : Tracking} (count : Nat)
    (level : operation.isSave = false ∧ operation.isRestore = false) :
    (g.track operation).below (count + 1) = g.below (count + 1) := by
  cases operation with
  | save => exact absurd level.1 (by decide)
  | restore => exact absurd level.2 (by decide)
  | beginText =>
    rw [track, beginText]
    split <;> rfl
  | endText =>
    rw [track, endText]
    split <;> rfl
  | setFont font => simp only [track, setFont, below, drop_replaceTop]
  | setSpace use space =>
    cases use <;>
      simp only [track, ColorUse.setSpace, setStrokingSpace, setFillingSpace, below, drop_replaceTop]

/-- What lies below the states in use stays, and lies below those that are left. -/
theorem below_trackAll (g : GraphicsState) {operations : List Tracking} {count left : Nat}
    (opened : openAfter count operations = some left) :
    (g.trackAll operations).below (left + 1) = g.below (count + 1) := by
  -- By induction on the operations, with the states in use counted along with them.
  induction operations generalizing g count with
  | nil => rw [trackAll_nil, Option.some.inj opened]
  | cons operation rest inductionHypothesis =>
    rw [trackAll_cons]
    cases operation with
    | save => exact (inductionHypothesis g.save opened).trans (below_save g _)
    | restore =>
      cases count with
      | zero => cases opened
      | succ count => exact (inductionHypothesis g.restore opened).trans (below_restore g _)
    | beginText | endText | setFont | setSpace =>
      rw [inductionHypothesis _ opened, below_track g count ⟨rfl, rfl⟩]

theorem sameCurrent_save (g : GraphicsState) : g.save.SameCurrent g := by
  constructor <;> simp only [font?, strokingSpace?, fillingSpace?, save, head?_duplicateTop]

theorem sameStacks_bracket (g : GraphicsState) {inner : List Tracking} (balanced : IsBalanced inner) :
    (g.trackAll (.save :: inner ++ [.restore])).SameStacks g := by
  apply sameStacks_of_below
  rw [List.cons_append, trackAll_cons, trackAll_append]
  calc ((g.save.trackAll inner).restore).below 0
      = (g.save.trackAll inner).below 1 := below_restore _ 0
    _ = g.save.below 1 := below_trackAll _ (isBalanced_iff.mp balanced)
    _ = g.below 0 := below_save g 0

end GraphicsState

end PdfCanvas
