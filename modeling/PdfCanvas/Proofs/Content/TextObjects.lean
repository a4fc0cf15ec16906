import PdfCanvas.Proofs.Content.Fonts
import PdfCanvas.Proofs.Page.Assembly
import PdfCanvas.Proofs.Reader.TextObjects

/-!
# Text objects that are written

The text flag is changed by two calls and looked at by some forty. Along every run it tells whether the
content written so far leaves a text object open, so what a call is refused for is what would be out of
place in the content.
-/

namespace PdfCanvas

open Reader

namespace Operator

theorem needsText_of_mem {o : Operator} (member : o.keyword ∈ textOperators) : o.needsText = true := by
  revert member
  cases o <;> decide

theorem barredFromText_of_mem {o : Operator} (member : o.keyword ∈ pathOperators) :
    o.barredFromText = true := by
  revert member
  cases o <;> decide

theorem needsText_of_fits {o : Operator} {inText : Bool} (fits : o.fits inText = true)
    (needs : o.needsText = true) : inText = true := by
  cases inText with
  | true => rfl
  | false => simp [Operator.fits, needs] at fits

theorem inText_of_barred {o : Operator} {inText : Bool} (fits : o.fits inText = true)
    (barred : o.barredFromText = true) : inText = false := by
  cases inText with
  | false => rfl
  | true => simp [Operator.fits, barred] at fits

end Operator

/-- What an operator has to do with text objects, and with the fonts for the text in them. -/
structure Operator.KeepsText (o : Operator) (before after : GraphicsState) : Prop where
  fits : o.fits before.inText = true
  opens : o = .beginText → before.inText = false ∧ after.inText = true
  closes : o = .endText → before.inText = true ∧ after.inText = false
  others : o ≠ .beginText → o ≠ .endText → after.inText = before.inText
  shows : o = .showText → before.fonts ≠ []
  fonts : o ≠ .selectFont → after.fonts ≠ [] → before.fonts ≠ []

theorem Operator.KeepsText.of_same {o : Operator} {before after : GraphicsState}
    (fits : o.fits before.inText = true) (noText : o ∉ [.beginText, .endText, .showText])
    (flag : after.inText = before.inText) (fonts : after.fonts ≠ [] → before.fonts ≠ []) :
    o.KeepsText before after := by
  simp only [List.mem_cons, List.not_mem_nil, or_false, not_or] at noText
  exact ⟨fits, fun opens => absurd opens noText.1, fun closes => absurd closes noText.2.1,
    fun _ _ => flag, fun shows => absurd shows noText.2.2, fun _ => fonts⟩

theorem duplicateTop_ne_nil {α : Type} {stack : List α} (some : duplicateTop stack ≠ []) : stack ≠ [] := by
  rintro rfl
  exact some rfl

/-- A lawful step writes nothing that can be read, or one operator that keeps to the rules. -/
theorem Step.Lawful.keepsText {subject? : Option (ResourceKind × Object)} {s : DrawingState}
    {step : Step} (lawful : step.Lawful subject? s) :
    (step.emission.instructions = [] ∧ step.state.graphics = s.graphics) ∨
      ∃ o operands, step.emission.instructions = [⟨operands, o⟩] ∧
        o.KeepsText s.graphics step.state.graphics := by
  cases lawful with
  | beginText outside =>
    refine .inr ⟨_, _, rfl, Operator.fits_anywhere _ rfl rfl, fun _ => ⟨outside, rfl⟩, nofun, ?_, nofun,
      fun _ => id⟩
    exact fun other => absurd rfl other
  | endText inside =>
    refine .inr ⟨_, _, rfl, Operator.fits_anywhere _ rfl rfl, nofun, fun _ => ⟨inside, rfl⟩, ?_, nofun,
      fun _ => id⟩
    exact fun _ other => absurd rfl other
  | selectFont =>
    refine .inr ⟨_, _, rfl, Operator.fits_anywhere _ rfl rfl, nofun, nofun, fun _ _ => rfl, nofun, ?_⟩
    exact fun other => absurd rfl other
  | showText subsets inside current =>
    refine .inr ⟨_, _, rfl, Operator.fits_inside inside rfl, nofun, nofun, fun _ _ => rfl, ?_, fun _ => id⟩
    rintro - none
    simp [GraphicsState.font?, none] at current
  | save =>
    exact .inr ⟨_, _, rfl, .of_same (Operator.fits_anywhere _ rfl rfl) (by decide) rfl duplicateTop_ne_nil⟩
  | restore =>
    exact .inr ⟨_, _, rfl, .of_same (Operator.fits_anywhere _ rfl rfl) (by decide) rfl
      List.ne_nil_of_tail_ne_nil⟩
  | selectSpace use =>
    cases use <;>
      exact .inr ⟨_, _, rfl, .of_same (Operator.fits_anywhere _ rfl rfl) (by decide) rfl id⟩
  | @refer o _ _ _ _ reference fits =>
    have noText : o ∉ [.beginText, .endText, .showText] := by
      rintro among
      cases o <;> simp [Operator.isReference] at reference among
    exact .inr ⟨_, _, rfl, .of_same fits noText rfl id⟩
  | beginMarkedWith =>
    exact .inr ⟨_, _, rfl, .of_same (Operator.fits_anywhere _ rfl rfl) (by decide) rfl id⟩
  | @plain o _ plain fits =>
    have noText : o ∉ [.beginText, .endText, .showText] := by
      rintro among
      cases o <;> simp [Operator.isPlain] at plain among
    exact .inr ⟨_, _, rfl, .of_same fits noText rfl id⟩
  | verbatim => exact .inl ⟨rfl, rfl⟩

/-- Content written so far, and what is tracked behind it. -/
structure TracksText (operations : List Operation) (g : GraphicsState) : Prop where
  marks : ∃ closed, textMarks operations = alternatingMarks closed g.inText
  placed : ∀ before operation, before ++ [operation] <+: operations → IsPlaced before operation
  font : g.fonts ≠ [] → ∃ earlier ∈ operations, earlier.operator = "Tf"

namespace TracksText

theorem start : TracksText [] .initial :=
  ⟨⟨0, rfl⟩, fun _ _ before => by simp at before, fun some => absurd rfl some⟩

variable {operations : List Operation} {before after : GraphicsState}

theorem isPlaced (tracks : TracksText operations before) {o : Operator} (operands : List Operand)
    (keeps : o.KeepsText before after) : IsPlaced operations (operationOf ⟨operands, o⟩) := by
  obtain ⟨closed, marks⟩ := tracks.marks
  refine ⟨?_, ?_, ?_⟩
  · intro member
    exact (textIsOpen_iff marks).mpr
      (Operator.needsText_of_fits keeps.fits (Operator.needsText_of_mem member))
  · intro member isOpen
    have outside := Operator.inText_of_barred keeps.fits (Operator.barredFromText_of_mem member)
    rw [(textIsOpen_iff marks).mp isOpen] at outside
    cases outside
  · intro shown
    have shows : o = .showText := by
      change o.keyword = "Tj" at shown
      revert shown
      cases o <;> decide
    exact tracks.font (keeps.shows shows)

theorem marks_write (tracks : TracksText operations before) {o : Operator} (operands : List Operand)
    (keeps : o.KeepsText before after) :
    ∃ closed, textMarks (operations ++ [operationOf ⟨operands, o⟩]) =
      alternatingMarks closed after.inText := by
  obtain ⟨closed, marks⟩ := tracks.marks
  rw [textMarks_append, marks]
  by_cases opens : o = .beginText
  · obtain ⟨outside, inside⟩ := keeps.opens opens
    subst opens
    rw [outside, inside]
    exact ⟨closed, List.append_assoc ..⟩
  by_cases closes : o = .endText
  · obtain ⟨inside, outside⟩ := keeps.closes closes
    subst closes
    rw [inside, outside]
    exact ⟨closed + 1, alternatingMarks_close closed⟩
  · rw [keeps.others opens closes]
    refine ⟨closed, ?_⟩
    have unmarked : textMarks [operationOf ⟨operands, o⟩] = [] := by
      cases o <;> first | rfl | contradiction
    rw [unmarked, List.append_nil]

theorem write (tracks : TracksText operations before) {o : Operator} (operands : List Operand)
    (keeps : o.KeepsText before after) :
    TracksText (operations ++ [operationOf ⟨operands, o⟩]) after := by
  refine ⟨tracks.marks_write operands keeps, ?_, ?_⟩
  · intro front operation place
    rcases List.prefix_concat_iff.mp place with here | earlier
    · obtain ⟨rfl, same⟩ := List.append_inj' here rfl
      cases same
      exact tracks.isPlaced operands keeps
    · exact tracks.placed front operation earlier
  · intro some
    by_cases selects : o = .selectFont
    · subst selects
      exact ⟨_, List.mem_append_right _ List.mem_cons_self, rfl⟩
    · obtain ⟨earlier, member, selected⟩ := tracks.font (keeps.fonts selects some)
      exact ⟨earlier, List.mem_append_left _ member, selected⟩

end TracksText

/-! ## Runs -/

theorem Step.Lawful.tracksText {subject? : Option (ResourceKind × Object)} {s : DrawingState}
    {step : Step} (lawful : step.Lawful subject? s) {operations : List Operation}
    (tracks : TracksText operations s.graphics) :
    TracksText (operations ++ step.emission.instructions.map operationOf) step.state.graphics := by
  rcases lawful.keepsText with ⟨silent, same⟩ | ⟨o, operands, written, keeps⟩
  · rw [silent, same, List.map_nil, List.append_nil]
    exact tracks
  · rw [written]
    exact tracks.write operands keeps

theorem Plan.Lawful.tracksText {subjects : Option (ResourceKind × Object) → Prop} {s : DrawingState}
    {plan : Plan} (lawful : plan.Lawful subjects s) {operations : List Operation}
    (tracks : TracksText operations s.graphics) :
    TracksText (operations ++ plan.instructions.map operationOf) (plan.outcome s).graphics := by
  induction lawful generalizing operations with
  | nil =>
    rw [Plan.instructions, List.flatMap_nil, List.map_nil, List.append_nil]
    exact tracks
  | cons _ first _ inductionHypothesis =>
    rw [Plan.instructions, List.flatMap_cons, List.map_append, ← List.append_assoc]
    exact inductionHypothesis (first.tracksText tracks)

namespace ContentStream

theorem close_eq {c : ContentStream} (flushes : c.sink.refusesFlush = false) :
    c.close = if c.state.graphics.inText then .error (.sequence .textLeftOpen)
      else .ok c.sink.written := by
  cases inText : c.state.graphics.inText with
  | false => exact close_of_outside inText flushes
  | true =>
    rw [close, inText]
    rfl

/-- In what a run has written text objects follow one another and never nest. Text is placed and shown
inside them, with a font selected before, and paths and objects are drawn outside. The content can be closed
exactly where the last text object has ended. -/
theorem text_objects_are_kept (resources : Resources) (distinct : resources.Distinct)
    (subsets : Subsets) (places : Nat) (calls : List Call)
    (drawing : ∀ call ∈ calls, call.isDrawing = true) :
    ∃ operations,
      readOperations ((start .unlimited resources subsets places).performAll calls).sink.written =
        some operations ∧
      (∃ count, textMarks operations <+: (List.replicate count ["BT", "ET"]).flatten) ∧
      (∀ before operation, before ++ [operation] <+: operations → IsPlaced before operation) ∧
      ((∃ bytes, ((start .unlimited resources subsets places).performAll calls).close = .ok bytes) ↔
        ¬ TextIsOpen operations) := by
  let s := (start .unlimited resources subsets places).state
  let plan := s.planAll places calls
  have lawful : plan.Lawful _ s := DrawingState.lawful_planAll distinct places calls
  have tracks := lawful.tracksText TracksText.start
  rw [List.nil_append] at tracks
  obtain ⟨closed, marks⟩ := tracks.marks
  refine ⟨_, readOperations_performAll resources subsets places drawing, ⟨closed + 1, ?_⟩,
    tracks.placed, ?_⟩
  · rw [marks]
    exact alternatingMarks_prefix closed _
  · rw [performAll_of_unlimited rfl, close_eq rfl]
    refine Iff.trans ?_ (not_congr (textIsOpen_iff marks)).symm
    change (∃ bytes, (if (plan.outcome s).graphics.inText then _ else _) = Except.ok bytes) ↔ _
    cases (plan.outcome s).graphics.inText <;> simp

/-- A stroke inside a text object, which is refused, and an `ET` too many. -/
def strokedText : List Call :=
  [.setFont upright .zero, .beginText, .paint .stroke, .showText "e", .endText, .endText]

theorem stroke_is_kept_out_of_text :
    ∃ operations,
      readOperations ((start .unlimited .empty ⟨[]⟩ 6).performAll strokedText).sink.written =
        some operations ∧
      operations.map (·.operator) = ["Tf", "BT", "Tj", "ET"] ∧
      (∀ before operation, before ++ [operation] <+: operations → IsPlaced before operation) ∧
      ∃ bytes, ((start .unlimited .empty ⟨[]⟩ 6).performAll strokedText).close = .ok bytes := by
  obtain ⟨operations, read, _, placed, closes⟩ :=
    text_objects_are_kept .empty Resources.distinct_empty ⟨[]⟩ 6 strokedText (by decide)
  have listed : operations.map (·.operator) = ["Tf", "BT", "Tj", "ET"] := by
    rw [readOperations_performAll _ _ _ (by decide)] at read
    rw [← Option.some.inj read]
    rfl
  refine ⟨operations, read, listed, placed, closes.mpr ?_⟩
  rw [TextIsOpen, textMarks, listed]
  decide

end ContentStream

end PdfCanvas
