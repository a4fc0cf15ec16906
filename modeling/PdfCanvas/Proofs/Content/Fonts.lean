import Mathlib.Data.List.Forall2
import PdfCanvas.Proofs.Content.Grammar
import PdfCanvas.Proofs.Content.Steps
import PdfCanvas.Proofs.Reader.Fonts

/-!
# The font that text is shown in

Text is encoded for the font that is tracked as the current one, and a reader shows it in the font that it
has selected last. The two are the same although their stacks are not: nothing is tracked of a state that
is saved before a font was selected, and a tracked font is given up where the reader has nothing to restore.
What holds throughout is that the tracked fonts are those on top of the reader's stack.
-/

namespace PdfCanvas

open Reader

theorem Resources.Names.get?_reference {r : Resources} {kind : ResourceKind} {name : String}
    {target : Ref} (names : r.Names kind name (.reference target)) :
    r.get? kind name = some (.reference target) := by
  obtain ⟨bound, found, rfl | equal⟩ := names
  · exact found
  · cases bound with
    | reference other =>
      rw [Object.same, beq_iff_eq] at equal
      rw [found, equal]
    | _ => simp [Object.same] at equal

/-! ## Stacks -/

/-- A reader has a font under a name that stands for a tracked one. -/
def Selects (r : Resources) (selected : Option Bytes) (font : Font) : Prop :=
  ∃ name, selected = some (utf8 name) ∧ r.Names .font name font.toObject

namespace Reader.FontReader

/-- The tracked fonts are those on top of the reader's stack, which may be deeper. -/
def Mirrors (reader : FontReader) (s : DrawingState) : Prop :=
  ∃ top below, reader.stack = top ++ below ∧ List.Forall₂ (Selects s.resources) top s.graphics.fonts

variable {reader : FontReader} {s : DrawingState}

theorem Mirrors.keep {after : DrawingState} (mirrors : reader.Mirrors s)
    (same : after.graphics.fonts = s.graphics.fonts)
    (further : s.resources.Extends after.resources) : reader.Mirrors after := by
  obtain ⟨top, below, stack, selected⟩ := mirrors
  refine ⟨top, below, stack, ?_⟩
  rw [same]
  refine selected.imp ?_
  rintro _ font ⟨name, spelled, names⟩
  exact ⟨name, spelled, names.extend further⟩

theorem Mirrors.save (mirrors : reader.Mirrors s) :
    reader.save.Mirrors { s with graphics := s.graphics.save } := by
  obtain ⟨top, below, stack, selected⟩ := mirrors
  change ∃ top below, reader.current :: reader.stack = top ++ below ∧
    List.Forall₂ (Selects s.resources) top (duplicateTop s.graphics.fonts)
  generalize s.graphics.fonts = fonts at selected
  cases selected with
  | nil => exact ⟨[], reader.current :: reader.stack, rfl, .nil⟩
  | cons first deeper =>
    obtain ⟨rfl, -⟩ := List.cons.inj stack
    exact ⟨_, below, congrArg (reader.current :: ·) stack, .cons first (.cons first deeper)⟩

theorem Mirrors.restore (mirrors : reader.Mirrors s) :
    reader.restore.Mirrors { s with graphics := s.graphics.restore } := by
  obtain ⟨top, below, stack, selected⟩ := mirrors
  change ∃ top below, reader.restore.stack = top ++ below ∧
    List.Forall₂ (Selects s.resources) top s.graphics.fonts.tail
  generalize s.graphics.fonts = fonts at selected
  cases selected with
  | nil => exact ⟨[], reader.restore.stack, rfl, .nil⟩
  | @cons _ _ rest _ _ deeper =>
    obtain ⟨-, saved⟩ := List.cons.inj stack
    obtain ⟨current, others⟩ := reader
    -- With nothing saved the reader keeps its font, which was the only one tracked.
    cases others with
    | nil =>
      obtain ⟨rfl, rfl⟩ := List.append_eq_nil_iff.mp saved.symm
      exact ⟨[], [current], rfl, deeper⟩
    | cons last older => exact ⟨rest, below, saved, deeper⟩

theorem Mirrors.select {font : Font} {name : String} {resources : Resources} {subsets : Subsets}
    (mirrors : reader.Mirrors s) (further : s.resources.Extends resources)
    (names : resources.Names .font name font.toObject) :
    (reader.select (utf8 name)).Mirrors ⟨s.graphics.setFont font, resources, subsets⟩ := by
  have kept : reader.Mirrors ⟨s.graphics, resources, subsets⟩ := mirrors.keep rfl further
  obtain ⟨top, below, stack, selected⟩ := kept
  change ∃ top below, some (utf8 name) :: reader.saved = top ++ below ∧
    List.Forall₂ (Selects resources) top (font :: s.graphics.fonts.tail)
  have first : Selects resources (some (utf8 name)) font := ⟨name, rfl, names⟩
  generalize s.graphics.fonts = fonts at selected
  cases selected with
  | nil => exact ⟨[_], reader.saved, rfl, .cons first .nil⟩
  | cons _ deeper =>
    obtain ⟨-, saved⟩ := List.cons.inj stack
    exact ⟨_, below, congrArg (some (utf8 name) :: ·) saved, .cons first deeper⟩

/-- Where a font is tracked as the current one, the reader has selected it. -/
theorem Mirrors.current {font : Font} (mirrors : reader.Mirrors s)
    (tracked : s.graphics.font? = some font) : Selects s.resources reader.current font := by
  obtain ⟨top, below, stack, selected⟩ := mirrors
  obtain ⟨others, fonts⟩ := List.head?_eq_some_iff.mp tracked
  rw [fonts] at selected
  cases selected with
  | cons first _ =>
    obtain ⟨rfl, -⟩ := List.cons.inj stack
    exact first

end Reader.FontReader

open Reader.FontReader

/-! ## Steps -/

theorem Step.Lawful.mirrorsFonts {subject? : Option (ResourceKind × Object)} {s : DrawingState}
    {step : Step} (lawful : step.Lawful subject? s) {reader : FontReader}
    (mirrors : reader.Mirrors s) :
    (reader.readAll (step.emission.instructions.map operationOf)).Mirrors step.state := by
  have further := lawful.binds.extension
  cases lawful with
  | selectFont _ _ _ _ names => exact mirrors.select further names
  | @save resources =>
    have kept : reader.Mirrors { s with resources } := mirrors.keep rfl further
    exact kept.save
  | restore => exact mirrors.restore
  | beginText | endText | showText | beginMarkedWith => exact mirrors.keep rfl further
  | selectSpace use => cases use <;> exact mirrors.keep rfl further
  | @refer o _ _ name _ reference =>
    have other : o ∉ [.save, .restore, .selectFont] := by
      rintro among
      cases o <;> simp [Operator.isReference] at reference among
    change (reader.read (operationOf ⟨[.name name], o⟩)).Mirrors _
    rw [read_other other]
    exact mirrors.keep rfl further
  | @plain o operands plain =>
    have other : o ∉ [.save, .restore, .selectFont] := by
      rintro among
      cases o <;> simp [Operator.isPlain] at plain among
    change (reader.read (operationOf ⟨operands, o⟩)).Mirrors _
    rw [read_other other]
    exact mirrors
  | verbatim => exact mirrors

theorem Plan.Lawful.mirrorsFonts {subjects : Option (ResourceKind × Object) → Prop}
    {s : DrawingState} {plan : Plan} (lawful : plan.Lawful subjects s) {reader : FontReader}
    (mirrors : reader.Mirrors s) :
    (reader.readAll (plan.instructions.map operationOf)).Mirrors (plan.outcome s) := by
  -- By induction on the steps, each read by where the ones before have left the reader.
  induction lawful generalizing reader with
  | nil => exact mirrors
  | cons _ first _ inductionHypothesis =>
    rw [Plan.instructions, List.flatMap_cons, List.map_append, readAll_append]
    exact inductionHypothesis (first.mirrorsFonts mirrors)

/-! ## Text -/

/-- Text that is accepted is written in the codes of the font that is tracked. -/
theorem DrawingState.of_planText {s : DrawingState} {text : String} {plan : Plan}
    (planned : s.planText text = .ok plan) :
    ∃ font codes, s.graphics.font? = some font ∧ font.encode text = .ok codes ∧
      plan = [(s.recordText font text).step .showText [.string codes]] := by
  obtain ⟨_, _, planned⟩ := bind_eq_ok.mp planned
  obtain ⟨⟨font, codes⟩, encoded, made⟩ := bind_eq_ok.mp planned
  cases made
  obtain ⟨tracked, encodes⟩ := of_encodeText encoded
  exact ⟨font, codes, tracked, encodes, rfl⟩

namespace ContentStream

/-- Whenever text is shown, a reader has selected a font. The name it knows it by stands, then and ever
after, for the tracked font, and the string that it shows is the text in the codes of this font. -/
theorem text_is_shown_in_the_tracked_font (resources : Resources) (distinct : resources.Distinct)
    (subsets : Subsets) (places : Nat) (before after : List Call) (text : String)
    (drawing : ∀ call ∈ before ++ .showText text :: after, call.isDrawing = true)
    (accepted : (((start .unlimited resources subsets places).performAll before).perform
      (.showText text)).1 = .ok ()) :
    ∃ operations later font codes name,
      ((start .unlimited resources subsets places).performAll before).state.graphics.font? =
        some font ∧
      font.encode text = .ok codes ∧
      readOperations ((start .unlimited resources subsets places).performAll
        (before ++ [.showText text])).sink.written =
          some (operations ++ [⟨[.string codes], "Tj"⟩]) ∧
      readOperations ((start .unlimited resources subsets places).performAll
        (before ++ .showText text :: after)).sink.written =
          some (operations ++ ⟨[.string codes], "Tj"⟩ :: later) ∧
      (FontReader.start.readAll operations).current = some (utf8 name) ∧
      ((start .unlimited resources subsets places).performAll
        (before ++ .showText text :: after)).state.resources.get? .font name =
          some (.reference font.target) := by
  let s := (start .unlimited resources subsets places).state
  let front := s.planAll places before
  let here := front.outcome s
  rw [performAll_of_unlimited rfl before] at accepted ⊢
  cases planned : (Call.showText text).plan places here with
  | error e =>
    rw [perform_of_refusal planned] at accepted
    cases accepted
  | ok plan =>
    obtain ⟨font, codes, tracked, encodes, rfl⟩ := DrawingState.of_planText planned
    let shown := here.recordText font text
    have operations (others : List Call) :
        (s.planAll places (before ++ .showText text :: others)).instructions.map operationOf =
          front.instructions.map operationOf ++
            ⟨[.string codes], "Tj"⟩ ::
              (shown.planAll places others).instructions.map operationOf := by
      rw [DrawingState.planAll_of_plan planned, Plan.instructions_append, List.map_append]
      rfl
    have drawingNow : ∀ call ∈ before ++ [.showText text], call.isDrawing = true := by
      intro call member
      refine drawing call ?_
      rw [List.append_cons]
      exact List.mem_append_left after member
    -- the mirror holds where the text is written, and what is bound there stays bound
    have lawful : front.Lawful _ s := DrawingState.lawful_planAll distinct places before
    have mirrors : FontReader.start.Mirrors s := ⟨[], [none], rfl, .nil⟩
    obtain ⟨name, selected, names⟩ := (lawful.mirrorsFonts mirrors).current tracked
    have lawfulAfter : (here.planAll places (.showText text :: after)).Lawful _ here :=
      DrawingState.lawful_planAll (lawful.distinct distinct) places _
    refine ⟨front.instructions.map operationOf,
      (shown.planAll places after).instructions.map operationOf, font, codes, name, tracked, encodes,
      ?_, ?_, selected, ?_⟩
    · rw [readOperations_performAll resources subsets places drawingNow]
      exact congrArg some (operations [])
    · rw [readOperations_performAll resources subsets places drawing]
      exact congrArg some (operations after)
    · rw [performAll_of_unlimited rfl]
      refine (names.extend ?_).get?_reference
      change here.resources.Extends ((s.planAll places _).outcome s).resources
      rw [DrawingState.planAll_append, Plan.outcome_append]
      exact lawfulAfter.extension

def upright : Font := ⟨⟨4, 0⟩, "Courier", .winAnsi, false⟩

def slanted : Font := ⟨⟨5, 0⟩, "Courier-Oblique", .winAnsi, true⟩

/-- Text in the first of two fonts, after a `Q` inside the text object, and with a `Q` too many before. -/
def slantedAside : List Call :=
  [.restore, .setFont upright .zero, .save, .setFont slanted .zero, .beginText, .restore]

/-- The reader is back at the upright font, under its name in the resources. -/
theorem text_after_restore_is_shown_in_the_tracked_font :
    ∃ operations name,
      readOperations ((start .unlimited .empty ⟨[]⟩ 6).performAll
        (slantedAside ++ [.showText "e"])).sink.written =
          some (operations ++ [⟨[.string [0x65]], "Tj"⟩]) ∧
      (FontReader.start.readAll operations).current = some (utf8 name) ∧
      ((start .unlimited .empty ⟨[]⟩ 6).performAll
        (slantedAside ++ [.showText "e"])).state.resources.get? .font name =
          some (.reference ⟨4, 0⟩) := by
  obtain ⟨operations, _, font, codes, name, tracked, encodes, read, _, selected, found⟩ :=
    text_is_shown_in_the_tracked_font .empty Resources.distinct_empty ⟨[]⟩ 6 slantedAside [] "e"
      (by decide) rfl
  obtain rfl : upright = font := Option.some.inj tracked
  obtain rfl : [0x65] = codes := Except.ok.inj encodes
  exact ⟨operations, name, read, selected, found⟩

end ContentStream

end PdfCanvas
