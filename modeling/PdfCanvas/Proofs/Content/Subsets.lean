import PdfCanvas.Proofs.Content.Fonts
import PdfCanvas.Proofs.Font.Subsets

/-!
# What content streams record of the use of fonts

A content stream notes which fonts are selected and which characters are shown in them, for the fonts that
are to be cut down. The notes outlive the stream and are lent to the next one. In the end they hold exactly
what the accepted calls of all streams have done, where the font of a text is told from the selections, the
saves and the restores before it, as a reader of the content follows them.
-/

namespace PdfCanvas

/-! ## Uses of fonts in calls -/

/-- The font that text is shown in, and the fonts that are saved. -/
structure FontStack where
  current : Option Font
  saved : List (Option Font)

namespace FontStack

def start : FontStack := ⟨none, []⟩

/-- What a call that is accepted does to the font. -/
def follow (stack : FontStack) : Call → FontStack
  | .setFont font _ => { stack with current := some font }
  | .save => { stack with saved := stack.current :: stack.saved }
  | .restore =>
    match stack.saved with
    | [] => stack
    | font :: saved => ⟨font, saved⟩
  | _ => stack

/-- What a call that is accepted does with a font. -/
def use? (stack : FontStack) : Call → Option FontUse
  | .setFont font _ => some (.selected font)
  | .showText text => stack.current.map (.shown · text)
  | _ => none

/-- What accepted calls do with fonts. -/
def uses (stack : FontStack) : List Call → List FontUse
  | [] => []
  | call :: rest => (stack.use? call).toList ++ (stack.follow call).uses rest

theorem current_or_saved_of_follow {stack : FontStack} {call : Call} {font : Font}
    (known : some font ∈ (stack.follow call).current :: (stack.follow call).saved) :
    stack.use? call = some (.selected font) ∨ some font ∈ stack.current :: stack.saved := by
  obtain ⟨current, saved⟩ := stack
  cases call with
  | setFont other =>
    rcases List.mem_cons.mp known with same | deeper
    · exact .inl (congrArg (Option.map FontUse.selected) same.symm)
    · exact .inr (List.mem_cons_of_mem _ deeper)
  | save =>
    rcases List.mem_cons.mp known with same | deeper
    · exact .inr (same ▸ List.mem_cons_self)
    · exact .inr deeper
  | restore =>
    cases saved with
    | nil => exact .inr known
    | cons => exact .inr (List.mem_cons_of_mem _ known)
  | _ => exact .inr known

/-- A text is only shown in a font that was selected before. -/
theorem prepared_uses {stack : FontStack} {before : List FontUse} (prepared : Prepared before)
    (selected : ∀ font, some font ∈ stack.current :: stack.saved → .selected font ∈ before)
    (calls : List Call) : Prepared (before ++ stack.uses calls) := by
  -- By induction on the calls: what is current or saved was selected in the calls so far.
  induction calls generalizing stack before with
  | nil =>
    rw [uses, List.append_nil]
    exact prepared
  | cons call rest inductionHypothesis =>
    rw [uses, ← List.append_assoc]
    refine inductionHypothesis ?_ fun font known => ?_
    · cases used : stack.use? call with
      | none =>
        rw [Option.toList_none, List.append_nil]
        exact prepared
      | some use =>
        refine prepared.snoc fun font text shown => selected font ?_
        rw [shown] at used
        cases call with
        | showText other =>
          obtain ⟨_, current, same⟩ := Option.map_eq_some_iff.mp used
          cases same
          rw [current]
          exact List.mem_cons_self
        | _ => cases used
    · rcases current_or_saved_of_follow known with used | known
      · rw [used]
        exact List.mem_append_right before List.mem_cons_self
      · exact List.mem_append_left _ (selected font known)

theorem prepared_uses_start (calls : List Call) : Prepared (start.uses calls) := by
  have nothing (font : Font) (known : some font ∈ start.current :: start.saved) :
      FontUse.selected font ∈ [] := by
    cases List.mem_singleton.mp known
  exact prepared_uses .nil nothing calls

/-- The tracked fonts are the current one and those that were saved last. -/
def Tracks (stack : FontStack) (s : DrawingState) : Prop :=
  s.graphics.fonts.map some <+: stack.current :: stack.saved

variable {stack : FontStack} {s : DrawingState}

theorem Tracks.current (tracked : stack.Tracks s) {font : Font}
    (current : s.graphics.font? = some font) : stack.current = some font := by
  obtain ⟨others, fonts⟩ := List.head?_eq_some_iff.mp current
  rw [Tracks, fonts] at tracked
  exact (List.cons_prefix_cons.mp tracked).1.symm

theorem Tracks.saved (tracked : stack.Tracks s) :
    s.graphics.fonts.tail.map some <+: stack.saved := by
  rw [Tracks] at tracked
  generalize s.graphics.fonts = fonts at tracked
  cases fonts with
  | nil => exact List.nil_prefix
  | cons => exact (List.cons_prefix_cons.mp tracked).2

theorem Tracks.select (tracked : stack.Tracks s) (font : Font) :
    some font :: s.graphics.fonts.tail.map some <+: some font :: stack.saved :=
  List.cons_prefix_cons.mpr ⟨rfl, tracked.saved⟩

theorem Tracks.save (tracked : stack.Tracks s) :
    (duplicateTop s.graphics.fonts).map some <+: stack.current :: stack.current :: stack.saved := by
  rw [Tracks] at tracked
  generalize s.graphics.fonts = fonts at tracked
  cases fonts with
  | nil => exact List.nil_prefix
  | cons =>
    refine List.cons_prefix_cons.mpr ⟨(List.cons_prefix_cons.mp tracked).1, tracked⟩

theorem Tracks.restore (tracked : stack.Tracks s) :
    s.graphics.fonts.tail.map some <+:
      (stack.follow .restore).current :: (stack.follow .restore).saved := by
  have saved := tracked.saved
  obtain ⟨current, _ | ⟨font, others⟩⟩ := stack
  · rw [List.prefix_nil.mp saved]
    exact List.nil_prefix
  · exact saved

end FontStack

/-! ## Calls -/

/-- A plan leaves the tracked fonts and what is recorded of fonts. -/
structure Plan.KeepsFonts (plan : Plan) (s : DrawingState) : Prop where
  fonts : (plan.outcome s).graphics.fonts = s.graphics.fonts
  subsets : (plan.outcome s).subsets = s.subsets

namespace DrawingState

variable {s : DrawingState} {places : Nat} {plan : Plan}

theorem keepsFonts_planReals {o : Operator} {values : List Single}
    (planned : s.planReals places o values = .ok plan) : plan.KeepsFonts s := by
  obtain ⟨numerals, _, made⟩ := bind_eq_ok.mp planned
  obtain rfl := Except.ok.inj made
  exact ⟨rfl, rfl⟩

theorem keepsFonts_selectColorSpace (use : ColorUse) (space : ColorSpace) :
    Plan.KeepsFonts [s.selectColorSpace use space] s := by
  unfold selectColorSpace bindColorSpace
  by_cases fixed : space.hasFixedName = true
  · rw [if_pos fixed]
    cases use <;> exact ⟨rfl, rfl⟩
  · rw [if_neg fixed]
    cases use <;> exact ⟨rfl, rfl⟩

theorem keepsFonts_planColor {use : ColorUse} {color : Color}
    (planned : s.planColor places use color = .ok plan) : plan.KeepsFonts s := by
  obtain ⟨_, _, planned⟩ := bind_eq_ok.mp planned
  obtain ⟨numerals, _, planned⟩ := bind_eq_ok.mp planned
  split at planned
  · obtain rfl := Except.ok.inj planned
    exact ⟨rfl, rfl⟩
  · obtain rfl := Except.ok.inj planned
    exact ⟨(s.keepsFonts_selectColorSpace use color.space).fonts,
      (s.keepsFonts_selectColorSpace use color.space).subsets⟩

theorem keepsFonts_planPolygon {xs ys : List Single}
    (planned : s.planPolygon places xs ys = .ok plan) : plan.KeepsFonts s := by
  obtain ⟨_, _, planned⟩ := bind_eq_ok.mp planned
  obtain ⟨columns, _, planned⟩ := bind_eq_ok.mp planned
  obtain ⟨rows, _, made⟩ := bind_eq_ok.mp planned
  obtain rfl := Except.ok.inj made
  constructor <;> rw [Plan.outcome_append, outcome_planOutline] <;> rfl

theorem keepsFonts_planImage {image : Object} {corner : Point} {width height : Single}
    (planned : s.planImage places image corner width height = .ok plan) : plan.KeepsFonts s := by
  obtain ⟨_, _, planned⟩ := bind_eq_ok.mp planned
  obtain ⟨placed, planned, made⟩ := bind_eq_ok.mp planned
  obtain ⟨numerals, _, single⟩ := bind_eq_ok.mp planned
  obtain rfl := Except.ok.inj single
  obtain rfl := Except.ok.inj made
  refine ⟨?_, rfl⟩
  change (duplicateTop s.graphics.fonts).tail = s.graphics.fonts
  cases s.graphics.fonts <;> rfl

theorem subsets_registerFont (s : DrawingState) (font : Font) :
    s.registerFont font = { s with subsets := s.subsets.record (.selected font) } := by
  rw [registerFont, Subsets.record]
  split <;> rfl

theorem subsets_recordText (s : DrawingState) (font : Font) (text : String) :
    s.recordText font text = { s with subsets := s.subsets.record (.shown font text) } := by
  rw [recordText, Subsets.record]
  split <;> rfl

end DrawingState

/-- The calls that do something with a font, or with the fonts that are saved. -/
def Call.isAboutFonts : Call → Bool
  | .setFont .. | .showText _ | .save | .restore => true
  | _ => false

theorem Call.keepsFonts_of_plan {places : Nat} {s : DrawingState} {call : Call} {plan : Plan}
    (other : call.isAboutFonts = false) (planned : call.plan places s = .ok plan) :
    plan.KeepsFonts s := by
  cases call with
  | setFont | showText | save | restore => cases other
  | beginText =>
    obtain ⟨graphics, allowed, made⟩ := bind_eq_ok.mp planned
    obtain rfl := Except.ok.inj made
    obtain ⟨-, rfl⟩ := GraphicsState.of_beginText allowed
    exact ⟨rfl, rfl⟩
  | endText =>
    obtain ⟨graphics, allowed, made⟩ := bind_eq_ok.mp planned
    obtain rfl := Except.ok.inj made
    obtain ⟨-, rfl⟩ := GraphicsState.of_endText allowed
    exact ⟨rfl, rfl⟩
  | setLeading | transform => exact DrawingState.keepsFonts_planReals planned
  | moveLine | setTextMatrix | setRgbLevels | setCmykLevels | setGrayLevel | setCmyk | setGray
  | addRectangle | curve | curveFromCurrent | curveToFinal | moveTo | lineTo | setLineWidth
  | setMiterLimit =>
    obtain ⟨_, _, planned⟩ := bind_eq_ok.mp planned
    exact DrawingState.keepsFonts_planReals planned
  | setParameters | beginMarked | beginMarkedWith | endMarked | appendText | appendBytes =>
    obtain rfl := Except.ok.inj planned
    exact ⟨rfl, rfl⟩
  | setColorSpace use space =>
    obtain rfl := Except.ok.inj planned
    exact s.keepsFonts_selectColorSpace use space
  | setColor => exact DrawingState.keepsFonts_planColor planned
  | addPolygon =>
    obtain ⟨_, _, planned⟩ := bind_eq_ok.mp planned
    exact DrawingState.keepsFonts_planPolygon planned
  | nextLine | closePath | paint | fillBy | shade | drawForm =>
    obtain ⟨_, _, made⟩ := bind_eq_ok.mp planned
    obtain rfl := Except.ok.inj made
    exact ⟨rfl, rfl⟩
  | clip rule =>
    cases rule with
    | nonZero | evenOdd =>
      obtain ⟨_, _, made⟩ := bind_eq_ok.mp planned
      obtain rfl := Except.ok.inj made
      exact ⟨rfl, rfl⟩
  | setLineJoin | setLineCap =>
    obtain ⟨_, _, planned⟩ := bind_eq_ok.mp planned
    obtain ⟨_, _, made⟩ := bind_eq_ok.mp planned
    obtain rfl := Except.ok.inj made
    exact ⟨rfl, rfl⟩
  | setDash =>
    obtain ⟨_, _, planned⟩ := bind_eq_ok.mp planned
    obtain ⟨_, _, planned⟩ := bind_eq_ok.mp planned
    obtain ⟨_, _, made⟩ := bind_eq_ok.mp planned
    obtain rfl := Except.ok.inj made
    exact ⟨rfl, rfl⟩
  | drawImage | drawImageAt =>
    obtain ⟨_, _, planned⟩ := bind_eq_ok.mp planned
    exact DrawingState.keepsFonts_planImage planned

namespace FontStack

theorem of_isAboutFonts_eq_false (stack : FontStack) {call : Call}
    (other : call.isAboutFonts = false) : stack.follow call = stack ∧ stack.use? call = none := by
  cases call with
  | setFont | showText | save | restore => cases other
  | _ => exact ⟨rfl, rfl⟩

/-- After an accepted call the fonts are tracked again, and what it has done with a font is on record. -/
theorem Tracks.of_plan {stack : FontStack} {s : DrawingState} {places : Nat} {call : Call}
    {plan : Plan} (tracked : stack.Tracks s) (planned : call.plan places s = .ok plan) :
    (stack.follow call).Tracks (plan.outcome s) ∧
      (plan.outcome s).subsets = (stack.use? call).toList.foldl Subsets.record s.subsets := by
  cases about : call.isAboutFonts with
  | false =>
    have kept := Call.keepsFonts_of_plan about planned
    obtain ⟨same, unused⟩ := stack.of_isAboutFonts_eq_false about
    rw [same, unused, Tracks, kept.fonts]
    exact ⟨tracked, kept.subsets⟩
  | true =>
    cases call with
    | setFont font size =>
      obtain ⟨numerals, _, made⟩ := bind_eq_ok.mp planned
      obtain rfl := Except.ok.inj made
      rw [DrawingState.subsets_registerFont]
      exact ⟨tracked.select font, rfl⟩
    | showText text =>
      obtain ⟨font, codes, current, -, rfl⟩ := DrawingState.of_planText planned
      rw [DrawingState.subsets_recordText]
      have shown : stack.use? (.showText text) = some (.shown font text) := by
        rw [use?, tracked.current current, Option.map_some]
      exact ⟨tracked, by rw [shown]; rfl⟩
    | save =>
      obtain rfl := Except.ok.inj planned
      exact ⟨tracked.save, rfl⟩
    | restore =>
      obtain rfl := Except.ok.inj planned
      exact ⟨tracked.restore, rfl⟩
    | _ => cases about

end FontStack

/-! ## Runs -/

namespace ContentStream

/-- The calls that are accepted, when they are made one after the other. -/
def accepted (c : ContentStream) : List Call → List Call
  | [] => []
  | call :: rest =>
    match c.perform call with
    | (.ok (), after) => call :: after.accepted rest
    | (.error _, after) => after.accepted rest

/-- A run records what its accepted calls do with fonts. -/
theorem subsets_performAll {c : ContentStream} (unlimited : c.sink.capacity = none)
    {stack : FontStack} (tracked : stack.Tracks c.state) (calls : List Call) :
    (c.performAll calls).state.subsets =
      (stack.uses (c.accepted calls)).foldl Subsets.record c.state.subsets := by
  induction calls generalizing c stack with
  | nil => rfl
  | cons call rest inductionHypothesis =>
    rw [performAll, accepted]
    cases planned : call.plan c.places c.state with
    | error e =>
      rw [perform_of_refusal planned]
      exact inductionHypothesis unlimited tracked
    | ok plan =>
      obtain ⟨trackedAfter, recorded⟩ := tracked.of_plan planned
      rw [perform_of_plan unlimited planned]
      dsimp only
      rw [FontStack.uses, List.foldl_append, ← recorded]
      exact inductionHypothesis (c := ⟨plan.outcome c.state,
        { c.sink with written := c.sink.written ++ plan.bytes }, c.places⟩) unlimited trackedAfter

end ContentStream

/-- What is drawn on a content stream while it is lent what is recorded. -/
structure Loan where
  resources : Resources
  /-- The fraction digits that real operands keep. -/
  places : Nat
  calls : List Call

namespace Loan

/-- The new stream that what is recorded so far is lent to. -/
def stream (loan : Loan) (subsets : Subsets) : ContentStream :=
  .start .unlimited loan.resources subsets loan.places

/-- What is recorded when the calls were made. -/
def run (loan : Loan) (subsets : Subsets) : Subsets :=
  ((loan.stream subsets).performAll loan.calls).state.subsets

/-- What the accepted calls do with fonts. -/
def uses (loan : Loan) (subsets : Subsets) : List FontUse :=
  FontStack.start.uses ((loan.stream subsets).accepted loan.calls)

theorem run_eq (loan : Loan) (subsets : Subsets) :
    loan.run subsets = (loan.uses subsets).foldl Subsets.record subsets := by
  have tracked : FontStack.start.Tracks (loan.stream subsets).state := List.nil_prefix
  exact ContentStream.subsets_performAll rfl tracked loan.calls

theorem prepared_uses (loan : Loan) (subsets : Subsets) : Prepared (loan.uses subsets) :=
  FontStack.prepared_uses_start _

end Loan

namespace Subsets

/-- Lends what is recorded to streams in turn. -/
def lend (subsets : Subsets) (loans : List Loan) : Subsets :=
  loans.foldl (fun subsets loan => loan.run subsets) subsets

/-- What the accepted calls of the streams do with fonts. -/
def history (subsets : Subsets) : List Loan → List FontUse
  | [] => []
  | loan :: rest => loan.uses subsets ++ (loan.run subsets).history rest

theorem lend_eq (subsets : Subsets) (loans : List Loan) :
    subsets.lend loans = (subsets.history loans).foldl record subsets := by
  induction loans generalizing subsets with
  | nil => rfl
  | cons loan rest inductionHypothesis =>
    rw [history, List.foldl_append, ← loan.run_eq]
    exact inductionHypothesis (loan.run subsets)

theorem prepared_history (subsets : Subsets) (loans : List Loan) :
    Prepared (subsets.history loans) := by
  induction loans generalizing subsets with
  | nil => exact .nil
  | cons loan rest inductionHypothesis =>
    exact (loan.prepared_uses subsets).append (inductionHypothesis (loan.run subsets))

theorem records_lend (loans : List Loan) :
    (empty.lend loans).Records (empty.history loans) := by
  rw [lend_eq, foldl_record (empty.prepared_history loans)]
  exact records_ofUses _

/-- Streams that draw in turn record exactly what was done with fonts. The name of a cut-down font depends on
the set of the characters shown in it and on the name that it was first selected under, whatever the order,
the repetitions and the division into streams. -/
theorem collector_records_what_was_shown (loans : List Loan) :
    (empty.lend loans).Records (empty.history loans) ∧
      ∀ (others : List Loan) (font : Font),
        (∀ point, point ∈ shownPoints (empty.history loans) font.target ↔
          point ∈ shownPoints (empty.history others) font.target) →
        firstName? (empty.history loans) font.target =
          firstName? (empty.history others) font.target →
        (empty.lend loans).subsetName? font = (empty.lend others).subsetName? font :=
  ⟨records_lend loans, fun others _ samePoints sameName =>
    (records_lend loans).subsetName?_congr (records_lend others) samePoints sameName⟩

/-- A text in one piece. -/
def atOnce : List Loan :=
  [⟨.empty, 6, [.setFont ContentStream.slanted .zero, .beginText, .showText "abc"]⟩]

/-- The same characters on two streams, beside a text that the font has no codes for and one in another
font. -/
def piecewise : List Loan :=
  [⟨.empty, 6, [.setFont ContentStream.slanted .zero, .beginText, .showText "cb", .showText "\u2603"]⟩,
    ⟨.empty, 3, [.setFont ContentStream.slanted .zero, .save, .setFont ContentStream.upright .zero,
      .beginText, .showText "d", .restore, .showText "ab"]⟩]

theorem collector_names_by_the_set_of_characters :
    (empty.lend atOnce).Records (empty.history atOnce) ∧
      (empty.lend atOnce).subsetName? ContentStream.slanted =
        (empty.lend piecewise).subsetName? ContentStream.slanted := by
  obtain ⟨records, sameNames⟩ := collector_records_what_was_shown atOnce
  refine ⟨records, sameNames piecewise ContentStream.slanted ?_ rfl⟩
  have once : shownPoints (empty.history atOnce) ContentStream.slanted.target = [97, 98, 99] := rfl
  have pieces : shownPoints (empty.history piecewise) ContentStream.slanted.target = [99, 98, 97, 98] := rfl
  intro point
  rw [once, pieces]
  simp only [List.mem_cons, List.not_mem_nil, or_false]
  tauto

end Subsets

end PdfCanvas
