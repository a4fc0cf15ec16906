import PdfCanvas.Proofs.Content.Steps
import PdfCanvas.Proofs.Content.Tracking

/-!
# Brackets of calls

A call changes what is tracked of the graphics state step by step, each time before the first byte of the step
is written. So a call that is stopped by its sink has done the front of what it would have done, and the states
that it has saved and not restored are told from the steps that it has begun.
-/

namespace PdfCanvas

open Tracking

/-! ## Plans -/

/-- What is done to the tracked state in a step, before the first byte of it is written. -/
def Step.tracking? (step : Step) : Option Tracking :=
  match step.emission with
  | .verbatim _ => none
  | .instruction written =>
    match written.operator with
    | .beginText => some .beginText
    | .endText => some .endText
    | .selectFont => step.state.graphics.font?.map .setFont
    | .strokingSpace => step.state.graphics.strokingSpace?.map (.setSpace .stroking)
    | .fillingSpace => step.state.graphics.fillingSpace?.map (.setSpace .filling)
    | .save => some .save
    | .restore => some .restore
    | _ => none

/-- The state that is tracked changes from step to step by these operations and in no other way. -/
inductive Plan.Tracks : GraphicsState → Plan → List Tracking → Prop
  | nil (g : GraphicsState) : Tracks g [] []
  | keep {g : GraphicsState} {step : Step} {rest : Plan} {operations : List Tracking}
    (silent : step.tracking? = none) (same : step.state.graphics = g)
    (others : Tracks g rest operations) : Tracks g (step :: rest) operations
  | change {g : GraphicsState} {step : Step} {rest : Plan} {operation : Tracking}
    {operations : List Tracking} (done : step.tracking? = some operation)
    (made : step.state.graphics = g.track operation) (others : Tracks (g.track operation) rest operations) :
    Tracks g (step :: rest) (operation :: operations)

namespace Plan.Tracks

variable {g : GraphicsState} {plan : Plan} {operations : List Tracking}

theorem append {second : Plan} {later : List Tracking} (head : plan.Tracks g operations)
    (tail : second.Tracks (g.trackAll operations) later) :
    Plan.Tracks g (plan ++ second) (operations ++ later) := by
  induction head with
  | nil => exact tail
  | keep silent same _ inductionHypothesis => exact .keep silent same (inductionHypothesis tail)
  | change done made _ inductionHypothesis => exact .change done made (inductionHypothesis tail)

theorem listed (tracks : plan.Tracks g operations) : plan.filterMap Step.tracking? = operations := by
  induction tracks with
  | nil => rfl
  | keep silent _ _ inductionHypothesis => rw [List.filterMap_cons_none silent, inductionHypothesis]
  | change done _ _ inductionHypothesis => rw [List.filterMap_cons_some done, inductionHypothesis]

theorem graphics {s : DrawingState} (tracks : plan.Tracks s.graphics operations) :
    (plan.outcome s).graphics = s.graphics.trackAll operations := by
  generalize start : s.graphics = g at tracks
  induction tracks generalizing s with
  | nil => exact start
  | @keep _ step _ _ _ same _ inductionHypothesis => exact inductionHypothesis (s := step.state) same
  | @change _ step _ _ _ _ made _ inductionHypothesis => exact inductionHypothesis (s := step.state) made

end Plan.Tracks

/-- The steps of a plan that are begun on a sink: the last of them is the first that does not fit. -/
def Plan.begun (sink : Sink) : Plan → Plan
  | [] => []
  | step :: rest =>
    match sink.write step.emission.bytes with
    | (.ok (), after) => step :: begun after rest
    | (.error _, _) => [step]

namespace Plan

theorem begun_prefix (sink : Sink) (plan : Plan) : plan.begun sink <+: plan := by
  induction plan generalizing sink with
  | nil => exact List.prefix_rfl
  | cons step rest inductionHypothesis =>
    rw [begun]
    split
    · exact (List.prefix_cons_inj step).mpr (inductionHypothesis _)
    · exact (List.prefix_cons_inj step).mpr List.nil_prefix

theorem begun_single (sink : Sink) (step : Step) : begun sink [step] = [step] := by
  rw [begun]
  split <;> rfl

theorem Tracks.of_front {g : GraphicsState} {front plan : Plan} {operations : List Tracking}
    (tracks : plan.Tracks g operations) (before : front <+: plan) :
    front.Tracks g (front.filterMap Step.tracking?) := by
  induction tracks generalizing front with
  | nil g =>
    rw [List.prefix_nil.mp before]
    exact .nil g
  | keep silent same _ inductionHypothesis =>
    rcases List.prefix_cons_iff.mp before with rfl | ⟨further, rfl, within⟩
    · exact .nil _
    · rw [List.filterMap_cons_none silent]
      exact .keep silent same (inductionHypothesis within)
  | change done made _ inductionHypothesis =>
    rcases List.prefix_cons_iff.mp before with rfl | ⟨further, rfl, within⟩
    · exact .nil _
    · rw [List.filterMap_cons_some done]
      exact .change done made (inductionHypothesis within)

end Plan

namespace ContentStream

theorem state_carryOut (c : ContentStream) (plan : Plan) :
    (c.carryOut plan).2.state = (plan.begun c.sink).outcome c.state := by
  induction plan generalizing c with
  | nil => rfl
  | cons step rest inductionHypothesis =>
    rw [carryOut, Plan.begun]
    rcases c.sink.write step.emission.bytes with ⟨_ | _, after⟩
    · rfl
    · exact inductionHypothesis { c with state := step.state, sink := after }

theorem begun_of_carryOut {c : ContentStream} {plan : Plan} (done : (c.carryOut plan).1 = .ok ()) :
    plan.begun c.sink = plan := by
  induction plan generalizing c with
  | nil => rfl
  | cons step rest inductionHypothesis =>
    rw [carryOut] at done
    rw [Plan.begun]
    rcases written : c.sink.write step.emission.bytes with ⟨_ | _, after⟩
    · simp [written] at done
    · simp only [written] at done
      exact congrArg (step :: ·) (inductionHypothesis (c := { c with state := step.state, sink := after }) done)

end ContentStream

/-! ## Calls -/

/-- What an accepted call does to the tracked state. -/
def Call.trackings (s : DrawingState) : Call → List Tracking
  | .beginText => [.beginText]
  | .endText => [.endText]
  | .setFont font _ => [.setFont font]
  | .save => [.save]
  | .restore => [.restore]
  | .setColorSpace use space => [.setSpace use space]
  | .setColor use color =>
    if use.isCurrent s.graphics color.space then [] else [.setSpace use color.space]
  | .drawImage .. => [.save, .restore]
  | .drawImageAt .. => [.save, .restore]
  | _ => []

namespace DrawingState

variable {s : DrawingState} {places : Nat} {plan : Plan}

theorem tracking?_of_plain {o : Operator} (plain : o.isPlain = true) (operands : List Operand) :
    (s.step o operands).tracking? = none := by
  cases o with
  | beginText | endText | selectFont | save | restore | strokingSpace | fillingSpace => cases plain
  | _ => rfl

theorem tracks_plain {o : Operator} (plain : o.isPlain = true) (operands : List Operand) :
    Plan.Tracks s.graphics [s.step o operands] [] :=
  .keep (tracking?_of_plain plain operands) rfl (.nil _)

theorem tracks_planReals {o : Operator} {values : List Single} (plain : o.isPlain = true)
    (planned : s.planReals places o values = .ok plan) : plan.Tracks s.graphics [] := by
  obtain ⟨numerals, _, made⟩ := bind_eq_ok.mp planned
  obtain rfl := Except.ok.inj made
  exact tracks_plain plain _

theorem tracks_planResource {o : Operator} (reference : o.isReference = true) (kind : ResourceKind)
    (object : Object) : Plan.Tracks s.graphics (s.planResource o kind object) [] := by
  have silent : ((s.bind kind object).2.step o [.name (s.bind kind object).1]).tracking? = none := by
    cases o with
    | parameters | shade | drawObject => rfl
    | _ => cases reference
  exact .keep silent rfl (.nil _)

theorem graphics_bindColorSpace (s : DrawingState) (space : ColorSpace) :
    (s.bindColorSpace space).2.graphics = s.graphics := by
  rw [bindColorSpace]
  split <;> rfl

theorem tracks_selectColorSpace (use : ColorUse) (space : ColorSpace) :
    Plan.Tracks s.graphics [s.selectColorSpace use space] [.setSpace use space] := by
  have made : (s.selectColorSpace use space).state.graphics = s.graphics.track (.setSpace use space) := by
    rw [GraphicsState.track, ← graphics_bindColorSpace s space]
    rfl
  refine .change ?_ made (.nil _)
  cases use <;> rfl

theorem tracks_planFont {font : Font} {size : Single} (planned : s.planFont places font size = .ok plan) :
    plan.Tracks s.graphics [.setFont font] := by
  obtain ⟨numerals, _, made⟩ := bind_eq_ok.mp planned
  obtain rfl := Except.ok.inj made
  have registered : (s.registerFont font).graphics = s.graphics := by
    rw [registerFont]
    split <;> rfl
  refine .change rfl ?_ (.nil _)
  rw [GraphicsState.track, ← registered]
  rfl

theorem tracks_planText {text : String} (planned : s.planText text = .ok plan) :
    plan.Tracks s.graphics [] := by
  obtain ⟨_, _, planned⟩ := bind_eq_ok.mp planned
  obtain ⟨⟨font, codes⟩, _, made⟩ := bind_eq_ok.mp planned
  obtain rfl := Except.ok.inj made
  have recorded : (s.recordText font text).graphics = s.graphics := by
    rw [recordText]
    split <;> rfl
  exact .keep rfl recorded (.nil _)

theorem tracks_planColor {use : ColorUse} {color : Color}
    (planned : s.planColor places use color = .ok plan) :
    plan.Tracks s.graphics ((Call.setColor use color).trackings s) := by
  obtain ⟨_, _, planned⟩ := bind_eq_ok.mp planned
  obtain ⟨numerals, _, planned⟩ := bind_eq_ok.mp planned
  have plain : (Operator.color use).isPlain = true := by cases use <;> rfl
  rw [Call.trackings]
  split at planned
  next current =>
    obtain rfl := Except.ok.inj planned
    rw [if_pos current]
    exact tracks_plain plain _
  next other =>
    obtain rfl := Except.ok.inj planned
    rw [if_neg other]
    have selection := s.tracks_selectColorSpace use color.space
    have selected := selection.graphics
    refine selection.append (?_ : Plan.Tracks _ [_] [])
    rw [← selected]
    exact tracks_plain plain _

theorem tracks_planPolygon {xs ys : List Single} (planned : s.planPolygon places xs ys = .ok plan) :
    plan.Tracks s.graphics [] := by
  obtain ⟨_, _, planned⟩ := bind_eq_ok.mp planned
  obtain ⟨columns, _, planned⟩ := bind_eq_ok.mp planned
  obtain ⟨rows, _, made⟩ := bind_eq_ok.mp planned
  obtain rfl := Except.ok.inj made
  have lines (corners : List (Decimal × Decimal)) : Plan.Tracks s.graphics
      (corners.map fun corner => s.step .lineTo [.number corner.1, .number corner.2]) [] := by
    induction corners with
    | nil => exact .nil _
    | cons corner corners inductionHypothesis => exact .keep rfl rfl inductionHypothesis
  have outline : Plan.Tracks s.graphics (s.planOutline (columns.zip rows)) [] := by
    cases columns.zip rows with
    | nil => exact .nil _
    | cons first corners => exact .keep rfl rfl (lines corners)
  exact outline.append (tracks_plain rfl [])

theorem tracks_planImage {image : Object} {corner : Point} {width height : Single}
    (planned : s.planImage places image corner width height = .ok plan) :
    plan.Tracks s.graphics [.save, .restore] := by
  obtain ⟨_, _, planned⟩ := bind_eq_ok.mp planned
  obtain ⟨placed, planned, made⟩ := bind_eq_ok.mp planned
  obtain ⟨numerals, _, single⟩ := bind_eq_ok.mp planned
  obtain rfl := Except.ok.inj single
  obtain rfl := Except.ok.inj made
  exact .change rfl rfl (.keep rfl rfl (.keep rfl rfl (.change rfl rfl (.nil _))))

end DrawingState

theorem Call.tracks_of_plan {places : Nat} {s : DrawingState} {call : Call} {plan : Plan}
    (planned : call.plan places s = .ok plan) : plan.Tracks s.graphics (call.trackings s) := by
  -- One case for each family of calls: what is left of a plan behind its checks.
  cases call with
  | beginText | endText =>
    obtain ⟨graphics, allowed, made⟩ := bind_eq_ok.mp planned
    obtain rfl := Except.ok.inj made
    refine .change rfl ?_ (.nil _)
    rw [GraphicsState.track, allowed]
    rfl
  | setFont => exact DrawingState.tracks_planFont planned
  | showText => exact DrawingState.tracks_planText planned
  | setLeading | transform => exact DrawingState.tracks_planReals rfl planned
  | moveLine | setTextMatrix | addRectangle | curve | curveFromCurrent | curveToFinal | moveTo | lineTo
  | setLineWidth | setMiterLimit =>
    obtain ⟨_, _, planned⟩ := bind_eq_ok.mp planned
    exact DrawingState.tracks_planReals rfl planned
  | setRgbLevels use | setCmykLevels use | setGrayLevel use | setCmyk use | setGray use =>
    obtain ⟨_, _, planned⟩ := bind_eq_ok.mp planned
    cases use <;> exact DrawingState.tracks_planReals rfl planned
  | save | restore =>
    obtain rfl := Except.ok.inj planned
    exact .change rfl rfl (.nil _)
  | setColorSpace use space =>
    obtain rfl := Except.ok.inj planned
    exact DrawingState.tracks_selectColorSpace use space
  | setColor => exact DrawingState.tracks_planColor planned
  | addPolygon =>
    obtain ⟨_, _, planned⟩ := bind_eq_ok.mp planned
    exact DrawingState.tracks_planPolygon planned
  | setParameters =>
    obtain rfl := Except.ok.inj planned
    exact DrawingState.tracks_planResource rfl _ _
  | shade | drawForm =>
    obtain ⟨_, _, made⟩ := bind_eq_ok.mp planned
    obtain rfl := Except.ok.inj made
    exact DrawingState.tracks_planResource rfl _ _
  | nextLine | closePath =>
    obtain ⟨_, _, made⟩ := bind_eq_ok.mp planned
    obtain rfl := Except.ok.inj made
    exact DrawingState.tracks_plain rfl []
  | paint painting =>
    obtain ⟨_, _, made⟩ := bind_eq_ok.mp planned
    obtain rfl := Except.ok.inj made
    cases painting <;> exact DrawingState.tracks_plain rfl []
  | fillBy rule =>
    obtain ⟨_, _, made⟩ := bind_eq_ok.mp planned
    obtain rfl := Except.ok.inj made
    cases rule <;> exact DrawingState.tracks_plain rfl []
  | clip rule =>
    cases rule with
    | nonZero | evenOdd =>
      obtain ⟨_, _, made⟩ := bind_eq_ok.mp planned
      obtain rfl := Except.ok.inj made
      exact .keep rfl rfl (DrawingState.tracks_plain rfl [])
  | setLineJoin | setLineCap =>
    obtain ⟨_, _, planned⟩ := bind_eq_ok.mp planned
    obtain ⟨_, _, made⟩ := bind_eq_ok.mp planned
    obtain rfl := Except.ok.inj made
    exact DrawingState.tracks_plain rfl _
  | setDash =>
    obtain ⟨_, _, planned⟩ := bind_eq_ok.mp planned
    obtain ⟨_, _, planned⟩ := bind_eq_ok.mp planned
    obtain ⟨_, _, made⟩ := bind_eq_ok.mp planned
    obtain rfl := Except.ok.inj made
    exact DrawingState.tracks_plain rfl _
  | drawImage | drawImageAt =>
    obtain ⟨_, _, planned⟩ := bind_eq_ok.mp planned
    exact DrawingState.tracks_planImage planned
  | beginMarked | endMarked =>
    obtain rfl := Except.ok.inj planned
    exact DrawingState.tracks_plain rfl _
  | beginMarkedWith | appendText | appendBytes =>
    obtain rfl := Except.ok.inj planned
    exact .keep rfl rfl (.nil _)

/-- What a call does with saved states if it is carried out to its end. An image that is drawn is nothing to
count: it restores the state that it saves. -/
def Call.brackets : Call → List Tracking
  | .save => [.save]
  | .restore => [.restore]
  | _ => []

def Call.drawsImage : Call → Bool
  | .drawImage .. | .drawImageAt .. => true
  | _ => false

theorem Call.trackings_of_drawsImage {call : Call} (draws : call.drawsImage = true) (s : DrawingState) :
    call.trackings s = [.save, .restore] := by
  cases call with
  | drawImage | drawImageAt => rfl
  | _ => cases draws

theorem Call.brackets_of_drawsImage {call : Call} (draws : call.drawsImage = true) : call.brackets = [] := by
  cases call with
  | drawImage | drawImageAt => rfl
  | _ => cases draws

theorem checkFinite_ne_write {values : List Single} {fault : SinkFault} :
    checkFinite values ≠ .error (.write fault) := by
  rw [checkFinite]
  split <;> simp

/-- An image is refused inside a text object and where its place is not finite, but not for the sink. -/
theorem Call.cause_of_drawsImage {call : Call} (draws : call.drawsImage = true) {places : Nat}
    {s : DrawingState} {e : Error} (refused : call.plan places s = .error e) (fault : SinkFault) :
    e ≠ .write fault := by
  have cause {image : Object} {corner : Point} {width height : Single}
      (refused : (do
        s.graphics.requireOutsideText "drawImage"
        s.planImage places image corner width height) = .error e) : e ≠ .write fault := by
    rintro rfl
    rcases bind_eq_error.mp refused with inText | ⟨_, _, refused⟩
    · rw [GraphicsState.requireOutsideText] at inText
      split at inText <;> cases inText
    · rcases bind_eq_error.mp refused with notFinite | ⟨_, finite, refused⟩
      · exact checkFinite_ne_write notFinite
      · rcases bind_eq_error.mp refused with unplaced | ⟨_, _, made⟩
        · rcases bind_eq_error.mp unplaced with unprinted | ⟨_, _, made⟩
          · rw [Operand.numerals_eq] at unprinted
            rcases bind_eq_error.mp unprinted with notFinite | ⟨_, _, made⟩
            · exact checkFinite_ne_write notFinite
            · cases made
          · cases made
        · cases made
  cases call with
  | drawImage | drawImageAt => exact cause refused
  | _ => cases draws

theorem Call.level_trackings {call : Call} (noBracket : call.brackets = []) (noImage : call.drawsImage = false)
    (s : DrawingState) :
    ∀ operation ∈ call.trackings s, operation.isSave = false ∧ operation.isRestore = false := by
  cases call with
  | save | restore => cases noBracket
  | drawImage | drawImageAt => cases noImage
  | setColor =>
    rw [trackings]
    split <;> simp [isSave, isRestore]
  | _ => simp [trackings, isSave, isRestore]

namespace ContentStream

variable {c : ContentStream} {call : Call}

/-- What a call does to the tracked state. It does not come to its end on a sink that is too small for it. -/
def tracking (c : ContentStream) (call : Call) : List Tracking :=
  match call.plan c.places c.state with
  | .ok plan => (plan.begun c.sink).filterMap Step.tracking?
  | .error _ => []

/-- What calls do to the tracked state that are made one after the other, whatever becomes of each. -/
def trackingAll (c : ContentStream) : List Call → List Tracking
  | [] => []
  | call :: rest => c.tracking call ++ (c.perform call).2.trackingAll rest

theorem graphics_perform (c : ContentStream) (call : Call) :
    (c.perform call).2.state.graphics = c.state.graphics.trackAll (c.tracking call) := by
  rw [perform_eq_follow, tracking]
  cases planned : call.plan c.places c.state with
  | error e => rfl
  | ok plan =>
    have tracks := (Call.tracks_of_plan planned).of_front (plan.begun_prefix c.sink)
    rw [follow, state_carryOut, tracks.graphics]

theorem graphics_performAll (c : ContentStream) (calls : List Call) :
    (c.performAll calls).state.graphics = c.state.graphics.trackAll (c.trackingAll calls) := by
  induction calls generalizing c with
  | nil => rfl
  | cons call rest inductionHypothesis =>
    rw [performAll, inductionHypothesis, graphics_perform, trackingAll, GraphicsState.trackAll_append]

theorem trackingAll_append (c : ContentStream) (first second : List Call) :
    c.trackingAll (first ++ second) =
      c.trackingAll first ++ (c.performAll first).trackingAll second := by
  induction first generalizing c with
  | nil => rfl
  | cons call rest inductionHypothesis =>
    rw [List.cons_append, trackingAll, inductionHypothesis, trackingAll, performAll, List.append_assoc]

theorem tracking_save (c : ContentStream) : c.tracking .save = [.save] := by
  simp only [tracking, Call.plan, pure, Except.pure, Plan.begun_single]
  rfl

theorem tracking_restore (c : ContentStream) : c.tracking .restore = [.restore] := by
  simp only [tracking, Call.plan, pure, Except.pure, Plan.begun_single]
  rfl

theorem tracking_prefix (c : ContentStream) (call : Call) : c.tracking call <+: call.trackings c.state := by
  rw [tracking]
  cases planned : call.plan c.places c.state with
  | error e => exact List.nil_prefix
  | ok plan =>
    rw [← (Call.tracks_of_plan planned).listed]
    exact (plan.begun_prefix c.sink).filterMap _

/-- An image is drawn as a whole or not at all, unless the sink is too small for it. -/
theorem tracking_of_whole (draws : call.drawsImage = true)
    (whole : ∀ fault, (c.perform call).1 ≠ .error (.write fault)) :
    c.tracking call = [] ∨ c.tracking call = [.save, .restore] := by
  rw [perform_eq_follow] at whole
  rw [tracking]
  cases planned : call.plan c.places c.state with
  | error e => exact .inl rfl
  | ok plan =>
    right
    rw [planned] at whole
    have tracks := Call.tracks_of_plan planned
    rw [Call.trackings_of_drawsImage draws] at tracks
    rcases carried : c.carryOut plan with ⟨e | _, after⟩
    · obtain ⟨fault, rfl⟩ := cause_of_carryOut carried
      exact absurd (congrArg Prod.fst carried) (whole fault)
    · exact (congrArg _ (begun_of_carryOut (congrArg Prod.fst carried))).trans tracks.listed

theorem openAfter_tracking (whole : call.drawsImage = true → ∀ fault, (c.perform call).1 ≠ .error (.write fault))
    (count : Nat) : openAfter count (c.tracking call) = openAfter count call.brackets := by
  cases draws : call.drawsImage with
  | true =>
    rw [Call.brackets_of_drawsImage draws]
    rcases tracking_of_whole draws (whole draws) with none | both
    · rw [none]
    · rw [both]
      rfl
  | false =>
    by_cases noBracket : call.brackets = []
    · have level : ∀ operation ∈ c.tracking call, operation.isSave = false ∧ operation.isRestore = false :=
        fun operation member =>
          Call.level_trackings noBracket draws c.state operation ((c.tracking_prefix call).subset member)
      rw [noBracket, openAfter_of_level count level]
      rfl
    · cases call with
      | save => rw [tracking_save, Call.brackets]
      | restore => rw [tracking_restore, Call.brackets]
      | _ => exact absurd rfl noBracket

/-- None of the calls draws an image that the sink takes only a part of. -/
def CutsNoImage (c : ContentStream) : List Call → Prop
  | [] => True
  | call :: rest =>
    (call.drawsImage = true → ∀ fault, (c.perform call).1 ≠ .error (.write fault)) ∧
      (c.perform call).2.CutsNoImage rest

theorem cutsNoImage_of_unlimited (unlimited : c.sink.capacity = none) (calls : List Call) :
    c.CutsNoImage calls := by
  induction calls generalizing c with
  | nil => trivial
  | cons call rest inductionHypothesis =>
    rw [CutsNoImage]
    cases planned : call.plan c.places c.state with
    | error e =>
      rw [perform_of_refusal planned]
      refine ⟨fun draws fault failed => ?_, inductionHypothesis unlimited⟩
      exact Call.cause_of_drawsImage draws planned fault (Except.error.inj failed)
    | ok plan =>
      rw [perform_of_plan unlimited planned]
      exact ⟨fun _ _ => by simp, inductionHypothesis unlimited⟩

theorem openAfter_trackingAll {calls : List Call} (whole : c.CutsNoImage calls) (count : Nat) :
    openAfter count (c.trackingAll calls) = openAfter count (calls.flatMap Call.brackets) := by
  induction calls generalizing c count with
  | nil => rfl
  | cons call rest inductionHypothesis =>
    obtain ⟨first, others⟩ := whole
    rw [trackingAll, List.flatMap_cons, openAfter_append, openAfter_append, openAfter_tracking first]
    simp only [inductionHypothesis others]

theorem trackingAll_bracket (c : ContentStream) (calls : List Call) :
    c.trackingAll (.save :: calls ++ [.restore]) =
      .save :: (c.perform .save).2.trackingAll calls ++ [.restore] := by
  rw [List.cons_append, trackingAll, tracking_save, trackingAll_append]
  simp only [trackingAll, tracking_restore, List.append_nil, List.nil_append, List.cons_append]

/-- What is done between a saved state and its restoration leaves the font stack and the stacks of colour spaces
as they were, however deep it nests and whichever of the stacks were empty. So do calls between `save` and
`restore`, and an image that is drawn. On a sink that is too small for the whole image its `Q` is not reached,
but the current font and the current colour spaces are the same even then. -/
theorem brackets_leave_the_stacks :
    (∀ (g : GraphicsState) (inner : List Tracking), IsBalanced inner →
      (g.trackAll (.save :: inner ++ [.restore])).SameStacks g) ∧
    ∀ c : ContentStream,
      (∀ calls, (c.performAll calls).state.graphics = c.state.graphics.trackAll (c.trackingAll calls)) ∧
      (∀ calls inner, IsBalanced inner → c.trackingAll calls = .save :: inner ++ [.restore] →
        (c.performAll calls).state.graphics.SameStacks c.state.graphics ∧
          (c.performAll calls).state.graphics.SameCurrent c.state.graphics) ∧
      (∀ calls : List Call, IsBalanced (calls.flatMap Call.brackets) →
        (c.perform .save).2.CutsNoImage calls →
          (c.performAll (.save :: calls ++ [.restore])).state.graphics.SameStacks c.state.graphics ∧
            (c.performAll (.save :: calls ++ [.restore])).state.graphics.SameCurrent c.state.graphics) ∧
      ∀ call : Call, call.drawsImage = true →
        ((∀ fault, (c.perform call).1 ≠ .error (.write fault)) →
          (c.perform call).2.state.graphics.SameStacks c.state.graphics) ∧
        (c.perform call).2.state.graphics.SameCurrent c.state.graphics := by
  refine ⟨fun g inner balanced => g.sameStacks_bracket balanced, fun c => ?_⟩
  have bracket (calls : List Call) (inner : List Tracking) (balanced : IsBalanced inner)
      (done : c.trackingAll calls = .save :: inner ++ [.restore]) :
      (c.performAll calls).state.graphics.SameStacks c.state.graphics := by
    rw [graphics_performAll, done]
    exact GraphicsState.sameStacks_bracket _ balanced
  refine ⟨c.graphics_performAll, fun calls inner balanced done => ?_, fun calls balanced whole => ?_,
    fun call draws => ?_⟩
  · have same := bracket calls inner balanced done
    exact ⟨same, same.current⟩
  · have inner : IsBalanced ((c.perform .save).2.trackingAll calls) := by
      rw [isBalanced_iff, openAfter_trackingAll whole]
      exact isBalanced_iff.mp balanced
    have same := bracket _ _ inner (c.trackingAll_bracket calls)
    exact ⟨same, same.current⟩
  · rw [graphics_perform]
    refine ⟨fun whole => ?_, ?_⟩
    · rcases tracking_of_whole draws whole with none | both
      · rw [none]
        exact .refl _
      · rw [both]
        exact GraphicsState.sameStacks_bracket _ IsBalanced.nil
    · have front := c.tracking_prefix call
      rw [Call.trackings_of_drawsImage draws] at front
      rcases List.prefix_cons_iff.mp front with none | ⟨further, begun, within⟩
      · rw [none]
        exact (GraphicsState.SameStacks.refl _).current
      · rw [begun]
        rcases List.prefix_cons_iff.mp within with rfl | ⟨more, rfl, last⟩
        · exact GraphicsState.sameCurrent_save _
        · rw [List.prefix_nil.mp last]
          exact (GraphicsState.sameStacks_bracket _ IsBalanced.nil).current

def serif : Font := ⟨⟨7, 0⟩, "Times-Roman", .winAnsi, false⟩

def dot : Image := ⟨⟨[], [0x80]⟩, none, 1, 1, 8, false, false, none, none, none, none, .standard⟩

/-- Fonts selected where none was before, at two depths, and an image that is refused inside a text object. -/
def fontsInside : List Call :=
  [.save, .setFont serif .zero, .drawImage dot ⟨.zero, .zero⟩ .zero .zero, .beginText,
    .drawImage dot ⟨.zero, .zero⟩ .zero .zero, .restore, .endText, .setFont serif .zero]

theorem fonts_at_the_bottom_are_given_up :
    IsBalanced (fontsInside.flatMap Call.brackets) ∧
      ((start .unlimited .empty ⟨[]⟩ 6).perform .save).2.CutsNoImage fontsInside ∧
      ((start .unlimited .empty ⟨[]⟩ 6).performAll (.save :: fontsInside)).state.graphics.fonts = [serif] ∧
      ((start .unlimited .empty ⟨[]⟩ 6).performAll
        (.save :: fontsInside ++ [.restore])).state.graphics.font? = none := by
  have balanced : IsBalanced (fontsInside.flatMap Call.brackets) := isBalanced_iff.mpr rfl
  have whole : ((start .unlimited .empty ⟨[]⟩ 6).perform .save).2.CutsNoImage fontsInside :=
    cutsNoImage_of_unlimited rfl fontsInside
  obtain ⟨-, -, ofCalls, -⟩ := brackets_leave_the_stacks.2 (start .unlimited .empty ⟨[]⟩ 6)
  exact ⟨balanced, whole, rfl, (ofCalls fontsInside balanced whole).2.font⟩

end ContentStream

end PdfCanvas
