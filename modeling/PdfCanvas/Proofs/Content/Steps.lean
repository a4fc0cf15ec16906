import PdfCanvas.Proofs.Content.Runs
import PdfCanvas.Proofs.Resources.Naming

/-!
# What a step can do

Some fifty calls come down to few kinds of steps: a text object is opened or closed, the graphics state is
saved or restored, a font or a colour space is selected, text is shown, a resource is referred to, or
something is written that changes nothing. What holds of these kinds holds along every run.
-/

namespace PdfCanvas

namespace Operator

/-- Operators that have a meaning in text objects only. -/
def needsText : Operator → Bool
  | .nextLine | .moveLine | .textMatrix | .showText => true
  | _ => false

/-- Operators that have no place in text objects. -/
def barredFromText : Operator → Bool
  | .rectangle | .curve | .curveFromCurrent | .curveToFinal | .moveTo | .lineTo | .closePath
  | .stroke | .closeStroke | .fill | .fillEvenOdd | .fillStroke | .fillStrokeEvenOdd
  | .closeFillStroke | .closeFillStrokeEvenOdd | .endPath | .shade | .clip | .clipEvenOdd
  | .lineWidth | .lineJoin | .lineCap | .dash | .miterLimit | .drawObject => true
  | _ => false

/-- Whether an operator can stand at a place inside or outside a text object. -/
def fits (o : Operator) (inText : Bool) : Bool :=
  if inText then !o.barredFromText else !o.needsText

theorem fits_outside {o : Operator} {inText : Bool} (outside : inText = false)
    (free : o.needsText = false) : o.fits inText = true := by
  rw [outside, fits, free]
  rfl

theorem fits_inside {o : Operator} {inText : Bool} (inside : inText = true)
    (free : o.barredFromText = false) : o.fits inText = true := by
  rw [inside, fits, free]
  rfl

theorem fits_anywhere {o : Operator} (inText : Bool) (free : o.needsText = false)
    (freeInside : o.barredFromText = false) : o.fits inText = true := by
  cases inText with
  | false => exact fits_outside rfl free
  | true => exact fits_inside rfl freeInside

/-- Operators that do nothing but refer to a resource. -/
def isReference : Operator → Bool
  | .parameters | .shade | .drawObject => true
  | _ => false

/-- Operators that refer to nothing and change nothing that is tracked. -/
def isPlain : Operator → Bool
  | .beginText | .endText | .selectFont | .showText | .save | .restore
  | .strokingSpace | .fillingSpace | .beginMarkedWith => false
  | o => !o.isReference

end Operator

/-- The resource that a colour space is, unless it has a fixed name. -/
def ColorSpace.resource? (space : ColorSpace) : Option (ResourceKind × Object) :=
  if space.hasFixedName then none else some (.colorSpace, space.toObject)

/-- The object that a call refers to by a name of the resources, and its kind. -/
def Call.resource? : Call → Option (ResourceKind × Object)
  | .setFont font _ => some (.font, font.toObject)
  | .setParameters parameters => some (.graphicsState, parameters)
  | .setColorSpace _ space => space.resource?
  | .setColor _ color => color.space.resource?
  | .shade shading => some (.shading, shading)
  | .drawImage image _ _ _ => some (.image, image.toObject)
  | .drawImageAt image _ => some (.image, image.toObject)
  | .drawForm form => some (.form, form)
  | .beginMarkedWith _ properties => some (.properties, properties)
  | _ => none

/-- A name selects a colour space: it is the fixed name of the space, or stands for it. -/
def Resources.NamesSpace (r : Resources) (name : String) (space : ColorSpace) : Prop :=
  if space.hasFixedName then name = space.name else r.Names .colorSpace name space.toObject

/-- The steps that a call about `subject?` can take. Names are those of the resources after the step. -/
inductive Step.Lawful (subject? : Option (ResourceKind × Object)) (s : DrawingState) : Step → Prop
  | beginText (outside : s.graphics.inText = false) :
    Lawful subject? s
      ({ s with graphics := { s.graphics with inText := true } }.step .beginText [])
  | endText (inside : s.graphics.inText = true) :
    Lawful subject? s
      ({ s with graphics := { s.graphics with inText := false } }.step .endText [])
  | selectFont {font : Font} {name : String} {resources : Resources} (subsets : Subsets)
      (size : List Operand) (about : subject? = some (.font, font.toObject))
      (binds : s.resources.Binds subject? resources)
      (names : resources.Names .font name font.toObject) :
    Lawful subject? s
      (DrawingState.step ⟨s.graphics.setFont font, resources, subsets⟩ .selectFont
        (.name name :: size))
  | showText {font : Font} {text : String} {codes : Bytes} (subsets : Subsets)
      (inside : s.graphics.inText = true) (current : s.graphics.font? = some font)
      (encoded : font.encode text = .ok codes) :
    Lawful subject? s ({ s with subsets }.step .showText [.string codes])
  | save {resources : Resources} (binds : s.resources.Binds subject? resources) :
    Lawful subject? s
      ({ s with graphics := s.graphics.save, resources }.step .save [])
  | restore : Lawful subject? s ({ s with graphics := s.graphics.restore }.step .restore [])
  | selectSpace {space : ColorSpace} {name : String} {resources : Resources} (use : ColorUse)
      (about : subject? = space.resource?) (binds : s.resources.Binds subject? resources)
      (names : resources.NamesSpace name space) :
    Lawful subject? s
      ({ s with graphics := use.setSpace s.graphics space, resources }.step (.colorSpace use)
        [.name name])
  | refer {o : Operator} {kind : ResourceKind} {object : Object} {name : String}
      {resources : Resources} (reference : o.isReference = true)
      (fits : o.fits s.graphics.inText = true) (about : subject? = some (kind, object))
      (binds : s.resources.Binds subject? resources) (names : resources.Names kind name object) :
    Lawful subject? s ({ s with resources }.step o [.name name])
  | beginMarkedWith {object : Object} {name : String} {resources : Resources} (tag : String)
      (about : subject? = some (.properties, object))
      (binds : s.resources.Binds subject? resources)
      (names : resources.Names .properties name object) :
    Lawful subject? s ({ s with resources }.step .beginMarkedWith [.name tag, .name name])
  | plain {o : Operator} (operands : List Operand) (plain : o.isPlain = true)
      (fits : o.fits s.graphics.inText = true) :
    Lawful subject? s (s.step o operands)
  | verbatim (bytes : Bytes) : Lawful subject? s ⟨s, .verbatim bytes⟩

/-- A plan whose steps follow one another lawfully, each for one of the subjects. -/
inductive Plan.Lawful (subjects : Option (ResourceKind × Object) → Prop) : DrawingState → Plan → Prop
  | nil (s : DrawingState) : Lawful subjects s []
  | cons {subject? : Option (ResourceKind × Object)} {s : DrawingState} {step : Step} {rest : Plan}
    (among : subjects subject?) (first : step.Lawful subject? s)
    (others : Lawful subjects step.state rest) : Lawful subjects s (step :: rest)

namespace Plan.Lawful

theorem single {subject? : Option (ResourceKind × Object)} {s : DrawingState} {step : Step}
    (lawful : step.Lawful subject? s) : Plan.Lawful (· = subject?) s [step] :=
  .cons rfl lawful (.nil _)

theorem append {subjects : Option (ResourceKind × Object) → Prop} {s : DrawingState}
    {first second : Plan} (head : first.Lawful subjects s)
    (tail : second.Lawful subjects (first.outcome s)) :
    Plan.Lawful subjects s (first ++ second) := by
  induction head with
  | nil s => exact tail
  | cons among law _ inductionHypothesis => exact .cons among law (inductionHypothesis tail)

theorem mono {subjects more : Option (ResourceKind × Object) → Prop}
    (further : ∀ subject?, subjects subject? → more subject?) {s : DrawingState} {plan : Plan}
    (lawful : plan.Lawful subjects s) : plan.Lawful more s := by
  induction lawful with
  | nil s => exact .nil s
  | cons among law _ inductionHypothesis => exact .cons (further _ among) law inductionHypothesis

end Plan.Lawful

/-- A step binds at most what its call is about. -/
theorem Step.Lawful.binds {subject? : Option (ResourceKind × Object)} {s : DrawingState}
    {step : Step} (lawful : step.Lawful subject? s) :
    s.resources.Binds subject? step.state.resources := by
  cases lawful with
  | selectFont _ _ _ binds | save binds | selectSpace _ _ binds | refer _ _ _ binds
  | beginMarkedWith _ _ binds => exact binds
  | _ => exact .refl subject? s.resources

namespace Plan.Lawful

variable {subjects : Option (ResourceKind × Object) → Prop}

theorem extension {s : DrawingState} {plan : Plan} (lawful : plan.Lawful subjects s) :
    s.resources.Extends (plan.outcome s).resources := by
  induction lawful with
  | nil s => exact .refl s.resources
  | cons _ first _ inductionHypothesis => exact first.binds.extension.trans inductionHypothesis

theorem distinct {s : DrawingState} {plan : Plan} (lawful : plan.Lawful subjects s)
    (distinct : s.resources.Distinct) : (plan.outcome s).resources.Distinct := by
  induction lawful with
  | nil => exact distinct
  | cons _ first _ inductionHypothesis => exact inductionHypothesis (first.binds.distinct distinct)

/-- Every step of a lawful plan is lawful where it is taken, and what is bound then stays bound. -/
theorem of_mem {s : DrawingState} {plan : Plan} (lawful : plan.Lawful subjects s) {step : Step}
    (member : step ∈ plan) :
    ∃ subject? before, subjects subject? ∧ step.Lawful subject? before ∧
      step.state.resources.Extends (plan.outcome s).resources := by
  induction lawful with
  | nil => cases member
  | cons among first others inductionHypothesis =>
    rcases List.mem_cons.mp member with rfl | later
    · exact ⟨_, _, among, first, others.extension⟩
    · exact inductionHypothesis later

end Plan.Lawful

namespace DrawingState

variable {subject? : Option (ResourceKind × Object)}

theorem lawful_planReals {s : DrawingState} {places : Nat} {o : Operator} {values : List Single}
    {plan : Plan} (plain : o.isPlain = true) (fits : o.fits s.graphics.inText = true)
    (planned : s.planReals places o values = .ok plan) : plan.Lawful (· = subject?) s := by
  obtain ⟨numerals, _, made⟩ := bind_eq_ok.mp planned
  obtain rfl := Except.ok.inj made
  exact .single (.plain _ plain fits)

theorem lawful_planResource {s : DrawingState} {o : Operator} {kind : ResourceKind}
    {object : Object} (distinct : s.resources.Distinct) (reference : o.isReference = true)
    (fits : o.fits s.graphics.inText = true) :
    Plan.Lawful (· = some (kind, object)) s (s.planResource o kind object) :=
  .single (.refer reference fits rfl (.add s.resources kind object)
    (Resources.names_add distinct kind object))

theorem lawful_planFont {s : DrawingState} {places : Nat} {font : Font} {size : Single} {plan : Plan}
    (distinct : s.resources.Distinct) (planned : s.planFont places font size = .ok plan) :
    plan.Lawful (· = some (.font, font.toObject)) s := by
  obtain ⟨numerals, _, made⟩ := bind_eq_ok.mp planned
  obtain rfl := Except.ok.inj made
  obtain ⟨subsets, registered⟩ : ∃ subsets, s.registerFont font = { s with subsets } := by
    unfold registerFont
    split
    · exact ⟨_, rfl⟩
    · exact ⟨s.subsets, rfl⟩
  rw [registered]
  exact .single (.selectFont subsets _ rfl (.add s.resources .font font.toObject)
    (Resources.names_add distinct .font font.toObject))

theorem lawful_selectColorSpace {s : DrawingState} (distinct : s.resources.Distinct)
    (use : ColorUse) (space : ColorSpace) :
    Step.Lawful space.resource? s (s.selectColorSpace use space) := by
  unfold selectColorSpace bindColorSpace
  by_cases fixed : space.hasFixedName = true
  · rw [if_pos fixed]
    refine .selectSpace use rfl (.refl _ s.resources) ?_
    rw [Resources.NamesSpace, if_pos fixed]
  · rw [if_neg fixed]
    have about : space.resource? = some (.colorSpace, space.toObject) := if_neg fixed
    refine .selectSpace use rfl (about ▸ .add s.resources .colorSpace space.toObject) ?_
    rw [Resources.NamesSpace, if_neg fixed]
    exact Resources.names_add distinct .colorSpace space.toObject

theorem lawful_planColor {s : DrawingState} {places : Nat} {use : ColorUse} {color : Color}
    {plan : Plan} (distinct : s.resources.Distinct)
    (planned : s.planColor places use color = .ok plan) :
    plan.Lawful (· = color.space.resource?) s := by
  obtain ⟨_, _, planned⟩ := bind_eq_ok.mp planned
  obtain ⟨numerals, _, planned⟩ := bind_eq_ok.mp planned
  have plain : (Operator.color use).isPlain = true := by cases use <;> rfl
  have fits : ∀ inText, (Operator.color use).fits inText = true := by
    intro inText
    cases use <;> exact Operator.fits_anywhere inText rfl rfl
  split at planned
  · obtain rfl := Except.ok.inj planned
    exact .single (.plain _ plain (fits _))
  · obtain rfl := Except.ok.inj planned
    exact .cons rfl (lawful_selectColorSpace distinct use color.space)
      (.single (.plain _ plain (fits _)))

theorem lawful_planOutline {s : DrawingState} (outside : s.graphics.inText = false)
    (corners : List (Decimal × Decimal)) : Plan.Lawful (· = subject?) s (s.planOutline corners) := by
  cases corners with
  | nil => exact .nil s
  | cons first corners =>
    refine .cons rfl (.plain _ rfl (Operator.fits_outside outside rfl)) ?_
    change Plan.Lawful (· = subject?) s _
    induction corners with
    | nil => exact .nil s
    | cons second corners inductionHypothesis =>
      exact .cons rfl (.plain _ rfl (Operator.fits_outside outside rfl)) inductionHypothesis

theorem lawful_planPolygon {s : DrawingState} {places : Nat} {xs ys : List Single} {plan : Plan}
    (outside : s.graphics.inText = false) (planned : s.planPolygon places xs ys = .ok plan) :
    plan.Lawful (· = subject?) s := by
  obtain ⟨_, _, planned⟩ := bind_eq_ok.mp planned
  obtain ⟨columns, _, planned⟩ := bind_eq_ok.mp planned
  obtain ⟨rows, _, made⟩ := bind_eq_ok.mp planned
  obtain rfl := Except.ok.inj made
  refine (lawful_planOutline outside _).append ?_
  rw [outcome_planOutline]
  exact .single (.plain [] rfl (Operator.fits_outside outside rfl))

theorem lawful_planImage {s : DrawingState} {places : Nat} {image : Object} {corner : Point}
    {width height : Single} {plan : Plan} (distinct : s.resources.Distinct)
    (outside : s.graphics.inText = false)
    (planned : s.planImage places image corner width height = .ok plan) :
    plan.Lawful (· = some (.image, image)) s := by
  obtain ⟨_, _, planned⟩ := bind_eq_ok.mp planned
  obtain ⟨placed, planned, made⟩ := bind_eq_ok.mp planned
  obtain ⟨numerals, _, single⟩ := bind_eq_ok.mp planned
  obtain rfl := Except.ok.inj single
  obtain rfl := Except.ok.inj made
  -- The image is bound when the state is saved, before it is drawn.
  have binds := Resources.Binds.add s.resources .image image
  have names := Resources.names_add distinct .image image
  exact .cons rfl (.save binds) (.cons rfl (.plain _ rfl (Operator.fits_outside outside rfl))
    (.cons rfl (.refer rfl (Operator.fits_outside outside rfl) rfl (.refl _ _) names)
      (.single .restore)))

end DrawingState

theorem Call.lawful_of_plan {places : Nat} {s : DrawingState} {call : Call} {plan : Plan}
    (distinct : s.resources.Distinct) (planned : call.plan places s = .ok plan) :
    plan.Lawful (· = call.resource?) s := by
  -- What a call has checked is what its steps need to fit where they are taken.
  cases call with
  | beginText =>
    obtain ⟨graphics, allowed, made⟩ := bind_eq_ok.mp planned
    obtain rfl := Except.ok.inj made
    obtain ⟨outside, rfl⟩ := GraphicsState.of_beginText allowed
    exact .single (.beginText outside)
  | endText =>
    obtain ⟨graphics, allowed, made⟩ := bind_eq_ok.mp planned
    obtain rfl := Except.ok.inj made
    obtain ⟨inside, rfl⟩ := GraphicsState.of_endText allowed
    exact .single (.endText inside)
  | setFont font size => exact DrawingState.lawful_planFont distinct planned
  | showText text =>
    obtain ⟨_, allowed, planned⟩ := bind_eq_ok.mp planned
    obtain ⟨⟨font, codes⟩, encoded, made⟩ := bind_eq_ok.mp planned
    obtain rfl := Except.ok.inj made
    obtain ⟨current, codes⟩ := DrawingState.of_encodeText encoded
    obtain ⟨subsets, recorded⟩ : ∃ subsets, s.recordText font text = { s with subsets } := by
      unfold DrawingState.recordText
      split
      · exact ⟨_, rfl⟩
      · exact ⟨s.subsets, rfl⟩
    rw [recorded]
    exact .single
      (.showText subsets (GraphicsState.inText_of_requireInsideText allowed) current codes)
  | setLeading | transform =>
    exact DrawingState.lawful_planReals rfl (Operator.fits_anywhere _ rfl rfl) planned
  | nextLine =>
    obtain ⟨_, allowed, made⟩ := bind_eq_ok.mp planned
    obtain rfl := Except.ok.inj made
    have inside := GraphicsState.inText_of_requireInsideText allowed
    exact .single (.plain [] rfl (Operator.fits_inside inside rfl))
  | moveLine | setTextMatrix =>
    obtain ⟨_, allowed, planned⟩ := bind_eq_ok.mp planned
    have inside := GraphicsState.inText_of_requireInsideText allowed
    exact DrawingState.lawful_planReals rfl (Operator.fits_inside inside rfl) planned
  | save =>
    obtain rfl := Except.ok.inj planned
    exact .single (.save (.refl _ s.resources))
  | restore =>
    obtain rfl := Except.ok.inj planned
    exact .single .restore
  | setParameters =>
    obtain rfl := Except.ok.inj planned
    exact DrawingState.lawful_planResource distinct rfl (Operator.fits_anywhere _ rfl rfl)
  | setColorSpace use space =>
    obtain rfl := Except.ok.inj planned
    exact .single (DrawingState.lawful_selectColorSpace distinct use space)
  | setColor => exact DrawingState.lawful_planColor distinct planned
  -- Colours in numbers are plain: no space is tracked for them.
  | setRgbLevels use | setCmykLevels use | setGrayLevel use | setCmyk use | setGray use =>
    obtain ⟨_, _, planned⟩ := bind_eq_ok.mp planned
    cases use <;>
      exact DrawingState.lawful_planReals rfl (Operator.fits_anywhere _ rfl rfl) planned
  | addRectangle | curve | curveFromCurrent | curveToFinal | moveTo | lineTo | setLineWidth
  | setMiterLimit =>
    obtain ⟨_, allowed, planned⟩ := bind_eq_ok.mp planned
    have outside := GraphicsState.inText_of_requireOutsideText allowed
    exact DrawingState.lawful_planReals rfl (Operator.fits_outside outside rfl) planned
  | addPolygon =>
    obtain ⟨_, allowed, planned⟩ := bind_eq_ok.mp planned
    exact DrawingState.lawful_planPolygon (GraphicsState.inText_of_requireOutsideText allowed) planned
  | closePath =>
    obtain ⟨_, allowed, made⟩ := bind_eq_ok.mp planned
    obtain rfl := Except.ok.inj made
    have outside := GraphicsState.inText_of_requireOutsideText allowed
    exact .single (.plain [] rfl (Operator.fits_outside outside rfl))
  | paint painting =>
    obtain ⟨_, allowed, made⟩ := bind_eq_ok.mp planned
    obtain rfl := Except.ok.inj made
    have outside := GraphicsState.inText_of_requireOutsideText allowed
    cases painting <;> exact .single (.plain [] rfl (Operator.fits_outside outside rfl))
  | fillBy rule =>
    obtain ⟨_, allowed, made⟩ := bind_eq_ok.mp planned
    obtain rfl := Except.ok.inj made
    have outside := GraphicsState.inText_of_requireOutsideText allowed
    cases rule <;> exact .single (.plain [] rfl (Operator.fits_outside outside rfl))
  | shade | drawForm =>
    obtain ⟨_, allowed, made⟩ := bind_eq_ok.mp planned
    obtain rfl := Except.ok.inj made
    have outside := GraphicsState.inText_of_requireOutsideText allowed
    exact DrawingState.lawful_planResource distinct rfl (Operator.fits_outside outside rfl)
  | clip rule =>
    cases rule with
    | nonZero | evenOdd =>
      obtain ⟨_, allowed, made⟩ := bind_eq_ok.mp planned
      obtain rfl := Except.ok.inj made
      have outside := GraphicsState.inText_of_requireOutsideText allowed
      exact .cons rfl (.plain [] rfl (Operator.fits_outside outside rfl))
        (.single (.plain [] rfl (Operator.fits_outside outside rfl)))
  | setLineJoin | setLineCap =>
    obtain ⟨_, allowed, planned⟩ := bind_eq_ok.mp planned
    obtain ⟨_, _, made⟩ := bind_eq_ok.mp planned
    obtain rfl := Except.ok.inj made
    have outside := GraphicsState.inText_of_requireOutsideText allowed
    exact .single (.plain _ rfl (Operator.fits_outside outside rfl))
  | setDash =>
    obtain ⟨_, allowed, planned⟩ := bind_eq_ok.mp planned
    obtain ⟨_, _, planned⟩ := bind_eq_ok.mp planned
    obtain ⟨_, _, made⟩ := bind_eq_ok.mp planned
    obtain rfl := Except.ok.inj made
    have outside := GraphicsState.inText_of_requireOutsideText allowed
    exact .single (.plain _ rfl (Operator.fits_outside outside rfl))
  | drawImage | drawImageAt =>
    obtain ⟨_, allowed, planned⟩ := bind_eq_ok.mp planned
    exact DrawingState.lawful_planImage distinct
      (GraphicsState.inText_of_requireOutsideText allowed) planned
  | beginMarked | endMarked =>
    obtain rfl := Except.ok.inj planned
    exact .single (.plain _ rfl (Operator.fits_anywhere _ rfl rfl))
  | beginMarkedWith tag properties =>
    obtain rfl := Except.ok.inj planned
    exact .single (.beginMarkedWith tag rfl (.add s.resources .properties properties)
      (Resources.names_add distinct .properties properties))
  | appendText | appendBytes =>
    obtain rfl := Except.ok.inj planned
    exact .single (.verbatim _)

/-! ## Runs -/

namespace DrawingState

/-- The steps of a run are lawful, each for what one of its calls is about. -/
theorem lawful_planAll {s : DrawingState} (distinct : s.resources.Distinct) (places : Nat)
    (calls : List Call) :
    (s.planAll places calls).Lawful (fun subject? => ∃ call ∈ calls, subject? = call.resource?)
      s := by
  induction calls generalizing s with
  | nil => exact .nil s
  | cons call rest inductionHypothesis =>
    -- The rest of the run is lawful for fewer calls.
    have later {s : DrawingState} (distinct : s.resources.Distinct) :
        (s.planAll places rest).Lawful
          (fun subject? => ∃ other ∈ call :: rest, subject? = other.resource?) s := by
      refine (inductionHypothesis distinct).mono ?_
      rintro subject? ⟨other, member, about⟩
      exact ⟨other, List.mem_cons_of_mem call member, about⟩
    rw [planAll]
    cases planned : call.plan places s with
    | error e => exact later distinct
    | ok plan =>
      have lawful := Call.lawful_of_plan distinct planned
      refine Plan.Lawful.append (lawful.mono fun subject? about => ?_)
        (later (lawful.distinct distinct))
      exact ⟨call, List.mem_cons_self, about⟩

end DrawingState

end PdfCanvas
