import PdfCanvas.Content
import PdfCanvas.Proofs.Outcomes

/-!
# Plans of drawing calls

A plan tells all that a call does before anything of it is done. It either refuses the call, or lists what
is written step by step, each step with the state that holds from its first byte on.
`PdfCanvas.Proofs.Content.Refinement` shows that carrying out a call is following its plan.
-/

namespace PdfCanvas

/-- Something to write. -/
inductive Emission where
  | instruction (written : Instruction)
  | verbatim (written : Bytes)

namespace Emission

def bytes : Emission → Bytes
  | .instruction written => written.bytes
  | .verbatim written => written

/-- The instructions written, none for bytes that the caller gives. -/
def instructions : Emission → List Instruction
  | .instruction written => [written]
  | .verbatim _ => []

end Emission

/-- A step of a plan: the state from here on, and what is written in it. -/
structure Step where
  state : DrawingState
  emission : Emission

/-- The steps of a call that is allowed. -/
abbrev Plan := List Step

namespace GraphicsState

theorem inText_of_requireOutsideText {g : GraphicsState} {operation : String}
    (allowed : g.requireOutsideText operation = .ok ()) : g.inText = false := by
  cases inText : g.inText with
  | false => rfl
  | true => simp [requireOutsideText, inText] at allowed

theorem inText_of_requireInsideText {g : GraphicsState} {operation : String}
    (allowed : g.requireInsideText operation = .ok ()) : g.inText = true := by
  cases inText : g.inText with
  | true => rfl
  | false => simp [requireInsideText, inText] at allowed

theorem of_beginText {g begun : GraphicsState} (allowed : g.beginText = .ok begun) :
    g.inText = false ∧ begun = { g with inText := true } := by
  unfold beginText at allowed
  cases inText : g.inText with
  | false =>
    rw [inText] at allowed
    exact ⟨rfl, (Except.ok.inj allowed).symm⟩
  | true => simp [inText] at allowed

theorem of_endText {g ended : GraphicsState} (allowed : g.endText = .ok ended) :
    g.inText = true ∧ ended = { g with inText := false } := by
  unfold endText at allowed
  cases inText : g.inText with
  | false => simp [inText] at allowed
  | true =>
    rw [inText] at allowed
    exact ⟨rfl, (Except.ok.inj allowed).symm⟩

end GraphicsState

namespace Plan

def bytes (plan : Plan) : Bytes := plan.flatMap (·.emission.bytes)

def instructions (plan : Plan) : List Instruction := plan.flatMap (·.emission.instructions)

/-- The state after a plan that starts in `before`. -/
def outcome (before : DrawingState) (plan : Plan) : DrawingState :=
  plan.foldl (fun _ step => step.state) before

end Plan

namespace DrawingState

def step (s : DrawingState) (operator : Operator) (operands : List Operand) : Step :=
  ⟨s, .instruction ⟨operands, operator⟩⟩

def planReals (s : DrawingState) (places : Nat) (operator : Operator) (values : List Single) :
    Except Error Plan := do
  let numerals ← Operand.numerals places values
  return [s.step operator (numerals.map .number)]

def planResource (s : DrawingState) (operator : Operator) (kind : ResourceKind) (object : Object) :
    Plan :=
  let (name, bound) := s.bind kind object
  [bound.step operator [.name name]]

def selectColorSpace (s : DrawingState) (use : ColorUse) (space : ColorSpace) : Step :=
  let (name, bound) := s.bindColorSpace space
  { bound with graphics := use.setSpace bound.graphics space }.step (.colorSpace use) [.name name]

def planFont (s : DrawingState) (places : Nat) (font : Font) (size : Single) :
    Except Error Plan := do
  let numerals ← Operand.numerals places [size]
  let (name, bound) := (s.registerFont font).bind .font font.toObject
  let selected := { bound with graphics := bound.graphics.setFont font }
  return [selected.step .selectFont (.name name :: numerals.map .number)]

def planText (s : DrawingState) (text : String) : Except Error Plan := do
  s.graphics.requireInsideText "showText"
  let (font, codes) ← s.encodeText text
  return [(s.recordText font text).step .showText [.string codes]]

/-- Selects the space of the colour, unless it is the current one, and sets the components. -/
def planColor (s : DrawingState) (places : Nat) (use : ColorUse) (color : Color) :
    Except Error Plan := do
  checkComponentCount color
  let numerals ← Operand.numerals places color.components
  if use.isCurrent s.graphics color.space then
    return [s.step (.color use) (numerals.map .number)]
  else
    let selection := s.selectColorSpace use color.space
    return [selection, selection.state.step (.color use) (numerals.map .number)]

/-- Moves to the first point and draws lines to the others. -/
def planOutline (s : DrawingState) : List (Decimal × Decimal) → Plan
  | [] => []
  | first :: rest =>
    s.step .moveTo [.number first.1, .number first.2] ::
      rest.map fun corner => s.step .lineTo [.number corner.1, .number corner.2]

theorem outcome_planOutline (s : DrawingState) (corners : List (Decimal × Decimal)) :
    Plan.outcome s (s.planOutline corners) = s := by
  cases corners with
  | nil => rfl
  | cons first rest =>
    change (rest.map _).foldl (fun _ step => Step.state step) s = s
    induction rest with
    | nil => rfl
    | cons corner rest inductionHypothesis => exact inductionHypothesis

def planPolygon (s : DrawingState) (places : Nat) (xs ys : List Single) : Except Error Plan := do
  checkCoordinates xs ys
  let xs ← Operand.numerals places xs
  let ys ← Operand.numerals places ys
  return s.planOutline (xs.zip ys) ++ [s.step .closePath []]

/-- Draws an image object in a rectangle, with the graphics state saved around it. -/
def planImage (s : DrawingState) (places : Nat) (image : Object) (corner : Point)
    (width height : Single) : Except Error Plan := do
  checkFinite [corner.x, corner.y, width, height]
  let (name, bound) := s.bind .image image
  let saved := { bound with graphics := bound.graphics.save }
  let restored := { saved with graphics := saved.graphics.restore }
  let placement : Matrix := ⟨width, .zero, .zero, height, corner.x, corner.y⟩
  let placed ← saved.planReals places .concatMatrix placement.toList
  return saved.step .save [] :: placed ++
    [saved.step .drawObject [.name name], restored.step .restore []]

theorem of_encodeText {s : DrawingState} {text : String} {font : Font} {codes : Bytes}
    (encoded : s.encodeText text = .ok (font, codes)) :
    s.graphics.font? = some font ∧ font.encode text = .ok codes := by
  unfold encodeText at encoded
  cases selected : s.graphics.font? with
  | none => simp [selected] at encoded
  | some current =>
    simp only [selected] at encoded
    obtain ⟨written, encodes, made⟩ := bind_eq_ok.mp encoded
    cases made
    exact ⟨rfl, encodes⟩

end DrawingState

open DrawingState in
/-- The plan of a call, or the reason why the call is refused. -/
def Call.plan (places : Nat) (s : DrawingState) : Call → Except Error Plan
  | .beginText => do
    let graphics ← s.graphics.beginText
    return [{ s with graphics }.step .beginText []]
  | .endText => do
    let graphics ← s.graphics.endText
    return [{ s with graphics }.step .endText []]
  | .setFont font size => s.planFont places font size
  | .showText text => s.planText text
  | .setLeading leading => s.planReals places .setLeading [leading]
  | .nextLine => do
    s.graphics.requireInsideText "newLine"
    return [s.step .nextLine []]
  | .moveLine offset => do
    s.graphics.requireInsideText "newLineAtOffset"
    s.planReals places .moveLine offset.toList
  | .setTextMatrix matrix => do
    s.graphics.requireInsideText "setTextMatrix"
    s.planReals places .textMatrix matrix.toList
  | .transform matrix => s.planReals places .concatMatrix matrix.toList
  | .save => return [{ s with graphics := s.graphics.save }.step .save []]
  | .restore => return [{ s with graphics := s.graphics.restore }.step .restore []]
  | .setParameters parameters => return s.planResource .parameters .graphicsState parameters
  | .setColorSpace use space => return [s.selectColorSpace use space]
  | .setColor use color => s.planColor places use color
  | .setRgbLevels use red green blue => do
    s.planReals places (.rgb use) (← unitsOfLevels "RGB" [red, green, blue])
  | .setCmyk use inks => do
    checkUnits "CMYK" inks.toList
    s.planReals places (.cmyk use) inks.toList
  | .setCmykLevels use inks => do
    s.planReals places (.cmyk use) (← unitsOfLevels "CMYK" inks.toList)
  | .setGray use gray => do
    checkUnits "gray" [gray]
    s.planReals places (.gray use) [gray]
  | .setGrayLevel use gray => do
    s.planReals places (.gray use) (← unitsOfLevels "gray" [gray])
  | .addRectangle corner width height => do
    s.graphics.requireOutsideText "addRect"
    s.planReals places .rectangle [corner.x, corner.y, width, height]
  | .curve first second last => do
    s.graphics.requireOutsideText "curveTo"
    s.planReals places .curve (first.toList ++ second.toList ++ last.toList)
  | .curveFromCurrent second last => do
    s.graphics.requireOutsideText "curveTo2"
    s.planReals places .curveFromCurrent (second.toList ++ last.toList)
  | .curveToFinal first last => do
    s.graphics.requireOutsideText "curveTo1"
    s.planReals places .curveToFinal (first.toList ++ last.toList)
  | .moveTo point => do
    s.graphics.requireOutsideText "moveTo"
    s.planReals places .moveTo point.toList
  | .lineTo point => do
    s.graphics.requireOutsideText "lineTo"
    s.planReals places .lineTo point.toList
  | .addPolygon xs ys => do
    s.graphics.requireOutsideText "addPolygon"
    s.planPolygon places xs ys
  | .closePath => do
    s.graphics.requireOutsideText "closePath"
    return [s.step .closePath []]
  | .paint painting => do
    s.graphics.requireOutsideText painting.operation
    return [s.step painting.operator []]
  | .fillBy rule => do
    s.graphics.requireOutsideText (Painting.ofRule rule).operation
    return [s.step (Painting.ofRule rule).operator []]
  | .shade shading => do
    s.graphics.requireOutsideText "shadingFill"
    return s.planResource .shade .shading shading
  | .clip .nonZero => do
    s.graphics.requireOutsideText "clip"
    return [s.step .clip [], s.step .endPath []]
  | .clip .evenOdd => do
    s.graphics.requireOutsideText "clipEvenOdd"
    return [s.step .clipEvenOdd [], s.step .endPath []]
  | .setLineWidth width => do
    s.graphics.requireOutsideText "setLineWidth"
    s.planReals places .lineWidth [width]
  | .setLineJoin style => do
    s.graphics.requireOutsideText "setLineJoinStyle"
    let join ← LineJoin.ofInt style
    return [s.step .lineJoin [.integer join.number]]
  | .setLineCap style => do
    s.graphics.requireOutsideText "setLineCapStyle"
    let cap ← LineCap.ofInt style
    return [s.step .lineCap [.integer cap.number]]
  | .setDash pattern phase => do
    s.graphics.requireOutsideText "setLineDashPattern"
    let pattern ← Operand.numerals places pattern
    let phase ← Operand.numerals places [phase]
    return [s.step .dash (.numbers pattern :: phase.map .number)]
  | .setMiterLimit limit => do
    s.graphics.requireOutsideText "setMiterLimit"
    s.planReals places .miterLimit [limit]
  | .drawImage image corner width height => do
    s.graphics.requireOutsideText "drawImage"
    s.planImage places image.toObject corner width height
  | .drawImageAt image corner => do
    s.graphics.requireOutsideText "drawImage"
    s.planImage places image.toObject corner (Floating.ofNat image.width)
      (Floating.ofNat image.height)
  | .drawForm form => do
    s.graphics.requireOutsideText "drawForm"
    return s.planResource .drawObject .form form
  | .beginMarked tag => return [s.step .beginMarked [.name tag]]
  | .beginMarkedWith tag properties =>
    let (name, bound) := s.bind .properties properties
    return [bound.step .beginMarkedWith [.name tag, .name name]]
  | .endMarked => return [s.step .endMarked []]
  | .appendText text => return [⟨s, .verbatim (utf8 text)⟩]
  | .appendBytes bytes => return [⟨s, .verbatim bytes⟩]

namespace ContentStream

/-- Writes the steps of a plan; stops at the first that does not fit the sink. -/
def carryOut (c : ContentStream) : Plan → Except Error Unit × ContentStream
  | [] => (.ok (), c)
  | step :: rest =>
    let (outcome, sink) := c.sink.write step.emission.bytes
    let c := { c with state := step.state, sink }
    match outcome with
    | .ok () => c.carryOut rest
    | .error e => (.error e, c)

/-- Carries out a plan; a call that is refused leaves the stream as it is. -/
def follow (c : ContentStream) : Except Error Plan → Except Error Unit × ContentStream
  | .ok plan => c.carryOut plan
  | .error e => (.error e, c)

end ContentStream

end PdfCanvas
