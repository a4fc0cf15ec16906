import PdfCanvas.Proofs.Content.Runs
import PdfCanvas.Proofs.Reader.Operations

/-!
# The grammar of content

The operations that drawing calls stand for, by operator and operands, and the proof that a reader of
what was written finds these operations, in the order of the calls, and nothing else.
-/

namespace PdfCanvas

open Reader

/-! ## The operations of calls -/

def realTokens? (places : Nat) (values : List Single) : Option (List Token) :=
  values.mapM fun x => (x.operand? places).map .number

def realOperation? (places : Nat) (values : List Single) (operator : String) :
    Option (List Operation) := do
  return [⟨← realTokens? places values, operator⟩]

def scaledLevels (levels : List Int) : List Single :=
  levels.map fun level => Floating.ofInt level / Floating.ofNat 255

namespace DrawingState

/-- The name by which content refers to an object. -/
def resourceName (s : DrawingState) (kind : ResourceKind) (object : Object) : Token :=
  .name (utf8 (s.resources.add kind object).1)

def spaceName (s : DrawingState) (space : ColorSpace) : Token :=
  if space.hasFixedName then .name (utf8 space.name)
  else s.resourceName .colorSpace space.toObject

end DrawingState

def ColorUse.choose {α : Type} (use : ColorUse) (stroking filling : α) : α :=
  match use with
  | .stroking => stroking
  | .filling => filling

/-- Moves to the first corner and draws lines to the others. -/
def outlineOperations : List (Token × Token) → List Operation
  | [] => []
  | first :: rest => ⟨[first.1, first.2], "m"⟩ :: rest.map fun corner => ⟨[corner.1, corner.2], "l"⟩

/-- The operations that a call stands for in a state. There are none for a call that hands over bytes,
nor for arguments that have no written form. -/
def Call.operations? (places : Nat) (s : DrawingState) : Call → Option (List Operation)
  | .beginText => some [⟨[], "BT"⟩]
  | .endText => some [⟨[], "ET"⟩]
  | .setFont font size => do
    return [⟨s.resourceName .font font.toObject :: (← realTokens? places [size]), "Tf"⟩]
  | .showText text => do
    let codes ← ((← s.graphics.font?).encode text).toOption
    return [⟨[.string codes], "Tj"⟩]
  | .setLeading leading => realOperation? places [leading] "TL"
  | .nextLine => some [⟨[], "T*"⟩]
  | .moveLine offset => realOperation? places [offset.x, offset.y] "Td"
  | .setTextMatrix m => realOperation? places [m.a, m.b, m.c, m.d, m.e, m.f] "Tm"
  | .transform m => realOperation? places [m.a, m.b, m.c, m.d, m.e, m.f] "cm"
  | .save => some [⟨[], "q"⟩]
  | .restore => some [⟨[], "Q"⟩]
  | .setParameters parameters => some [⟨[s.resourceName .graphicsState parameters], "gs"⟩]
  | .setColorSpace use space => some [⟨[s.spaceName space], use.choose "CS" "cs"⟩]
  | .setColor use color => do
    let components ← realTokens? places color.components
    let selection := if use.isCurrent s.graphics color.space then []
      else [⟨[s.spaceName color.space], use.choose "CS" "cs"⟩]
    return selection ++ [⟨components, use.choose "SC" "sc"⟩]
  | .setRgbLevels use red green blue =>
    realOperation? places (scaledLevels [red, green, blue]) (use.choose "RG" "rg")
  | .setCmyk use inks => realOperation? places inks.toList (use.choose "K" "k")
  | .setCmykLevels use inks =>
    realOperation? places (scaledLevels inks.toList) (use.choose "K" "k")
  | .setGray use gray => realOperation? places [gray] (use.choose "G" "g")
  | .setGrayLevel use gray => realOperation? places (scaledLevels [gray]) (use.choose "G" "g")
  | .addRectangle corner width height =>
    realOperation? places [corner.x, corner.y, width, height] "re"
  | .curve first second last =>
    realOperation? places [first.x, first.y, second.x, second.y, last.x, last.y] "c"
  | .curveFromCurrent second last =>
    realOperation? places [second.x, second.y, last.x, last.y] "v"
  | .curveToFinal first last => realOperation? places [first.x, first.y, last.x, last.y] "y"
  | .moveTo point => realOperation? places [point.x, point.y] "m"
  | .lineTo point => realOperation? places [point.x, point.y] "l"
  | .addPolygon xs ys => do
    let corners := (← realTokens? places xs).zip (← realTokens? places ys)
    return outlineOperations corners ++ [⟨[], "h"⟩]
  | .closePath => some [⟨[], "h"⟩]
  | .paint .stroke => some [⟨[], "S"⟩]
  | .paint .closeStroke => some [⟨[], "s"⟩]
  | .paint .fill => some [⟨[], "f"⟩]
  | .paint .fillEvenOdd => some [⟨[], "f*"⟩]
  | .paint .fillStroke => some [⟨[], "B"⟩]
  | .paint .fillStrokeEvenOdd => some [⟨[], "B*"⟩]
  | .paint .closeFillStroke => some [⟨[], "b"⟩]
  | .paint .closeFillStrokeEvenOdd => some [⟨[], "b*"⟩]
  | .paint .leave => some [⟨[], "n"⟩]
  | .fillBy .nonZero => some [⟨[], "f"⟩]
  | .fillBy .evenOdd => some [⟨[], "f*"⟩]
  | .shade shading => some [⟨[s.resourceName .shading shading], "sh"⟩]
  | .clip .nonZero => some [⟨[], "W"⟩, ⟨[], "n"⟩]
  | .clip .evenOdd => some [⟨[], "W*"⟩, ⟨[], "n"⟩]
  | .setLineWidth width => realOperation? places [width] "w"
  | .setLineJoin style => some [⟨[.number (.ofInt style)], "j"⟩]
  | .setLineCap style => some [⟨[.number (.ofInt style)], "J"⟩]
  | .setDash pattern phase => do
    let lengths ← realTokens? places pattern
    return [⟨.arrayStart :: lengths ++ .arrayEnd :: (← realTokens? places [phase]), "d"⟩]
  | .setMiterLimit limit => realOperation? places [limit] "M"
  | .drawImage image corner width height => do
    let placement ← realTokens? places [width, .zero, .zero, height, corner.x, corner.y]
    return [⟨[], "q"⟩, ⟨placement, "cm"⟩, ⟨[s.resourceName .image image.toObject], "Do"⟩,
      ⟨[], "Q"⟩]
  | .drawImageAt image corner => do
    let placement ← realTokens? places
      [Floating.ofNat image.width, .zero, .zero, Floating.ofNat image.height, corner.x, corner.y]
    return [⟨[], "q"⟩, ⟨placement, "cm"⟩, ⟨[s.resourceName .image image.toObject], "Do"⟩,
      ⟨[], "Q"⟩]
  | .drawForm form => some [⟨[s.resourceName .form form], "Do"⟩]
  | .beginMarked tag => some [⟨[.name (utf8 tag)], "BMC"⟩]
  | .beginMarkedWith tag properties =>
    some [⟨[.name (utf8 tag), s.resourceName .properties properties], "BDC"⟩]
  | .endMarked => some [⟨[], "EMC"⟩]
  | .appendText _ => none
  | .appendBytes _ => none

namespace ContentStream

/-- The operations that the successful calls of a run stand for, in the order of the calls. -/
def operations? (c : ContentStream) : List Call → Option (List Operation)
  | [] => some []
  | call :: rest => do
    let first ← match (c.perform call).1 with
      | .ok () => call.operations? c.places c.state
      | .error _ => some []
    return first ++ (← (c.perform call).2.operations? rest)

end ContentStream

/-- A call that draws, rather than handing over bytes as they are. -/
def Call.isDrawing : Call → Bool
  | .appendText _ | .appendBytes _ => false
  | _ => true

/-! ## Plans spell operations -/

/-- A plan that writes instructions only, and which operations a reader takes them for. -/
structure Plan.Spells (plan : Plan) (operations : List Operation) : Prop where
  bytes : plan.bytes = plan.instructions.flatMap Instruction.bytes
  operations : plan.instructions.map operationOf = operations

namespace Plan.Spells

theorem nil : Spells [] [] := ⟨rfl, rfl⟩

theorem cons {plan : Plan} {operations : List Operation} (s : DrawingState) (o : Operator)
    (operands : List Operand) (others : plan.Spells operations) :
    Spells (s.step o operands :: plan) (⟨operands.flatMap tokensOf, o.keyword⟩ :: operations) := by
  obtain ⟨bytes, read⟩ := others
  refine ⟨?_, ?_⟩
  · rw [Plan.bytes, List.flatMap_cons, ← Plan.bytes, bytes]
    rfl
  · rw [← read]
    rfl

theorem single (s : DrawingState) (o : Operator) (operands : List Operand) :
    Spells [s.step o operands] [⟨operands.flatMap tokensOf, o.keyword⟩] := cons s o operands nil

theorem append {first second : Plan} {earlier later : List Operation}
    (head : first.Spells earlier) (tail : second.Spells later) :
    Spells (first ++ second) (earlier ++ later) := by
  refine ⟨?_, ?_⟩
  · rw [Plan.bytes_append, Plan.instructions_append, List.flatMap_append, head.bytes, tail.bytes]
  · rw [Plan.instructions_append, List.map_append, head.operations, tail.operations]

end Plan.Spells

theorem realTokens?_of_numerals {places : Nat} {values : List Single} {numerals : List Decimal}
    (printed : Operand.numerals places values = .ok numerals) :
    realTokens? places values = some (numerals.map .number) := by
  induction values generalizing numerals with
  | nil =>
    rw [Operand.numerals_nil] at printed
    cases printed
    rfl
  | cons x values inductionHypothesis =>
    obtain ⟨first, others, firstPrinted, restPrinted, rfl⟩ := Operand.numerals_cons_of_ok printed
    have rest := inductionHypothesis restPrinted
    unfold realTokens? at rest ⊢
    rw [List.mapM_cons, Operand.operand?_of_numeral firstPrinted, rest]
    rfl

theorem tokensOf_numbers (numerals : List Decimal) :
    (numerals.map Operand.number).flatMap tokensOf = numerals.map .number := by
  induction numerals with
  | nil => rfl
  | cons first numerals inductionHypothesis =>
    rw [List.map_cons, List.flatMap_cons, inductionHypothesis]
    rfl

theorem scaledLevels_of_units {color : String} {levels : List Int} {units : List Single}
    (inRange : unitsOfLevels color levels = .ok units) : units = scaledLevels levels := by
  induction levels generalizing units with
  | nil => cases inRange; rfl
  | cons level levels inductionHypothesis =>
    unfold unitsOfLevels at inRange
    rw [List.mapM_cons] at inRange
    obtain ⟨first, firstInRange, inRange⟩ := bind_eq_ok.mp inRange
    obtain ⟨rest, restInRange, made⟩ := bind_eq_ok.mp inRange
    cases made
    rw [inductionHypothesis restInRange]
    split at firstInRange
    · cases firstInRange; rfl
    · cases firstInRange

theorem LineJoin.number_of_ofInt {style : Int} {join : LineJoin}
    (known : LineJoin.ofInt style = .ok join) : join.number = style := by
  unfold LineJoin.ofInt at known
  split at known
  · cases known; exact Eq.symm ‹_›
  · split at known
    · cases known; exact Eq.symm ‹_›
    · split at known
      · cases known; exact Eq.symm ‹_›
      · cases known

theorem LineCap.number_of_ofInt {style : Int} {cap : LineCap}
    (known : LineCap.ofInt style = .ok cap) : cap.number = style := by
  unfold LineCap.ofInt at known
  split at known
  · cases known; exact Eq.symm ‹_›
  · split at known
    · cases known; exact Eq.symm ‹_›
    · split at known
      · cases known; exact Eq.symm ‹_›
      · cases known

namespace DrawingState

theorem spells_planReals {s : DrawingState} {places : Nat} {o : Operator} {values : List Single}
    {plan : Plan} (planned : s.planReals places o values = .ok plan) :
    ∃ operations, realOperation? places values o.keyword = some operations ∧
      plan.Spells operations := by
  obtain ⟨numerals, printed, made⟩ := bind_eq_ok.mp planned
  cases made
  refine ⟨[⟨numerals.map .number, o.keyword⟩], ?_, ?_⟩
  · rw [realOperation?, realTokens?_of_numerals printed]
    rfl
  · rw [← tokensOf_numbers]
    exact .single s o _

theorem spells_planLevels {s : DrawingState} {places : Nat} {o : Operator} {color : String}
    {levels : List Int} {plan : Plan}
    (planned : (do s.planReals places o (← unitsOfLevels color levels)) = .ok plan) :
    ∃ operations, realOperation? places (scaledLevels levels) o.keyword = some operations ∧
      plan.Spells operations := by
  obtain ⟨units, inRange, planned⟩ := bind_eq_ok.mp planned
  rw [← scaledLevels_of_units inRange]
  exact spells_planReals planned

theorem tokensOf_spaceName (s : DrawingState) (space : ColorSpace) :
    tokensOf (.name (s.bindColorSpace space).1) = [s.spaceName space] := by
  unfold bindColorSpace spaceName
  by_cases fixed : space.hasFixedName = true
  · rw [if_pos fixed, if_pos fixed]
    rfl
  · rw [if_neg fixed, if_neg fixed]
    rfl

theorem spells_selectColorSpace (s : DrawingState) (use : ColorUse) (space : ColorSpace) :
    Plan.Spells [s.selectColorSpace use space] [⟨[s.spaceName space], use.choose "CS" "cs"⟩] := by
  have keyword : (Operator.colorSpace use).keyword = use.choose "CS" "cs" := by cases use <;> rfl
  rw [← tokensOf_spaceName, ← keyword]
  exact .single _ _ [_]

theorem spells_planFont {s : DrawingState} {places : Nat} {font : Font} {size : Single}
    {plan : Plan} (planned : s.planFont places font size = .ok plan) :
    ∃ operations, (Call.setFont font size).operations? places s = some operations ∧
      plan.Spells operations := by
  obtain ⟨numerals, printed, made⟩ := bind_eq_ok.mp planned
  cases made
  refine ⟨[⟨s.resourceName .font font.toObject :: numerals.map .number, "Tf"⟩], ?_, ?_⟩
  · rw [Call.operations?, realTokens?_of_numerals printed]
    rfl
  · have named : s.resourceName .font font.toObject =
        (s.registerFont font).resourceName .font font.toObject := by
      unfold resourceName registerFont
      split <;> rfl
    rw [← tokensOf_numbers, named]
    exact .single _ _ (.name _ :: numerals.map .number)

theorem spells_planColor {s : DrawingState} {places : Nat} {use : ColorUse} {color : Color}
    {plan : Plan} (planned : s.planColor places use color = .ok plan) :
    ∃ operations, (Call.setColor use color).operations? places s = some operations ∧
      plan.Spells operations := by
  obtain ⟨_, _, planned⟩ := bind_eq_ok.mp planned
  obtain ⟨numerals, printed, planned⟩ := bind_eq_ok.mp planned
  have keyword : (Operator.color use).keyword = use.choose "SC" "sc" := by cases use <;> rfl
  rw [Call.operations?, realTokens?_of_numerals printed]
  refine ⟨_, rfl, ?_⟩
  rw [← tokensOf_numbers, ← keyword]
  split at planned
  · cases planned
    rw [if_pos ‹_›]
    exact .single _ _ _
  · cases planned
    rw [if_neg ‹_›]
    exact (spells_selectColorSpace s use color.space).append (.single _ _ _)

theorem spells_lines (s : DrawingState) (corners : List (Decimal × Decimal)) :
    Plan.Spells (corners.map fun corner => s.step .lineTo [.number corner.1, .number corner.2])
      (corners.map fun corner => ⟨[.number corner.1, .number corner.2], "l"⟩) := by
  induction corners with
  | nil => exact .nil
  | cons first corners inductionHypothesis => exact .cons s .lineTo [_, _] inductionHypothesis

theorem spells_planOutline (s : DrawingState) (corners : List (Decimal × Decimal)) :
    Plan.Spells (s.planOutline corners)
      (outlineOperations (corners.map (Prod.map .number .number))) := by
  cases corners with
  | nil => exact .nil
  | cons first corners =>
    have lines := spells_lines s corners
    rw [List.map_cons, outlineOperations, List.map_map]
    exact .cons s .moveTo [_, _] lines

theorem spells_planPolygon {s : DrawingState} {places : Nat} {xs ys : List Single} {plan : Plan}
    (planned : s.planPolygon places xs ys = .ok plan) :
    ∃ operations, (Call.addPolygon xs ys).operations? places s = some operations ∧
      plan.Spells operations := by
  obtain ⟨_, _, planned⟩ := bind_eq_ok.mp planned
  obtain ⟨columns, printedX, planned⟩ := bind_eq_ok.mp planned
  obtain ⟨rows, printedY, made⟩ := bind_eq_ok.mp planned
  cases made
  rw [Call.operations?, realTokens?_of_numerals printedX, realTokens?_of_numerals printedY]
  refine ⟨_, rfl, ?_⟩
  rw [List.zip_map]
  exact (spells_planOutline s (columns.zip rows)).append (.single s .closePath [])

theorem spells_planImage {s : DrawingState} {places : Nat} {image : Image} {corner : Point}
    {width height : Single} {plan : Plan}
    (planned : s.planImage places image.toObject corner width height = .ok plan) :
    ∃ operations, (Call.drawImage image corner width height).operations? places s =
      some operations ∧ plan.Spells operations := by
  obtain ⟨_, _, planned⟩ := bind_eq_ok.mp planned
  obtain ⟨placed, planned, made⟩ := bind_eq_ok.mp planned
  obtain ⟨numerals, printed, single⟩ := bind_eq_ok.mp planned
  obtain rfl := Except.ok.inj single
  obtain rfl := Except.ok.inj made
  have placement :
      realTokens? places [width, .zero, .zero, height, corner.x, corner.y] =
        some (numerals.map .number) :=
    realTokens?_of_numerals printed
  rw [Call.operations?, placement]
  refine ⟨_, rfl, ?_⟩
  rw [← tokensOf_numbers]
  exact .cons _ .save [] (.cons _ .concatMatrix _ (.cons _ .drawObject [_] (.single _ .restore [])))

end DrawingState

theorem Call.spells_of_plan {places : Nat} {s : DrawingState} {call : Call} {plan : Plan}
    (drawing : call.isDrawing = true) (planned : call.plan places s = .ok plan) :
    ∃ operations, call.operations? places s = some operations ∧ plan.Spells operations := by
  cases call with
  | beginText | endText =>
    obtain ⟨graphics, _, made⟩ := bind_eq_ok.mp planned
    cases made
    exact ⟨_, rfl, .single _ _ []⟩
  | setFont font size => exact DrawingState.spells_planFont planned
  | showText text =>
    obtain ⟨_, _, planned⟩ := bind_eq_ok.mp planned
    obtain ⟨⟨font, codes⟩, encoded, made⟩ := bind_eq_ok.mp planned
    cases made
    obtain ⟨selected, written⟩ := DrawingState.of_encodeText encoded
    rw [Call.operations?, selected]
    simp only [Option.bind_eq_bind, Option.bind_some, written]
    exact ⟨_, rfl, .single _ _ [_]⟩
  | setLeading leading | transform matrix => exact DrawingState.spells_planReals planned
  | nextLine | closePath =>
    obtain ⟨_, _, made⟩ := bind_eq_ok.mp planned
    cases made
    exact ⟨_, rfl, .single _ _ []⟩
  | moveLine | setTextMatrix | addRectangle | curve | curveFromCurrent | curveToFinal | moveTo
  | lineTo | setLineWidth | setMiterLimit =>
    obtain ⟨_, _, planned⟩ := bind_eq_ok.mp planned
    exact DrawingState.spells_planReals planned
  | save | restore | endMarked => cases planned; exact ⟨_, rfl, .single _ _ []⟩
  | setParameters | beginMarked | beginMarkedWith =>
    cases planned
    exact ⟨_, rfl, .single _ _ _⟩
  | setColorSpace use space =>
    cases planned
    exact ⟨_, rfl, DrawingState.spells_selectColorSpace s use space⟩
  | setColor use color => exact DrawingState.spells_planColor planned
  | setRgbLevels use | setCmykLevels use | setGrayLevel use =>
    cases use <;> exact DrawingState.spells_planLevels planned
  | setCmyk use | setGray use =>
    obtain ⟨_, _, planned⟩ := bind_eq_ok.mp planned
    cases use <;> exact DrawingState.spells_planReals planned
  | addPolygon xs ys =>
    obtain ⟨_, _, planned⟩ := bind_eq_ok.mp planned
    exact DrawingState.spells_planPolygon planned
  | paint painting =>
    obtain ⟨_, _, made⟩ := bind_eq_ok.mp planned
    cases made
    cases painting <;> exact ⟨_, rfl, .single _ _ []⟩
  | fillBy rule =>
    obtain ⟨_, _, made⟩ := bind_eq_ok.mp planned
    cases made
    cases rule <;> exact ⟨_, rfl, .single _ _ []⟩
  | shade | drawForm =>
    obtain ⟨_, _, made⟩ := bind_eq_ok.mp planned
    cases made
    exact ⟨_, rfl, .single _ _ _⟩
  | clip rule =>
    cases rule with
    | nonZero | evenOdd =>
      obtain ⟨_, _, made⟩ := bind_eq_ok.mp planned
      cases made
      exact ⟨_, rfl, .cons _ _ [] (.single _ _ [])⟩
  | setLineJoin style =>
    obtain ⟨_, _, planned⟩ := bind_eq_ok.mp planned
    obtain ⟨join, known, made⟩ := bind_eq_ok.mp planned
    cases made
    rw [← LineJoin.number_of_ofInt known]
    exact ⟨_, rfl, .single _ _ _⟩
  | setLineCap style =>
    obtain ⟨_, _, planned⟩ := bind_eq_ok.mp planned
    obtain ⟨cap, known, made⟩ := bind_eq_ok.mp planned
    cases made
    rw [← LineCap.number_of_ofInt known]
    exact ⟨_, rfl, .single _ _ _⟩
  | setDash pattern phase =>
    obtain ⟨_, _, planned⟩ := bind_eq_ok.mp planned
    obtain ⟨lengths, printed, planned⟩ := bind_eq_ok.mp planned
    obtain ⟨last, printedLast, made⟩ := bind_eq_ok.mp planned
    cases made
    rw [Call.operations?, realTokens?_of_numerals printed, realTokens?_of_numerals printedLast]
    refine ⟨_, rfl, ?_⟩
    have operands : (Operand.numbers lengths :: last.map .number).flatMap tokensOf =
        .arrayStart :: lengths.map .number ++ .arrayEnd :: last.map .number := by
      rw [List.flatMap_cons, tokensOf_numbers]
      simp [tokensOf]
    rw [← operands]
    exact .single s .dash _
  | drawImage image corner width height =>
    obtain ⟨_, _, planned⟩ := bind_eq_ok.mp planned
    exact DrawingState.spells_planImage planned
  | drawImageAt image corner =>
    obtain ⟨_, _, planned⟩ := bind_eq_ok.mp planned
    exact DrawingState.spells_planImage planned
  | appendText | appendBytes => cases drawing

/-! ## Runs -/

namespace ContentStream

theorem spells_planAll {c : ContentStream} (unlimited : c.sink.capacity = none) {calls : List Call}
    (drawing : ∀ call ∈ calls, call.isDrawing = true) :
    ∃ operations, c.operations? calls = some operations ∧
      (c.state.planAll c.places calls).Spells operations := by
  induction calls generalizing c with
  | nil => exact ⟨[], rfl, .nil⟩
  | cons call rest inductionHypothesis =>
    have othersDraw : ∀ call ∈ rest, call.isDrawing = true :=
      fun other member => drawing other (List.mem_cons_of_mem _ member)
    rw [operations?, DrawingState.planAll]
    cases planned : call.plan c.places c.state with
    | error e =>
      rw [perform_of_refusal planned]
      obtain ⟨later, listed, spelled⟩ := inductionHypothesis unlimited othersDraw
      simp only [listed]
      exact ⟨later, rfl, spelled⟩
    | ok plan =>
      rw [perform_of_plan unlimited planned]
      obtain ⟨first, stands, spelledFirst⟩ :=
        Call.spells_of_plan (drawing call List.mem_cons_self) planned
      obtain ⟨later, listed, spelled⟩ := inductionHypothesis (c := ⟨plan.outcome c.state,
        { c.sink with written := c.sink.written ++ plan.bytes }, c.places⟩) unlimited othersDraw
      simp only [stands, listed]
      exact ⟨first ++ later, rfl, spelledFirst.append spelled⟩

theorem readOperations_performAll (resources : Resources) (subsets : Subsets) (places : Nat)
    {calls : List Call} (drawing : ∀ call ∈ calls, call.isDrawing = true) :
    readOperations ((start .unlimited resources subsets places).performAll calls).sink.written =
      some (((start .unlimited resources subsets places).state.planAll places calls).instructions.map
        operationOf) := by
  obtain ⟨_, _, spelled⟩ :=
    spells_planAll (c := start .unlimited resources subsets places) rfl drawing
  rw [performAll_of_unlimited rfl]
  change readOperations ([] ++ Plan.bytes _) = _
  rw [List.nil_append, spelled.bytes]
  exact readOperations_instructions _

/-- What a run has written is read as the operations that its successful calls stand for, each with its
own operands, in the order of the calls. Calls that failed left nothing to read. -/
theorem content_reads_as_calls (resources : Resources) (subsets : Subsets) (places : Nat)
    (calls : List Call) (drawing : ∀ call ∈ calls, call.isDrawing = true) :
    ∃ operations, (start .unlimited resources subsets places).operations? calls = some operations ∧
      readOperations ((start .unlimited resources subsets places).performAll calls).sink.written =
        some operations := by
  obtain ⟨operations, listed, spelled⟩ :=
    spells_planAll (c := start .unlimited resources subsets places) rfl drawing
  refine ⟨operations, listed, ?_⟩
  rw [readOperations_performAll resources subsets places drawing, ← spelled.operations]
  rfl

/-- A stroke inside a text object is refused, and the tag around it has a space and parentheses. -/
theorem marked_text_reads_as_calls :
    readOperations ((start .unlimited .empty ⟨[]⟩ 6).performAll
        [.beginText, .beginMarked "(a b)", .paint .stroke, .endMarked, .endText]).sink.written =
      some [⟨[], "BT"⟩, ⟨[.name (utf8 "(a b)")], "BMC"⟩, ⟨[], "EMC"⟩, ⟨[], "ET"⟩] := by
  obtain ⟨operations, listed, read⟩ := content_reads_as_calls .empty ⟨[]⟩ 6
    [.beginText, .beginMarked "(a b)", .paint .stroke, .endMarked, .endText] (by decide)
  rw [read, ← listed]
  rfl

end ContentStream

end PdfCanvas
