import PdfCanvas.Proofs.Content.Grammar
import PdfCanvas.Proofs.Content.Steps
import PdfCanvas.Proofs.Objects.Equality
import PdfCanvas.Proofs.Reader.ColorSpaces

/-!
# Colour spaces that are left out

A colour is written without its space if that is the tracked one. The tracked spaces follow those of a
reader step by step, except that a colour in numbers of a device space changes the space of the reader and
not the tracked one. So a colour after it, without its space, is read in the device space.
-/

namespace PdfCanvas

open Reader

/-- An object that stands for a colour space: the one that is written for it, or an equal one. -/
def Object.Describes (object : Object) (space : ColorSpace) : Prop :=
  object = space.toObject ∨ object.same space.toObject = true

theorem Object.Describes.of_same {object : Object} {current space : ColorSpace}
    (describes : object.Describes current) (equal : current = space ∨ current.same space = true) :
    object.Describes space := by
  rcases equal with rfl | equal
  · exact describes
  · right
    have objects := ColorSpace.same_toObject equal
    rcases describes with rfl | first
    · exact objects
    · exact Object.same_trans first objects

theorem ColorSpace.describes_of_hasFixedName {current : ColorSpace}
    (fixed : current.hasFixedName = true) : (Object.name current.name).Describes current := by
  left
  cases current with
  | gray | rgb => simp [ColorSpace.name, ColorSpace.toObject]
  | _ => cases fixed

namespace Reader.Selection

/-- A reader takes a selection for a colour space. -/
def Selects (r : Resources) (space : ColorSpace) (selection : Selection) : Prop :=
  ∃ object, selection.object? r = some object ∧ object.Describes space

/-- A selection that has nothing to do with a colour space that is to be current: it was made by numbers
of another device space, or by a resource that has the name of a family. -/
def Misleads (r : Resources) (space : ColorSpace) : Selection → Prop
  | .initial => False
  | .numeric device => ¬ device.toObject.Describes space
  | .named written => ∃ family ∈ familyNames, written = utf8 family ∧
      (r.get? .colorSpace family).isSome = true ∧ ¬ (Object.name family).Describes space

/-- A selection at the place of a tracked space: what was named is this space. -/
def Follows (r : Resources) (space : ColorSpace) : Selection → Prop
  | .initial => False
  | .numeric _ => True
  | .named written => ∃ name, written = utf8 name ∧ r.NamesSpace name space

theorem object?_family (r : Resources) {family : String} (member : family ∈ familyNames) :
    (named (utf8 family)).object? r = some (.name family) := by
  have found : familyNames.find? (utf8 · = utf8 family) = some family := by
    -- Names are compared by their bytes, which tell them apart.
    have search : (fun name => decide (utf8 name = utf8 family)) = (· == family) := by
      funext name
      by_cases same : name = family
      · simp [same]
      · have differs : utf8 name ≠ utf8 family := fun equal => same (utf8_injective equal)
        simp [same, differs]
    rw [search]
    simp only [familyNames, List.mem_cons, List.not_mem_nil, or_false] at member
    rcases member with rfl | rfl | rfl | rfl <;> rfl
  simp only [object?, found]

theorem find_of_lookup {entries : Dictionary} {name : String} {bound : Object}
    (found : entries.lookup name = some bound) :
    (entries.find? (utf8 ·.1 = utf8 name)).map (·.2) = some bound := by
  induction entries with
  | nil => cases found
  | cons entry entries inductionHypothesis =>
    obtain ⟨first, object⟩ := entry
    rw [List.lookup_cons] at found
    by_cases here : first = name
    · subst here
      simpa using found
    · have differs : utf8 first ≠ utf8 name := fun equal => here (utf8_injective equal)
      rw [beq_false_of_ne (Ne.symm here)] at found
      simpa [List.find?_cons, differs] using inductionHypothesis found

theorem object?_resource {r : Resources} {name : String} {bound : Object}
    (notFamily : name ∉ familyNames) (found : r.get? .colorSpace name = some bound) :
    (named (utf8 name)).object? r = some bound := by
  have none : familyNames.find? (utf8 · = utf8 name) = none := by
    refine List.find?_eq_none.mpr fun family member equal => ?_
    exact notFamily (utf8_injective (of_decide_eq_true equal) ▸ member)
  simp only [object?, none]
  exact find_of_lookup found

/-- What follows a tracked space is taken for every space that equals it, unless it misleads. -/
theorem selects_iff {r : Resources} {selection : Selection} {current space : ColorSpace}
    (follows : selection.Follows r current) (equal : current = space ∨ current.same space = true) :
    selection.Selects r space ↔ ¬ selection.Misleads r space := by
  cases selection with
  | initial => cases follows
  | numeric device =>
    constructor
    · rintro ⟨_, ⟨⟩, describes⟩ misleads
      exact misleads describes
    · exact fun leads => ⟨_, rfl, Classical.not_not.mp leads⟩
  | named written =>
    obtain ⟨name, rfl, names⟩ := follows
    constructor
    · rintro ⟨object, found, describes⟩ ⟨family, member, spelled, _, wrong⟩
      rw [spelled, object?_family r member] at found
      cases found
      exact wrong describes
    · intro leads
      unfold Resources.NamesSpace at names
      -- A fixed name is that of a family; a name of the resources may be one too, and is lost then.
      by_cases fixed : current.hasFixedName = true
      · rw [if_pos fixed] at names
        subst names
        have family : current.name ∈ familyNames := by
          cases current with
          | gray | rgb => decide
          | _ => cases fixed
        exact ⟨_, object?_family r family,
          (ColorSpace.describes_of_hasFixedName fixed).of_same equal⟩
      · rw [if_neg fixed] at names
        obtain ⟨bound, found, describes⟩ := names
        by_cases family : name ∈ familyNames
        · refine ⟨_, object?_family r family, Classical.not_not.mp fun wrong => leads ?_⟩
          exact ⟨name, family, rfl, by rw [found]; rfl, wrong⟩
        · exact ⟨_, object?_resource family found, Object.Describes.of_same describes equal⟩

theorem Follows.extend {before after : Resources} (further : before.Extends after)
    {selection : Selection} {space : ColorSpace} (follows : selection.Follows before space) :
    selection.Follows after space := by
  cases selection with
  | initial => exact follows
  | numeric => exact follows
  | named written =>
    obtain ⟨name, rfl, names⟩ := follows
    refine ⟨name, rfl, ?_⟩
    unfold Resources.NamesSpace at names ⊢
    by_cases fixed : space.hasFixedName = true
    · rw [if_pos fixed] at names ⊢
      exact names
    · rw [if_neg fixed] at names ⊢
      exact names.extend further

end Reader.Selection

/-! ## Stacks -/

/-- Tracked spaces mirror the selections of a reader as far as they go: the reader may have saved more. -/
def MirrorsStack (r : Resources) : List Selection → List ColorSpace → Prop
  | _, [] => True
  | [], _ :: _ => False
  | selection :: selections, space :: spaces =>
    selection.Follows r space ∧ MirrorsStack r selections spaces

namespace MirrorsStack

variable {r : Resources} {selection : Selection} {selections : List Selection}
  {spaces : List ColorSpace}

theorem extend {before after : Resources} (further : before.Extends after)
    (mirrors : MirrorsStack before selections spaces) : MirrorsStack after selections spaces := by
  induction spaces generalizing selections with
  | nil => cases selections <;> trivial
  | cons space spaces inductionHypothesis =>
    cases selections with
    | nil => exact mirrors
    | cons selection selections =>
      exact ⟨mirrors.1.extend further, inductionHypothesis mirrors.2⟩

theorem duplicate (mirrors : MirrorsStack r (selection :: selections) spaces) :
    MirrorsStack r (selection :: selection :: selections) (duplicateTop spaces) := by
  cases spaces with
  | nil => trivial
  | cons space spaces => exact ⟨mirrors.1, mirrors⟩

theorem tail (mirrors : MirrorsStack r (selection :: selections) spaces) :
    MirrorsStack r selections spaces.tail := by
  cases spaces with
  | nil => cases selections <;> trivial
  | cons space spaces => exact mirrors.2

/-- A reader with nothing saved keeps its selection, and nothing is tracked any more. -/
theorem tail_last (mirrors : MirrorsStack r [selection] spaces) :
    MirrorsStack r [selection] spaces.tail := by
  cases spaces with
  | nil => trivial
  | cons space spaces =>
    cases spaces with
    | nil => trivial
    | cons _ _ => exact mirrors.2.elim

theorem replace {next : Selection} {space : ColorSpace}
    (mirrors : MirrorsStack r (selection :: selections) spaces) (follows : next.Follows r space) :
    MirrorsStack r (next :: selections) (replaceTop spaces space) :=
  ⟨follows, mirrors.tail⟩

theorem numeric (mirrors : MirrorsStack r (selection :: selections) spaces) (device : ColorSpace) :
    MirrorsStack r (.numeric device :: selections) spaces := by
  cases spaces with
  | nil => trivial
  | cons space spaces => exact ⟨trivial, mirrors.2⟩

end MirrorsStack

def ColorUse.spaces (use : ColorUse) (g : GraphicsState) : List ColorSpace :=
  match use with
  | .stroking => g.strokingSpaces
  | .filling => g.fillingSpaces

theorem ColorUse.spaces_setSpace (use other : ColorUse) (g : GraphicsState) (space : ColorSpace) :
    other.spaces (use.setSpace g space) =
      if other = use then replaceTop (use.spaces g) space else other.spaces g := by
  cases use <;> cases other <;> rfl

namespace Reader.ColorReader

def Mirrors (reader : ColorReader) (s : DrawingState) : Prop :=
  ∀ use : ColorUse, MirrorsStack s.resources (reader.selections use) (use.spaces s.graphics)

variable {reader : ColorReader} {s : DrawingState}

theorem selections_select (reader : ColorReader) (use other : ColorUse) (selection : Selection) :
    (reader.select use selection).selections other =
      if other = use then selection :: reader.saved.map (·.get use)
      else reader.selections other := by
  cases use <;> cases other <;> rfl

theorem Mirrors.keep {after : DrawingState} (mirrors : reader.Mirrors s)
    (same : ∀ use : ColorUse, use.spaces after.graphics = use.spaces s.graphics)
    (further : s.resources.Extends after.resources) : reader.Mirrors after := by
  intro use
  rw [same use]
  exact (mirrors use).extend further

theorem Mirrors.save {resources : Resources} (mirrors : reader.Mirrors s)
    (further : s.resources.Extends resources) :
    reader.save.Mirrors { s with graphics := s.graphics.save, resources } := by
  intro use
  have doubled := ((mirrors use).extend further).duplicate
  cases use <;> exact doubled

theorem Mirrors.restore (mirrors : reader.Mirrors s) :
    reader.restore.Mirrors { s with graphics := s.graphics.restore } := by
  intro use
  have popped : MirrorsStack s.resources (reader.restore.selections use)
      (use.spaces s.graphics).tail := by
    obtain ⟨current, saved⟩ := reader
    cases saved with
    | nil => exact (mirrors use).tail_last
    | cons last rest => exact (mirrors use).tail
  cases use <;> exact popped

theorem Mirrors.select {use : ColorUse} {selection : Selection} {space : ColorSpace}
    {resources : Resources} (mirrors : reader.Mirrors s)
    (further : s.resources.Extends resources) (follows : selection.Follows resources space) :
    (reader.select use selection).Mirrors
      { s with graphics := use.setSpace s.graphics space, resources } := by
  intro other
  have kept := (mirrors other).extend further
  rw [selections_select, ColorUse.spaces_setSpace]
  by_cases same : other = use
  · subst same
    rw [if_pos rfl, if_pos rfl]
    exact kept.replace follows
  · rw [if_neg same, if_neg same]
    exact kept

theorem Mirrors.numeric (mirrors : reader.Mirrors s) (use : ColorUse) (device : ColorSpace) :
    (reader.select use (.numeric device)).Mirrors s := by
  intro other
  rw [selections_select]
  by_cases same : other = use
  · subst same
    rw [if_pos rfl]
    exact (mirrors other).numeric device
  · rw [if_neg same]
    exact mirrors other

/-- Operators without a meaning of their own here leave a reader, or give a colour in numbers. -/
theorem read_plain {o : Operator} (plain : o.isPlain = true) (operands : List Operand)
    (reader : ColorReader) :
    reader.read (operationOf ⟨operands, o⟩) = reader ∨
      ∃ use device, reader.read (operationOf ⟨operands, o⟩) =
        reader.select use (.numeric device) := by
  cases o with
  | strokingGray | strokingRgb | strokingCmyk | fillingGray | fillingRgb | fillingCmyk =>
    exact .inr ⟨_, _, rfl⟩
  | _ => first | exact .inl rfl | cases plain

theorem read_reference {o : Operator} (reference : o.isReference = true) (operands : List Operand)
    (reader : ColorReader) : reader.read (operationOf ⟨operands, o⟩) = reader := by
  cases o with
  | parameters | shade | drawObject => rfl
  | _ => cases reference

end Reader.ColorReader

open Reader.ColorReader

/-! ## Steps -/

theorem Step.Lawful.mirrors {subject? : Option (ResourceKind × Object)} {s : DrawingState}
    {step : Step} (lawful : step.Lawful subject? s) {reader : ColorReader}
    (mirrors : reader.Mirrors s) :
    (reader.readAll (step.emission.instructions.map operationOf)).Mirrors step.state := by
  have further := lawful.binds.extension
  cases lawful with
  | beginText | endText | showText | selectFont | beginMarkedWith =>
    exact mirrors.keep (fun use => by cases use <;> rfl) further
  | save => exact mirrors.save further
  | restore => exact mirrors.restore
  | @selectSpace space name resources use _ _ names =>
    have follows : (Selection.named (utf8 name)).Follows resources space := ⟨name, rfl, names⟩
    cases use with
    | stroking | filling => exact mirrors.select further follows
  | @refer o _ _ name _ reference =>
    change (reader.read (operationOf ⟨[.name name], o⟩)).Mirrors _
    rw [read_reference reference]
    exact mirrors.keep (fun _ => rfl) further
  | @plain o operands plain =>
    change (reader.read (operationOf ⟨operands, o⟩)).Mirrors _
    rcases read_plain plain operands reader with same | ⟨use, device, numeric⟩
    · rw [same]
      exact mirrors
    · rw [numeric]
      exact mirrors.numeric use device
  | verbatim => exact mirrors

theorem Plan.Lawful.mirrors {subjects : Option (ResourceKind × Object) → Prop} {s : DrawingState}
    {plan : Plan} (lawful : plan.Lawful subjects s) {reader : ColorReader}
    (mirrors : reader.Mirrors s) :
    (reader.readAll (plan.instructions.map operationOf)).Mirrors (plan.outcome s) := by
  -- By induction on the steps, each read by where the ones before have left the reader.
  induction lawful generalizing reader with
  | nil => exact mirrors
  | cons _ first _ inductionHypothesis =>
    rw [Plan.instructions, List.flatMap_cons, List.map_append, readAll_append]
    exact inductionHypothesis (first.mirrors mirrors)

/-! ## Colours -/

/-- In front of the operator that sets a colour the tracked space is that of the colour or equals it. -/
theorem DrawingState.of_planColor {s : DrawingState} (distinct : s.resources.Distinct) {places : Nat}
    {use : ColorUse} {color : Color} {plan : Plan}
    (planned : s.planColor places use color = .ok plan) :
    ∃ (front : Plan) (numerals : List Decimal) (current : ColorSpace),
      plan = front ++ [(front.outcome s).step (.color use) (numerals.map .number)] ∧
      front.Lawful (· = color.space.resource?) s ∧
      (use.spaces (front.outcome s).graphics).head? = some current ∧
      (current = color.space ∨ current.same color.space = true) := by
  obtain ⟨_, _, planned⟩ := bind_eq_ok.mp planned
  obtain ⟨numerals, _, planned⟩ := bind_eq_ok.mp planned
  by_cases isCurrent : use.isCurrent s.graphics color.space = true
  · rw [if_pos isCurrent] at planned
    cases planned
    unfold ColorUse.isCurrent at isCurrent
    cases tracked : use.space? s.graphics with
    | none => simp [tracked] at isCurrent
    | some current =>
      simp only [tracked] at isCurrent
      refine ⟨[], numerals, current, rfl, .nil s, ?_, .inr isCurrent⟩
      cases use <;> exact tracked
  -- Otherwise the space has just been selected.
  · rw [if_neg isCurrent] at planned
    cases planned
    have lawful := lawful_selectColorSpace distinct use color.space
    refine ⟨[s.selectColorSpace use color.space], numerals, color.space, rfl, .single lawful, ?_,
      .inl rfl⟩
    cases use <;> rfl

/-- A tracked current space is followed by the current selection of a reader. -/
theorem Reader.ColorReader.Mirrors.follows {reader : ColorReader} {s : DrawingState}
    (mirrors : reader.Mirrors s) {use : ColorUse} {current : ColorSpace}
    (tracked : (use.spaces s.graphics).head? = some current) :
    (reader.current.get use).Follows s.resources current := by
  -- A reader always has a current selection, so the stacks meet at the top.
  have stack := mirrors use
  cases spaces : use.spaces s.graphics with
  | nil => simp [spaces] at tracked
  | cons space others =>
    rw [spaces] at stack tracked
    cases tracked
    exact stack.1

/-- The operator that sets a colour comes after lawful steps that leave its space tracked, whatever calls
come later. -/
theorem DrawingState.planAll_color {s : DrawingState} (distinct : s.resources.Distinct)
    {places : Nat} {before : List Call} {use : ColorUse} {color : Color} {plan : Plan}
    (planned : (Call.setColor use color).plan places ((s.planAll places before).outcome s) =
      .ok plan) :
    ∃ (front : Plan) (numerals : List Decimal) (current : ColorSpace),
      (∀ after, s.planAll places (before ++ .setColor use color :: after) =
        front ++ (front.outcome s).step (.color use) (numerals.map .number) ::
          (front.outcome s).planAll places after) ∧
      front.Lawful (fun _ => True) s ∧
      (use.spaces (front.outcome s).graphics).head? = some current ∧
      (current = color.space ∨ current.same color.space = true) := by
  have lawfulBefore := lawful_planAll distinct places before
  obtain ⟨selection, numerals, current, rfl, lawful, tracked, equal⟩ :=
    of_planColor (lawfulBefore.distinct distinct) planned
  refine ⟨s.planAll places before ++ selection, numerals, current, fun after => ?_, ?_, ?_, equal⟩
  · rw [planAll_append, planAll, planned]
    dsimp only
    rw [Plan.outcome_append, Plan.outcome_append, List.append_assoc, List.append_assoc]
    rfl
  · exact (lawfulBefore.mono fun _ _ => trivial).append (lawful.mono fun _ _ => trivial)
  · rw [Plan.outcome_append]
    exact tracked

namespace ContentStream

/-- A colour is read in its space exactly if the current selection of the reader does not mislead: it may
have been made by numbers of another device space since the space was named. -/
theorem color_is_read_in_its_space_unless_misled (resources : Resources)
    (distinct : resources.Distinct) (subsets : Subsets) (places : Nat) (before after : List Call)
    (use : ColorUse) (color : Color)
    (drawing : ∀ call ∈ before ++ .setColor use color :: after, call.isDrawing = true)
    (accepted : (((start .unlimited resources subsets places).performAll before).perform
      (.setColor use color)).1 = .ok ()) :
    ∃ operations operands later,
      readOperations ((start .unlimited resources subsets places).performAll
        (before ++ [.setColor use color])).sink.written =
          some (operations ++ [⟨operands, (Operator.color use).keyword⟩]) ∧
      readOperations ((start .unlimited resources subsets places).performAll
        (before ++ .setColor use color :: after)).sink.written =
          some (operations ++ ⟨operands, (Operator.color use).keyword⟩ :: later) ∧
      let bound := ((start .unlimited resources subsets places).performAll
        (before ++ .setColor use color :: after)).state.resources
      let selection := (ColorReader.start.readAll operations).current.get use
      selection.Selects bound color.space ↔ ¬ selection.Misleads bound color.space := by
  let s := (start .unlimited resources subsets places).state
  rw [performAll_of_unlimited rfl before] at accepted
  cases planned : (Call.setColor use color).plan places ((s.planAll places before).outcome s) with
  | error e =>
    rw [perform_of_refusal planned] at accepted
    cases accepted
  | ok plan =>
    obtain ⟨front, numerals, current, steps, lawful, tracked, equal⟩ :=
      DrawingState.planAll_color distinct planned
    let here := front.outcome s
    have operations (others : List Call) :
        (s.planAll places (before ++ .setColor use color :: others)).instructions.map operationOf =
          front.instructions.map operationOf ++
            operationOf ⟨numerals.map .number, .color use⟩ ::
              (here.planAll places others).instructions.map operationOf := by
      rw [steps, Plan.instructions_append, List.map_append]
      rfl
    have drawingNow : ∀ call ∈ before ++ [.setColor use color], call.isDrawing = true := by
      intro call member
      refine drawing call ?_
      rw [List.append_cons]
      exact List.mem_append_left after member
    refine ⟨front.instructions.map operationOf,
      (operationOf ⟨numerals.map .number, .color use⟩).operands,
      (here.planAll places after).instructions.map operationOf, ?_, ?_, ?_⟩
    · rw [readOperations_performAll resources subsets places drawingNow]
      exact congrArg some (operations [])
    · rw [readOperations_performAll resources subsets places drawing]
      exact congrArg some (operations after)
    · -- the mirror holds where the operator is written, and what is bound there stays bound
      have mirrors : ColorReader.start.Mirrors s := fun use => by cases use <;> trivial
      have mirrorsHere := lawful.mirrors mirrors
      have lawfulAfter := DrawingState.lawful_planAll (lawful.distinct distinct) places after
      rw [performAll_of_unlimited rfl]
      refine Selection.selects_iff ((mirrorsHere.follows tracked).extend ?_) equal
      change here.resources.Extends ((s.planAll places _).outcome s).resources
      rw [steps, Plan.outcome_append]
      exact lawfulAfter.extension

def black : Color := ⟨[.zero, .zero, .zero], .rgb⟩

/-- A colour in grey, between `q` and `Q`. -/
def greyAside : List Call := [.setColor .stroking black, .save, .setGray .stroking .zero, .restore]

/-- Black is written without its space after the grey was restored. -/
theorem black_is_read_in_rgb_unless_misled :
    ∃ operations operands,
      readOperations ((start .unlimited .empty ⟨[]⟩ 6).performAll
        (greyAside ++ [.setColor .stroking black])).sink.written =
          some (operations ++ [⟨operands, "SC"⟩]) ∧
      (((ColorReader.start.readAll operations).current.get .stroking).Selects
          ((start .unlimited .empty ⟨[]⟩ 6).performAll
            (greyAside ++ [.setColor .stroking black])).state.resources .rgb ↔
        ¬ ((ColorReader.start.readAll operations).current.get .stroking).Misleads
          ((start .unlimited .empty ⟨[]⟩ 6).performAll
            (greyAside ++ [.setColor .stroking black])).state.resources .rgb) := by
  obtain ⟨operations, operands, _, read, _, selects⟩ :=
    color_is_read_in_its_space_unless_misled .empty Resources.distinct_empty ⟨[]⟩ 6 greyAside []
      .stroking black (by decide) rfl
  exact ⟨operations, operands, read, selects⟩

/-- Without `q` and `Q` the second black is read in DeviceGray. -/
theorem black_after_grey_is_not_read_in_rgb :
    ∃ operations operands,
      readOperations ((start .unlimited .empty ⟨[]⟩ 6).performAll
        [.setColor .stroking black, .setGray .stroking .zero,
          .setColor .stroking black]).sink.written = some (operations ++ [⟨operands, "SC"⟩]) ∧
      ¬ ((ColorReader.start.readAll operations).current.get .stroking).Selects
        ((start .unlimited .empty ⟨[]⟩ 6).performAll [.setColor .stroking black,
          .setGray .stroking .zero, .setColor .stroking black]).state.resources .rgb := by
  let nought : Token := .number ⟨false, 0, 0⟩
  refine ⟨[⟨[.name (utf8 "DeviceRGB")], "CS"⟩, ⟨[nought, nought, nought], "SC"⟩, ⟨[nought], "G"⟩],
    [nought, nought, nought], ?_, ?_⟩
  · rw [readOperations_performAll _ _ _ (by decide)]
    rfl
  -- The grey was the last to select, by its numbers.
  · rintro ⟨object, found, describes⟩
    cases found
    rcases describes with same | equal
    · simp [ColorSpace.toObject] at same
    · simp [ColorSpace.toObject, Object.same] at equal

end ContentStream

end PdfCanvas
