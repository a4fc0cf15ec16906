import PdfCanvas.Proofs.Content.Plan
import PdfCanvas.Proofs.Numerals

/-!
# Carrying out a call is following its plan

The procedures of `PdfCanvas.Content.Drawing` check, change and write in turn, and whatever they have done
when they fail stays done. Nevertheless each of them does what the plan of its call says: a check that
comes after a change or a write is one that an earlier check has decided already.
-/

namespace PdfCanvas

/-! ## Writing in pieces -/

/-- Two writes leave the sink as one write of both parts does. -/
theorem Sink.write_append (s : Sink) (first second : Bytes) :
    s.write (first ++ second) =
      match s.write first with
      | (.ok (), after) => after.write second
      | (.error e, after) => (.error e, after) := by
  obtain ⟨capacity, refusesFlush, written⟩ := s
  cases capacity with
  | none => simp [write, accepted]
  | some capacity =>
    -- Either the first part fits, and the room left for the second is less by its length, or nothing of
    -- the second part gets in.
    by_cases fits : first.length ≤ capacity - written.length
    · have whole : first.take (capacity - written.length) = first := List.take_of_length_le fits
      have left : capacity - (written.length + first.length) =
          capacity - written.length - first.length := by omega
      simp [write, accepted, whole, List.take_append, left]
    · have nothing : capacity - written.length - first.length = 0 := by omega
      have short : min (capacity - written.length) first.length ≠ first.length := by omega
      have shorter : min (capacity - written.length) first.length ≠
          first.length + second.length := by omega
      simp [write, accepted, List.take_append, nothing, short, shorter]

/-! ## Procedures on a stream -/

namespace Drawing

variable {α β : Type}

theorem exec_bind (x : Drawing α) (f : α → Drawing β) (c : ContentStream) :
    (x >>= f).exec c =
      match x.exec c with
      | (.ok a, after) => (f a).exec after
      | (.error e, after) => (.error e, after) := by
  simp only [exec, ExceptT.run_bind, StateT.run_bind, Id.run_bind]
  rcases x.run.run c with ⟨_ | _, _⟩ <;> rfl

theorem exec_ask (question : DrawingState → Except Error α) (c : ContentStream) :
    (ask question).exec c = (question c.state, c) := by
  unfold ask
  rw [exec_bind]
  change (ofExcept (question c.state) : Drawing α).exec c = _
  cases question c.state <;> rfl

theorem exec_emit (output : Output) (c : ContentStream) :
    (emit output).exec c =
      ((output.perform c.places c.sink).1,
        { c with sink := (output.perform c.places c.sink).2 }) := by
  change (ofExcept (output.perform c.places c.sink).1 : Drawing Unit).exec
    { c with sink := (output.perform c.places c.sink).2 } = _
  cases (output.perform c.places c.sink).1 <;> rfl

/-- An output that comes down to bytes writes them in front of what is written next. -/
theorem exec_emit_bind {output : Output} {f : Unit → Drawing Unit} {c : ContentStream}
    {bytes more : Bytes}
    (spelled : ∀ sink, output.perform c.places sink = sink.write bytes)
    (next : ∀ after : ContentStream, after.state = c.state → after.places = c.places →
      (f ()).exec after = (emit (.verbatim more)).exec after) :
    (emit output >>= f).exec c = (emit (.verbatim (bytes ++ more))).exec c := by
  rw [exec_bind, exec_emit, exec_emit, spelled]
  -- Both sides are writes now, the right one of both parts at once.
  change _ = ((c.sink.write (bytes ++ more)).1, { c with sink := (c.sink.write (bytes ++ more)).2 })
  rw [Sink.write_append]
  rcases c.sink.write bytes with ⟨_ | _, sink⟩
  · rfl
  · change (f ()).exec { c with sink } = _
    rw [next { c with sink } rfl rfl, exec_emit]
    rfl

end Drawing

/-! ## Following plans -/

namespace ContentStream

open Drawing

theorem carryOut_cons (c : ContentStream) (step : Step) (rest : Plan) :
    c.carryOut (step :: rest) =
      match (emit (.verbatim step.emission.bytes)).exec { c with state := step.state } with
      | (.ok (), after) => after.carryOut rest
      | (.error e, after) => (.error e, after) := by
  rw [exec_emit]
  simp only [carryOut, Output.perform, Output.bytes]
  rcases c.sink.write step.emission.bytes with ⟨_ | _, sink⟩ <;> rfl

theorem carryOut_singleton (c : ContentStream) (step : Step) :
    c.carryOut [step] =
      (emit (.verbatim step.emission.bytes)).exec { c with state := step.state } := by
  rw [carryOut_cons]
  rcases (emit (.verbatim step.emission.bytes)).exec { c with state := step.state } with
    ⟨_ | _, after⟩ <;> rfl

theorem carryOut_append (c : ContentStream) (first second : Plan) :
    c.carryOut (first ++ second) =
      match c.carryOut first with
      | (.ok (), after) => after.carryOut second
      | (.error e, after) => (.error e, after) := by
  induction first generalizing c with
  | nil => rfl
  | cons step rest inductionHypothesis =>
    rw [List.cons_append, carryOut_cons, carryOut_cons]
    rcases (emit (.verbatim step.emission.bytes)).exec { c with state := step.state } with
      ⟨_ | _, after⟩
    · rfl
    · exact inductionHypothesis after

/-- A plan that is carried out to its end leaves the state of its last step. -/
theorem state_of_carryOut {c after : ContentStream} {plan : Plan}
    (done : c.carryOut plan = (.ok (), after)) :
    after.state = plan.outcome c.state ∧ after.places = c.places := by
  induction plan generalizing c with
  | nil => cases done; exact ⟨rfl, rfl⟩
  | cons step rest inductionHypothesis =>
    -- The first write has succeeded, so the rest of the plan starts in the state of its step.
    rw [carryOut_cons, exec_emit] at done
    rcases written : (Output.verbatim step.emission.bytes).perform c.places c.sink with
      ⟨_ | _, sink⟩
    · simp [written] at done
    · simp only [written] at done
      exact inductionHypothesis done

/-- Nothing but the sink can stop a plan. -/
theorem cause_of_carryOut {c after : ContentStream} {plan : Plan} {e : Error}
    (stopped : c.carryOut plan = (.error e, after)) : ∃ fault, e = .write fault := by
  induction plan generalizing c with
  | nil => cases stopped
  | cons step rest inductionHypothesis =>
    -- A step either fits, and a later one stops the plan, or it is what stops it.
    rw [carryOut_cons, exec_emit] at stopped
    simp only [Output.perform, Output.bytes, Sink.write] at stopped
    by_cases fits : (c.sink.accepted step.emission.bytes).length = step.emission.bytes.length
    · rw [if_pos fits] at stopped
      exact inductionHypothesis stopped
    · rw [if_neg fits] at stopped
      cases stopped
      exact ⟨.full, rfl⟩

/-- A sink without a limit takes the whole plan. -/
theorem carryOut_of_unlimited {c : ContentStream} (unlimited : c.sink.capacity = none)
    (plan : Plan) :
    c.carryOut plan =
      (.ok (), ⟨plan.outcome c.state,
        { c.sink with written := c.sink.written ++ plan.bytes }, c.places⟩) := by
  induction plan generalizing c with
  | nil => simp [carryOut, Plan.outcome, Plan.bytes]
  | cons step rest inductionHypothesis =>
    rw [carryOut_cons, exec_emit]
    simp only [Output.perform, Output.bytes, Sink.write, Sink.accepted, unlimited, if_true]
    refine (inductionHypothesis rfl).trans ?_
    simp [Plan.bytes, Plan.outcome]

end ContentStream

namespace Drawing

open ContentStream

theorem exec_ask_bind {α : Type} {question : DrawingState → Except Error α}
    {f : α → Drawing Unit} {c : ContentStream} {plan : α → Except Error Plan}
    (next : ∀ a, question c.state = .ok a → (f a).exec c = c.follow (plan a)) :
    (ask question >>= f).exec c = c.follow (question c.state >>= plan) := by
  rw [exec_bind, exec_ask]
  cases answer : question c.state with
  | error e => rfl
  | ok a => exact next a answer

theorem exec_bind_carryOut {x : Drawing Unit} {f : Unit → Drawing Unit} {c : ContentStream}
    {first second : Plan} (head : x.exec c = c.carryOut first)
    (tail : ∀ after : ContentStream, after.state = first.outcome c.state →
      after.places = c.places → (f ()).exec after = after.carryOut second) :
    (x >>= f).exec c = c.carryOut (first ++ second) := by
  rw [exec_bind, carryOut_append, head]
  -- The second procedure runs only where the first plan has come to its end.
  rcases done : c.carryOut first with ⟨_ | _, after⟩
  · rfl
  · obtain ⟨state, places⟩ := state_of_carryOut done
    exact tail after state places

/-! ## Single instructions -/

theorem exec_operator (c : ContentStream) (o : Operator) :
    (operator o).exec c = c.carryOut [c.state.step o []] := by
  rw [carryOut_singleton]
  rfl

/-- Operands are written one after the other, and the operator after them. -/
theorem exec_operands_bind {c : ContentStream} {output : Output} {f : Unit → Drawing Unit}
    {o : Operator} {front operands : List Operand}
    (spelled : ∀ sink, output.perform c.places sink = sink.write (front.flatMap Operand.bytes))
    (next : ∀ after : ContentStream, after.state = c.state → after.places = c.places →
      (f ()).exec after = after.carryOut [after.state.step o operands]) :
    (emit output >>= f).exec c = c.carryOut [c.state.step o (front ++ operands)] := by
  -- The operands in front are a piece of the one write that the instruction is.
  have joined : (Instruction.mk (front ++ operands) o).bytes =
      front.flatMap Operand.bytes ++ (Instruction.mk operands o).bytes := by
    simp [Instruction.bytes]
  rw [carryOut_singleton]
  change _ = (emit (.verbatim (Instruction.mk (front ++ operands) o).bytes)).exec c
  rw [joined]
  refine exec_emit_bind spelled fun after state places => ?_
  rw [next after state places, carryOut_singleton]
  rfl

theorem exec_operand_bind {c : ContentStream} {f : Unit → Drawing Unit} {o : Operator}
    {operand : Operand} {operands : List Operand}
    (next : ∀ after : ContentStream, after.state = c.state → after.places = c.places →
      (f ()).exec after = after.carryOut [after.state.step o operands]) :
    (emit (.operand operand) >>= f).exec c =
      c.carryOut [c.state.step o (operand :: operands)] := by
  have spelled : ∀ sink, (Output.operand operand).perform c.places sink =
      sink.write ([operand].flatMap Operand.bytes) := by
    intro sink
    simp [Output.perform, Output.bytes]
  exact exec_operands_bind spelled next

/-- Real operands are written at once, if all of them are finite. -/
theorem exec_reals_bind {c : ContentStream} {f : Unit → Drawing Unit} {o : Operator}
    {values : List Single} {numerals : List Decimal} {operands : List Operand}
    (printed : Operand.numerals c.places values = .ok numerals)
    (next : ∀ after : ContentStream, after.state = c.state → after.places = c.places →
      (f ()).exec after = after.carryOut [after.state.step o operands]) :
    (emit (.reals values) >>= f).exec c =
      c.carryOut [c.state.step o (numerals.map .number ++ operands)] := by
  refine exec_operands_bind (fun sink => ?_) next
  have spelled : (numerals.map Operand.number).flatMap Operand.bytes =
      numerals.flatMap Operand.numeralBytes := by
    simp [List.flatMap_map, Operand.bytes]
  rw [spelled]
  simp only [Output.perform, Output.bytes, printed]
  rfl

theorem exec_named (c : ContentStream) (o : Operator) (name : String) :
    (named o name).exec c = c.carryOut [c.state.step o [.name name]] :=
  exec_operand_bind fun after _ _ => exec_operator after o

theorem exec_reals_of_numerals {c : ContentStream} {o : Operator} {values : List Single}
    {numerals : List Decimal} (printed : Operand.numerals c.places values = .ok numerals) :
    (reals o values).exec c = c.carryOut [c.state.step o (numerals.map .number)] := by
  have written : (reals o values).exec c =
      c.carryOut [c.state.step o (numerals.map .number ++ [])] :=
    exec_reals_bind printed fun after _ _ => exec_operator after o
  rw [List.append_nil] at written
  exact written

theorem exec_reals (c : ContentStream) (o : Operator) (values : List Single) :
    (reals o values).exec c = c.follow (c.state.planReals c.places o values) := by
  cases printed : Operand.numerals c.places values with
  | error e =>
    unfold reals DrawingState.planReals
    rw [exec_bind, exec_emit, printed]
    simp only [Output.perform, Output.bytes, printed]
    rfl
  | ok numerals =>
    rw [exec_reals_of_numerals printed, DrawingState.planReals, printed]
    rfl

/-- Real numbers that are found finite have numerals, so that writing them cannot fail later. -/
theorem exec_checkFinite_bind {values : List Single} {f : Unit → Drawing Unit} {c : ContentStream}
    {plan : List Decimal → Except Error Plan}
    (next : ∀ numerals, Operand.numerals c.places values = .ok numerals →
      (f ()).exec c = c.follow (plan numerals)) :
    (ask (fun _ => checkFinite values) >>= f).exec c =
      c.follow (Operand.numerals c.places values >>= plan) := by
  cases checked : checkFinite values with
  | error e =>
    rw [exec_bind, exec_ask, Operand.numerals_of_checkFinite_error checked]
    rfl
  | ok =>
    rw [exec_bind, exec_ask, Operand.numerals_of_checkFinite checked]
    exact next _ (Operand.numerals_of_checkFinite checked)

theorem exec_pathOperator (c : ContentStream) (operation : String) (o : Operator) :
    (pathOperator operation o).exec c =
      c.follow (do
        c.state.graphics.requireOutsideText operation
        return [c.state.step o []]) :=
  exec_ask_bind fun _ _ => exec_operator c o

theorem exec_pathReals (c : ContentStream) (operation : String) (o : Operator)
    (values : List Single) :
    (pathReals operation o values).exec c =
      c.follow (do
        c.state.graphics.requireOutsideText operation
        c.state.planReals c.places o values) :=
  exec_ask_bind fun _ _ => exec_reals c o values

/-! ## Procedures -/

theorem exec_bindName_bind {naming : DrawingState → String × DrawingState}
    {f : String → Drawing Unit} {c : ContentStream} :
    (bindName naming >>= f).exec c =
      (f (naming c.state).1).exec { c with state := (naming c.state).2 } := rfl

theorem exec_change_bind {g : DrawingState → DrawingState} {f : Unit → Drawing Unit}
    {c : ContentStream} :
    (change g >>= f).exec c = (f ()).exec { c with state := g c.state } := rfl

theorem exec_changeGraphics_bind {g : GraphicsState → GraphicsState} {f : Unit → Drawing Unit}
    {c : ContentStream} :
    (changeGraphics g >>= f).exec c =
      (f ()).exec { c with state := { c.state with graphics := g c.state.graphics } } := rfl

theorem exec_setFont (c : ContentStream) (font : Font) (size : Single) :
    (setFont font size).exec c = c.follow (c.state.planFont c.places font size) := by
  refine exec_checkFinite_bind fun numerals printed => ?_
  rw [exec_change_bind, exec_bindName_bind, exec_changeGraphics_bind]
  -- The size was found finite before the name was written, so nothing can fail in between.
  refine exec_operand_bind fun after _ places => ?_
  rw [← places] at printed
  exact exec_reals_of_numerals printed

theorem exec_showText (c : ContentStream) (text : String) :
    (showText text).exec c = c.follow (c.state.planText text) := by
  refine exec_ask_bind fun _ _ => exec_ask_bind fun (font, codes) _ => ?_
  rw [exec_change_bind]
  exact exec_operand_bind fun after _ _ => exec_operator after _

theorem exec_save (c : ContentStream) :
    save.exec c =
      c.carryOut [{ c.state with graphics := c.state.graphics.save }.step .save []] :=
  exec_operator { c with state := { c.state with graphics := c.state.graphics.save } } _

theorem exec_restore (c : ContentStream) :
    restore.exec c =
      c.carryOut [{ c.state with graphics := c.state.graphics.restore }.step .restore []] :=
  exec_operator { c with state := { c.state with graphics := c.state.graphics.restore } } _

theorem exec_resource (c : ContentStream) (o : Operator) (kind : ResourceKind) (object : Object) :
    (resource o kind object).exec c = c.carryOut (c.state.planResource o kind object) := by
  unfold resource
  rw [exec_bindName_bind, exec_named]
  rfl

theorem exec_setColorSpace (c : ContentStream) (use : ColorUse) (space : ColorSpace) :
    (setColorSpace use space).exec c = c.carryOut [c.state.selectColorSpace use space] := by
  unfold setColorSpace
  rw [exec_bindName_bind, exec_changeGraphics_bind, exec_named]
  rfl

theorem exec_setColor (c : ContentStream) (use : ColorUse) (color : Color) :
    (setColor use color).exec c = c.follow (c.state.planColor c.places use color) := by
  refine exec_ask_bind fun _ _ => exec_checkFinite_bind fun numerals printed => ?_
  rw [exec_bind, exec_ask]
  cases current : use.isCurrent c.state.graphics color.space with
  | true => exact exec_reals_of_numerals printed
  | false =>
    -- The space is a step of its own; the components follow in the state that it leaves.
    refine exec_bind_carryOut (exec_setColorSpace c use color.space) fun after state places => ?_
    have chosen : after.state = (c.state.selectColorSpace use color.space).state := state
    rw [← places] at printed
    rw [← chosen]
    exact exec_reals_of_numerals printed

theorem exec_levels (c : ContentStream) (o : Operator) (color : String) (values : List Int) :
    (levels o color values).exec c =
      c.follow (do c.state.planReals c.places o (← unitsOfLevels color values)) :=
  exec_ask_bind fun units _ => exec_reals c o units

theorem exec_units (c : ContentStream) (o : Operator) (color : String) (values : List Single) :
    (units o color values).exec c =
      c.follow (do
        checkUnits color values
        c.state.planReals c.places o values) :=
  exec_ask_bind fun _ _ => exec_reals c o values

theorem exec_pathReals_of_numerals {c : ContentStream} {operation : String} {o : Operator}
    {values : List Single} {numerals : List Decimal}
    (outside : c.state.graphics.inText = false)
    (printed : Operand.numerals c.places values = .ok numerals) :
    (pathReals operation o values).exec c = c.carryOut [c.state.step o (numerals.map .number)] := by
  rw [exec_pathReals, GraphicsState.requireOutsideText, outside, DrawingState.planReals, printed]
  rfl

theorem numerals_of_point {places : Nat} {x y : Single} {first second : Decimal}
    (printedX : Operand.numeral places x = .ok first)
    (printedY : Operand.numeral places y = .ok second) :
    Operand.numerals places (Point.mk x y).toList = .ok [first, second] := by
  simp only [Operand.numerals, Point.toList, List.mapM_cons, List.mapM_nil, printedX, printedY]
  rfl

theorem exec_lines {c : ContentStream} {xs ys : List Single} {columns rows : List Decimal}
    (outside : c.state.graphics.inText = false)
    (printedX : Operand.numerals c.places xs = .ok columns)
    (printedY : Operand.numerals c.places ys = .ok rows) :
    ((xs.zipWith Point.mk ys).forM lineTo).exec c =
      c.carryOut ((columns.zip rows).map fun corner =>
        c.state.step .lineTo [.number corner.1, .number corner.2]) := by
  -- By induction on the columns; every line leaves the state, so that the next one starts as the first.
  induction xs generalizing c ys columns rows with
  | nil =>
    rw [Operand.numerals_nil] at printedX
    cases printedX
    rfl
  | cons x xs inductionHypothesis =>
    cases ys with
    | nil =>
      rw [Operand.numerals_nil] at printedY
      cases printedY
      rw [List.zip_nil_right]
      rfl
    | cons y ys =>
      obtain ⟨column, columns, firstX, restX, rfl⟩ := Operand.numerals_cons_of_ok printedX
      obtain ⟨row, rows, firstY, restY, rfl⟩ := Operand.numerals_cons_of_ok printedY
      rw [List.zipWith_cons_cons, List.zip_cons_cons, List.map_cons]
      refine exec_bind_carryOut
        (exec_pathReals_of_numerals outside (numerals_of_point firstX firstY)) ?_
      intro after state places
      have unchanged : after.state = c.state := state
      rw [← unchanged] at outside ⊢
      rw [← places] at restX restY
      exact inductionHypothesis outside restX restY

theorem exec_outline {c : ContentStream} {xs ys : List Single} {columns rows : List Decimal}
    (outside : c.state.graphics.inText = false)
    (printedX : Operand.numerals c.places xs = .ok columns)
    (printedY : Operand.numerals c.places ys = .ok rows) :
    (outline (xs.zipWith Point.mk ys)).exec c =
      c.carryOut (c.state.planOutline (columns.zip rows)) := by
  cases xs with
  | nil =>
    rw [Operand.numerals_nil] at printedX
    cases printedX
    rfl
  | cons x xs =>
    cases ys with
    | nil =>
      rw [Operand.numerals_nil] at printedY
      cases printedY
      rw [List.zip_nil_right]
      rfl
    | cons y ys =>
      obtain ⟨column, columns, firstX, restX, rfl⟩ := Operand.numerals_cons_of_ok printedX
      obtain ⟨row, rows, firstY, restY, rfl⟩ := Operand.numerals_cons_of_ok printedY
      refine exec_bind_carryOut
        (exec_pathReals_of_numerals outside (numerals_of_point firstX firstY)) ?_
      intro after state places
      have unchanged : after.state = c.state := state
      rw [← unchanged] at outside ⊢
      rw [← places] at restX restY
      exact exec_lines outside restX restY

theorem exec_addPolygon (c : ContentStream) (xs ys : List Single) :
    (addPolygon xs ys).exec c =
      c.follow (do
        c.state.graphics.requireOutsideText "addPolygon"
        c.state.planPolygon c.places xs ys) := by
  refine exec_ask_bind fun _ allowed => exec_ask_bind fun _ _ => ?_
  refine exec_checkFinite_bind fun columns printedX => exec_checkFinite_bind fun rows printedY => ?_
  -- The outline leaves the state, so the path can be closed where it was begun.
  have outside := GraphicsState.inText_of_requireOutsideText allowed
  refine exec_bind_carryOut (exec_outline outside printedX printedY) fun after state _ => ?_
  rw [DrawingState.outcome_planOutline] at state
  rw [← state] at outside ⊢
  unfold closePath
  rw [exec_pathOperator, GraphicsState.requireOutsideText, outside]
  rfl

theorem exec_clip (c : ContentStream) (operation : String) (o : Operator) :
    (clip operation o).exec c =
      c.follow (do
        c.state.graphics.requireOutsideText operation
        return [c.state.step o [], c.state.step .endPath []]) := by
  refine exec_ask_bind fun _ _ => exec_bind_carryOut (exec_operator c o) fun after state _ => ?_
  have unchanged : after.state = c.state := state
  rw [← unchanged]
  exact exec_operator after .endPath

theorem exec_setLineJoin (c : ContentStream) (style : Int) :
    (setLineJoin style).exec c =
      c.follow (do
        c.state.graphics.requireOutsideText "setLineJoinStyle"
        let join ← LineJoin.ofInt style
        return [c.state.step .lineJoin [.integer join.number]]) :=
  exec_ask_bind fun _ _ => exec_ask_bind fun _ _ =>
    exec_operand_bind fun after _ _ => exec_operator after .lineJoin

theorem exec_setLineCap (c : ContentStream) (style : Int) :
    (setLineCap style).exec c =
      c.follow (do
        c.state.graphics.requireOutsideText "setLineCapStyle"
        let cap ← LineCap.ofInt style
        return [c.state.step .lineCap [.integer cap.number]]) :=
  exec_ask_bind fun _ _ => exec_ask_bind fun _ _ =>
    exec_operand_bind fun after _ _ => exec_operator after .lineCap

/-- The brackets of an array are written by themselves, around its numbers. -/
theorem exec_setDash (c : ContentStream) (pattern : List Single) (phase : Single) :
    (setDash pattern phase).exec c =
      c.follow (do
        c.state.graphics.requireOutsideText "setLineDashPattern"
        let pattern ← Operand.numerals c.places pattern
        let phase ← Operand.numerals c.places [phase]
        return [c.state.step .dash (.numbers pattern :: phase.map .number)]) := by
  refine exec_ask_bind fun _ _ => ?_
  refine exec_checkFinite_bind fun numerals printed => exec_checkFinite_bind fun last printedLast => ?_
  -- Five outputs make up the one instruction: a bracket, the lengths, a bracket, the phase, the operator.
  have opening : ∀ sink, (Output.verbatim [0x5B]).perform c.places sink = sink.write [0x5B] :=
    fun _ => rfl
  have inside : ∀ sink, (Output.reals pattern).perform c.places sink =
      sink.write (numerals.flatMap Operand.numeralBytes) := by
    intro sink
    simp only [Output.perform, Output.bytes, printed]
    rfl
  have closing : ∀ sink, (Output.verbatim [0x5D, 0x20]).perform c.places sink =
      sink.write [0x5D, 0x20] := fun _ => rfl
  have joined : (Instruction.mk (.numbers numerals :: last.map .number) .dash).bytes =
      [0x5B] ++ (numerals.flatMap Operand.numeralBytes ++
        ([0x5D, 0x20] ++ (Instruction.mk (last.map .number) .dash).bytes)) := by
    simp [Instruction.bytes, Operand.bytes]
  change _ = c.carryOut [c.state.step .dash (.numbers numerals :: last.map .number)]
  rw [carryOut_singleton]
  change _ = (emit (.verbatim (Instruction.mk (.numbers numerals :: last.map .number) .dash).bytes)).exec c
  rw [joined]
  refine exec_emit_bind opening fun first _ samePlaces => ?_
  refine exec_emit_bind (samePlaces ▸ inside) fun second _ stillSame => ?_
  refine exec_emit_bind closing fun third _ places => ?_
  rw [exec_reals_of_numerals (places ▸ stillSame ▸ samePlaces ▸ printedLast), carryOut_singleton]
  rfl

/-- Drawing with the graphics state saved around it, once the placement is known to be finite. -/
theorem exec_drawPlaced {c : ContentStream} {placement : List Single} {numerals : List Decimal}
    (name : String) (printed : Operand.numerals c.places placement = .ok numerals) :
    (do
      save
      reals .concatMatrix placement
      named .drawObject name
      restore : Drawing Unit).exec c =
      let saved := { c.state with graphics := c.state.graphics.save }
      let restored := { saved with graphics := saved.graphics.restore }
      c.carryOut [saved.step .save [], saved.step .concatMatrix (numerals.map .number),
        saved.step .drawObject [.name name], restored.step .restore []] := by
  refine exec_bind_carryOut (exec_save c) fun first savedState samePlaces => ?_
  have stateAfter : first.state = { c.state with graphics := c.state.graphics.save } := savedState
  rw [← stateAfter]
  rw [← samePlaces] at printed
  refine exec_bind_carryOut (exec_reals_of_numerals printed) fun second placedState _ => ?_
  have stateKept : second.state = first.state := placedState
  rw [← stateKept]
  refine exec_bind_carryOut (exec_named second _ _) fun third drawnState _ => ?_
  have stillKept : third.state = second.state := drawnState
  rw [← stillKept]
  exact exec_restore third

theorem exec_drawImage (c : ContentStream) (image : Object) (corner : Point)
    (width height : Single) :
    (drawImage image corner width height).exec c =
      c.follow (do
        c.state.graphics.requireOutsideText "drawImage"
        c.state.planImage c.places image corner width height) := by
  refine exec_ask_bind fun _ _ => exec_ask_bind fun _ finite => ?_
  -- The four arguments are checked, and the matrix holds them and two zeros.
  have placed :
      checkFinite (Matrix.mk width .zero .zero height corner.x corner.y).toList = .ok () := by
    rw [Operand.checkFinite_eq_ok_iff] at finite ⊢
    have zero : (Floating.zero : Single).isFinite = true := rfl
    simp only [List.mem_cons, List.not_mem_nil, or_false, forall_eq_or_imp, forall_eq,
      Matrix.toList] at finite ⊢
    obtain ⟨left, bottom, wide, high⟩ := finite
    exact ⟨wide, zero, zero, high, left, bottom⟩
  have printed : Operand.numerals c.places _ = .ok _ := Operand.numerals_of_checkFinite placed
  rw [exec_bindName_bind]
  simp only [DrawingState.planReals, printed]
  exact exec_drawPlaced _ printed

theorem exec_beginMarkedWith (c : ContentStream) (tag : String) (properties : Object) :
    (beginMarkedWith tag properties).exec c =
      c.carryOut [(c.state.bind .properties properties).2.step .beginMarkedWith
        [.name tag, .name (c.state.bind .properties properties).1]] := by
  unfold beginMarkedWith
  rw [exec_bindName_bind]
  exact exec_operand_bind fun after _ _ => exec_named after .beginMarkedWith _

end Drawing

namespace ContentStream

open Drawing

theorem perform_eq_follow (c : ContentStream) (call : Call) :
    c.perform call = c.follow (call.plan c.places c.state) := by
  -- One case for each call; families of calls share the lemma of their procedure.
  cases call with
  | beginText =>
    refine exec_ask_bind fun graphics _ => ?_
    exact exec_operator { c with state := { c.state with graphics } } .beginText
  | endText =>
    refine exec_ask_bind fun graphics _ => ?_
    exact exec_operator { c with state := { c.state with graphics } } .endText
  | setFont font size => exact exec_setFont c font size
  | showText text => exact exec_showText c text
  | setLeading leading => exact exec_reals c .setLeading [leading]
  | nextLine => exact exec_ask_bind fun _ _ => exec_operator c .nextLine
  | moveLine offset => exact exec_ask_bind fun _ _ => exec_reals c .moveLine offset.toList
  | setTextMatrix matrix => exact exec_ask_bind fun _ _ => exec_reals c .textMatrix matrix.toList
  | transform matrix => exact exec_reals c .concatMatrix matrix.toList
  | save => exact exec_save c
  | restore => exact exec_restore c
  | setParameters parameters => exact exec_resource c .parameters .graphicsState parameters
  | setColorSpace use space => exact exec_setColorSpace c use space
  | setColor use color => exact exec_setColor c use color
  | setRgbLevels use red green blue => exact exec_levels c (.rgb use) "RGB" [red, green, blue]
  | setCmyk use inks => exact exec_units c (.cmyk use) "CMYK" inks.toList
  | setCmykLevels use inks => exact exec_levels c (.cmyk use) "CMYK" inks.toList
  | setGray use gray => exact exec_units c (.gray use) "gray" [gray]
  | setGrayLevel use gray => exact exec_levels c (.gray use) "gray" [gray]
  | addRectangle corner width height => exact exec_pathReals c "addRect" .rectangle _
  | curve first second last => exact exec_pathReals c "curveTo" .curve _
  | curveFromCurrent second last => exact exec_pathReals c "curveTo2" .curveFromCurrent _
  | curveToFinal first last => exact exec_pathReals c "curveTo1" .curveToFinal _
  | moveTo point => exact exec_pathReals c "moveTo" .moveTo point.toList
  | lineTo point => exact exec_pathReals c "lineTo" .lineTo point.toList
  | addPolygon xs ys => exact exec_addPolygon c xs ys
  | closePath => exact exec_pathOperator c "closePath" .closePath
  | paint painting => exact exec_pathOperator c painting.operation painting.operator
  | fillBy rule =>
    exact exec_pathOperator c (Painting.ofRule rule).operation (Painting.ofRule rule).operator
  | shade shading => exact exec_ask_bind fun _ _ => exec_resource c .shade .shading shading
  | clip rule =>
    cases rule with
    | nonZero => exact exec_clip c "clip" .clip
    | evenOdd => exact exec_clip c "clipEvenOdd" .clipEvenOdd
  | setLineWidth width => exact exec_pathReals c "setLineWidth" .lineWidth [width]
  | setLineJoin style => exact exec_setLineJoin c style
  | setLineCap style => exact exec_setLineCap c style
  | setDash pattern phase => exact exec_setDash c pattern phase
  | setMiterLimit limit => exact exec_pathReals c "setMiterLimit" .miterLimit [limit]
  | drawImage image corner width height =>
    exact exec_drawImage c image.toObject corner width height
  | drawImageAt image corner =>
    exact exec_drawImage c image.toObject corner (Floating.ofNat image.width)
      (Floating.ofNat image.height)
  | drawForm form => exact exec_ask_bind fun _ _ => exec_resource c .drawObject .form form
  | beginMarked tag => exact exec_named c .beginMarked tag
  | beginMarkedWith tag properties => exact exec_beginMarkedWith c tag properties
  | endMarked => exact exec_operator c .endMarked
  | appendText text => exact (carryOut_singleton c ⟨c.state, .verbatim (utf8 text)⟩).symm
  | appendBytes bytes => exact (carryOut_singleton c ⟨c.state, .verbatim bytes⟩).symm

end ContentStream

end PdfCanvas
