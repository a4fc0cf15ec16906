import PdfCanvas.Proofs.Content.Grammar
import PdfCanvas.Proofs.Content.Steps
import PdfCanvas.Proofs.Page.Sessions
import PdfCanvas.Proofs.Resources.Sharing

/-!
# Names in pages

Every name that content refers to a resource by stands, at the end of all sessions on the page, for the
object that the call was about, and what was bound before the first session is still bound to the same
object. Dictionaries are taken to have distinct keys throughout.
-/

namespace PdfCanvas

open Reader

/-- What a bound object has to be to stand for another: equal to it or, if that one does not even equal
itself, that very object. -/
def Object.StandsFor (bound object : Object) : Prop :=
  if object.same object = true then bound.same object = true else bound = object

/-- The operand that names a resource: the first one, or the second one where a tag comes first. -/
def Reader.Operation.resourceOperand? (operation : Operation) : Option Token :=
  if operation.operator ∈ ["Tf", "gs", "CS", "cs", "sh", "Do"] then operation.operands[0]?
  else if operation.operator = "BDC" then operation.operands[1]?
  else none

/-- The names that a call wrote are found in the resources, where they stand for the object that the
call is about. A call that is about none names nothing but colour spaces with fixed names. -/
def Call.Resolves (call : Call) (written : Bytes) (r : Resources) : Prop :=
  ∃ operations, readOperations written = some operations ∧
    ∀ operation ∈ operations, ∀ token, operation.resourceOperand? = some token →
      ∃ name, token = .name (utf8 name) ∧
        match call.resource? with
        | some (kind, object) => ∃ bound, r.get? kind name = some bound ∧ bound.StandsFor object
        | none => operation.operator ∈ ["CS", "cs"] ∧ name ∈ ["DeviceGray", "DeviceRGB"]

namespace Resources

theorem standsFor_of_names {r : Resources} (proper : r.Proper) {kind : ResourceKind} {name : String}
    {object : Object} (properObject : object.isProper = true) (names : r.Names kind name object) :
    ∃ bound, r.get? kind name = some bound ∧ bound.StandsFor object := by
  obtain ⟨bound, found, equal⟩ := names
  refine ⟨bound, found, ?_⟩
  unfold Object.StandsFor
  have properBound : bound.isProper = true :=
    Object.isProper_of_mem (proper kind.category) (Object.mem_of_lookup found)
  -- The bound object is on the left of the equation, the one asked for on the right; an object that does not
  -- equal itself cannot stand there.
  by_cases self : object.same object = true
  · rw [if_pos self]
    rcases equal with rfl | equal
    · exact self
    · exact equal
  · rw [if_neg self]
    rcases equal with rfl | equal
    · rfl
    · exact absurd (Object.same_right properBound properObject equal) self

theorem Binds.proper {subject? : Option (ResourceKind × Object)} {before after : Resources}
    (binds : Binds subject? before after) (proper : before.Proper)
    (properSubject : ∀ kind object, subject? = some (kind, object) → object.isProper = true) :
    after.Proper := by
  rcases binds with rfl | ⟨kind, object, about, rfl⟩
  · exact proper
  · exact proper_add proper kind (properSubject kind object about)

end Resources

/-! ## One call -/

theorem resourceOperand?_plain {o : Operator} (plain : o.isPlain = true) (operands : List Operand) :
    (operationOf ⟨operands, o⟩).resourceOperand? = none := by
  cases o <;> first | rfl | cases plain

theorem ColorSpace.name_of_hasFixedName {space : ColorSpace} (fixed : space.hasFixedName = true) :
    space.name ∈ ["DeviceGray", "DeviceRGB"] := by
  cases space with
  | gray | rgb => decide
  | _ => cases fixed

/-- What a name in front of an operator stands for, by the subject of the call. -/
def Resources.NamesSubject (r : Resources) (operator name : String) :
    Option (ResourceKind × Object) → Prop
  | some (kind, object) => r.Names kind name object
  | none => operator ∈ ["CS", "cs"] ∧ name ∈ ["DeviceGray", "DeviceRGB"]

theorem Step.Lawful.names {subject? : Option (ResourceKind × Object)} {s : DrawingState}
    {step : Step} (lawful : step.Lawful subject? s) {i : Instruction}
    (among : i ∈ step.emission.instructions) {token : Token}
    (named : (operationOf i).resourceOperand? = some token) :
    ∃ name, token = .name (utf8 name) ∧
      step.state.resources.NamesSubject (operationOf i).operator name subject? := by
  cases lawful with
  | beginText | endText | showText | save | restore =>
    cases List.mem_singleton.mp among
    cases named
  | plain operands plain =>
    cases List.mem_singleton.mp among
    rw [resourceOperand?_plain plain operands] at named
    cases named
  | verbatim => cases among
  | selectFont _ _ about _ names =>
    cases List.mem_singleton.mp among
    cases named
    subst about
    exact ⟨_, rfl, names⟩
  | @selectSpace space _ _ use about _ names =>
    cases List.mem_singleton.mp among
    subst about
    unfold ColorSpace.resource?
    by_cases fixed : space.hasFixedName = true
    · rw [Resources.NamesSpace, if_pos fixed] at names
      subst names
      rw [if_pos fixed]
      cases use with
      | stroking | filling =>
        cases named
        exact ⟨_, rfl, by simp [operationOf, Operator.keyword, Operator.colorSpace],
          ColorSpace.name_of_hasFixedName fixed⟩
    · rw [Resources.NamesSpace, if_neg fixed] at names
      rw [if_neg fixed]
      cases use with
      | stroking | filling =>
        cases named
        exact ⟨_, rfl, names⟩
  | @refer o _ _ _ _ reference _ about _ names =>
    cases List.mem_singleton.mp among
    subst about
    cases o with
    | parameters | shade | drawObject =>
      cases named
      exact ⟨_, rfl, names⟩
    | _ => cases reference
  | beginMarkedWith _ about _ names =>
    cases List.mem_singleton.mp among
    cases named
    subst about
    exact ⟨_, rfl, names⟩

theorem Call.resolves_of_plan {places : Nat} {s : DrawingState} {call : Call} {plan : Plan}
    (drawing : call.isDrawing = true) (distinct : s.resources.Distinct)
    (planned : call.plan places s = .ok plan) {r : Resources} (proper : r.Proper)
    (properSubject : ∀ kind object, call.resource? = some (kind, object) → object.isProper = true)
    (further : (plan.outcome s).resources.Extends r) : call.Resolves plan.bytes r := by
  obtain ⟨operations, _, spelled⟩ := Call.spells_of_plan drawing planned
  have lawful := Call.lawful_of_plan distinct planned
  refine ⟨operations, ?_, ?_⟩
  · rw [spelled.bytes, readOperations_instructions, spelled.operations]
  · intro operation member token named
    rw [← spelled.operations] at member
    obtain ⟨i, among, rfl⟩ := List.mem_map.mp member
    -- Every name was written by some step of the plan, and what it stood for there it stands for still.
    obtain ⟨step, taken, written⟩ := List.mem_flatMap.mp among
    obtain ⟨_, _, rfl, stepLawful, kept⟩ := lawful.of_mem taken
    obtain ⟨name, spelling, stands⟩ := stepLawful.names written named
    refine ⟨name, spelling, ?_⟩
    cases about : call.resource? with
    | none =>
      rw [about] at stands
      exact stands
    | some subject =>
      obtain ⟨kind, object⟩ := subject
      rw [about] at stands
      exact Resources.standsFor_of_names proper (properSubject kind object about)
        (stands.extend (kept.trans further))

/-- Whether the object that a call is about has distinct keys in its dictionaries. -/
def Call.isProper (call : Call) : Bool :=
  match call.resource? with
  | some (_, object) => object.isProper
  | none => true

theorem Call.proper_resource {call : Call} (proper : call.isProper = true) {kind : ResourceKind}
    {object : Object} (about : call.resource? = some (kind, object)) : object.isProper = true := by
  rw [Call.isProper, about] at proper
  exact proper

/-! ## Runs -/

theorem Plan.Lawful.proper {subjects : Option (ResourceKind × Object) → Prop} {s : DrawingState}
    {plan : Plan} (lawful : plan.Lawful subjects s) (proper : s.resources.Proper)
    (properSubjects : ∀ subject?, subjects subject? →
      ∀ kind object, subject? = some (kind, object) → object.isProper = true) :
    (plan.outcome s).resources.Proper := by
  induction lawful with
  | nil => exact proper
  | cons among first _ inductionHypothesis =>
    exact inductionHypothesis (first.binds.proper proper (properSubjects _ among))

/-- Calls that draw, about objects with distinct keys. -/
def Script.IsDrawing (script : Script) : Prop :=
  ∀ call ∈ script.calls, call.isDrawing = true ∧ call.isProper = true

namespace ContentStream

theorem extension_performAll {c : ContentStream} (unlimited : c.sink.capacity = none)
    (distinct : c.state.resources.Distinct) (calls : List Call) :
    c.state.resources.Extends (c.performAll calls).state.resources ∧
      (c.performAll calls).state.resources.Distinct := by
  have lawful := DrawingState.lawful_planAll distinct c.places calls
  rw [performAll_of_unlimited unlimited]
  exact ⟨lawful.extension, lawful.distinct distinct⟩

theorem proper_performAll {c : ContentStream} (unlimited : c.sink.capacity = none)
    (distinct : c.state.resources.Distinct) (proper : c.state.resources.Proper) {calls : List Call}
    (properCalls : ∀ call ∈ calls, call.isProper = true) :
    (c.performAll calls).state.resources.Proper := by
  rw [performAll_of_unlimited unlimited]
  refine (DrawingState.lawful_planAll distinct c.places calls).proper proper ?_
  rintro subject? ⟨call, member, rfl⟩ kind object about
  exact Call.proper_resource (properCalls call member) about

/-- What was written by the calls of a run resolves in all resources that extend those at its end. -/
theorem log_resolves {c : ContentStream} (unlimited : c.sink.capacity = none)
    (distinct : c.state.resources.Distinct) {calls : List Call}
    (drawing : ∀ call ∈ calls, call.isDrawing = true ∧ call.isProper = true) {r : Resources}
    (proper : r.Proper) (further : (c.performAll calls).state.resources.Extends r) :
    ∀ entry ∈ c.log calls, entry.1.Resolves entry.2 r := by
  -- By induction on the calls; the resources at the end extend those after every call.
  induction calls generalizing c with
  | nil =>
    intro entry member
    cases member
  | cons call rest inductionHypothesis =>
    have others : ∀ call ∈ rest, call.isDrawing = true ∧ call.isProper = true :=
      fun other member => drawing other (List.mem_cons_of_mem _ member)
    unfold log
    rw [performAll] at further
    cases planned : call.plan c.places c.state with
    | error e =>
      rw [perform_of_refusal planned] at further ⊢
      exact inductionHypothesis unlimited distinct others further
    | ok plan =>
      rw [perform_of_plan unlimited planned] at further ⊢
      have lawful := Call.lawful_of_plan distinct planned
      let next : ContentStream :=
        ⟨plan.outcome c.state, { c.sink with written := c.sink.written ++ plan.bytes }, c.places⟩
      have keptDistinct : next.state.resources.Distinct := lawful.distinct distinct
      obtain ⟨draws, properCall⟩ := drawing call List.mem_cons_self
      intro entry member
      rcases List.mem_cons.mp member with rfl | later
      · rw [List.drop_left]
        refine Call.resolves_of_plan draws distinct planned proper
          (fun kind object => Call.proper_resource properCall) ?_
        exact (extension_performAll (c := next) unlimited keptDistinct rest).1.trans further
      · exact inductionHypothesis (c := next) unlimited keptDistinct others further entry later

end ContentStream

namespace Page

/-- Sessions only bind what is new, and what they wrote resolves in the resources at the end. -/
theorem resolves_drawAll {p last : Page} {scripts : List Script} {log : DrawingLog}
    (distinct : p.boundResources.Distinct) (proper : p.boundResources.Proper)
    (drawing : ∀ script ∈ scripts, script.IsDrawing)
    (ran : p.drawAll scripts = .ok (log, last)) :
    p.boundResources.Extends last.boundResources ∧ last.boundResources.Proper ∧
      ∀ entry ∈ log, entry.1.Resolves entry.2 last.boundResources := by
  induction scripts generalizing p log with
  | nil =>
    obtain ⟨rfl, rfl⟩ := Prod.mk.inj (Except.ok.inj ran)
    exact ⟨.refl p.boundResources, proper, fun _ member => by cases member⟩
  | cons script rest inductionHypothesis =>
    obtain ⟨next, others, closed, ranRest, rfl⟩ := drawAll_cons ran
    obtain ⟨inherited, unlimited⟩ := content_openSession p script
    have draws := drawing script List.mem_cons_self
    have left := boundResources_close closed
    rw [Session.performAll_eq] at left
    -- the session keeps what holds of the names of the page
    obtain ⟨further, keptDistinct⟩ := ContentStream.extension_performAll unlimited
      (inherited ▸ distinct) script.calls
    have keptProper := ContentStream.proper_performAll unlimited (inherited ▸ distinct)
      (inherited ▸ proper) fun call member => (draws call member).2
    rw [← left] at further keptDistinct keptProper
    obtain ⟨furtherStill, lastProper, resolved⟩ := inductionHypothesis keptDistinct keptProper
      (fun other member => drawing other (List.mem_cons_of_mem _ member)) ranRest
    -- What this session wrote resolves in its own resources, and so in all that extend them.
    refine ⟨(inherited ▸ further).trans furtherStill, lastProper, fun entry member => ?_⟩
    rcases List.mem_append.mp member with here | later
    · exact ContentStream.log_resolves unlimited (inherited ▸ distinct) draws lastProper
        (left ▸ furtherStill) entry here
    · exact resolved entry later

/-- A page with the resources of a dictionary, if it has one. -/
def load (contents : Option Contents) (dictionary : Option Dictionary) : Page :=
  ⟨contents, dictionary.map Resources.ofEntries⟩

theorem distinct_load (contents : Option Contents) (dictionary : Option Dictionary) :
    (load contents dictionary).boundResources.Distinct := by
  cases dictionary with
  | none => exact Resources.distinct_empty
  | some entries => exact Resources.distinct_ofEntries entries

theorem proper_load (contents : Option Contents) {dictionary : Option Dictionary}
    (proper : ∀ entries ∈ dictionary, Object.isProper (.dictionary entries) = true) :
    (load contents dictionary).boundResources.Proper := by
  cases dictionary with
  | none => exact fun _ => rfl
  | some entries => exact Resources.proper_ofEntries (proper entries rfl)

/-- However resources are loaded, and whatever sessions draw with them, the names that were written stand
at the end for what they were written for, and what was loaded is still bound. -/
theorem every_name_resolves (contents : Option Contents) (dictionary : Option Dictionary)
    (scripts : List Script) {log : DrawingLog} {last : Page}
    (proper : ∀ entries ∈ dictionary, Object.isProper (.dictionary entries) = true)
    (drawing : ∀ script ∈ scripts, script.IsDrawing)
    (ran : (load contents dictionary).drawAll scripts = .ok (log, last)) :
    (∀ entry ∈ log, entry.1.Resolves entry.2 last.boundResources) ∧
      (load contents dictionary).boundResources.Extends last.boundResources := by
  obtain ⟨further, _, resolved⟩ := resolves_drawAll (distinct_load contents dictionary)
    (proper_load contents proper) drawing ran
  exact ⟨resolved, further⟩

/-- Two sessions, the second of which keeps the content of the first. -/
def twoSessions : List Script :=
  [⟨⟨false, false, false⟩, ⟨[]⟩, 6, [.setParameters (.integer 1), .beginText, .endText]⟩,
    ⟨⟨true, false, true⟩, ⟨[]⟩, 6,
      [.beginMarkedWith "a b" (.integer 1), .setColorSpace .stroking .cmyk]⟩]

/-- Resources that bind the name with the number after that of the names. -/
def numberedAhead : Dictionary :=
  [("ExtGState", .dictionary [("gs2", .null)]), ("Properties", .dictionary [("MC0", .integer 1)])]

/-- The parameters of the first session get the number after the one that is taken, and the properties of
the second are those that were loaded. -/
theorem names_of_two_sessions_resolve :
    ∃ log last, (load none numberedAhead).drawAll twoSessions = .ok (log, last) ∧
      (∀ entry ∈ log, entry.1.Resolves entry.2 last.boundResources) ∧
      last.boundResources.names .graphicsState = ["gs2", "gs3"] ∧
      last.boundResources.names .properties = ["MC0"] := by
  obtain ⟨log, last, ran⟩ :
    ∃ log last, (load none numberedAhead).drawAll twoSessions = .ok (log, last) := ⟨_, _, rfl⟩
  have proper : ∀ entries ∈ some numberedAhead, Object.isProper (.dictionary entries) = true := by
    intro entries given
    cases given
    decide
  have drawing : ∀ script ∈ twoSessions, script.IsDrawing := by
    unfold twoSessions Script.IsDrawing
    decide
  refine ⟨log, last, ran, (every_name_resolves none _ twoSessions proper drawing ran).1, ?_, ?_⟩
  · cases ran
    rfl
  · cases ran
    rfl

end Page

end PdfCanvas
