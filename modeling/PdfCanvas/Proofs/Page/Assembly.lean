import PdfCanvas.Proofs.Page.Sessions

/-!
# Assembling pages

A session that keeps the content of a page puts one stream behind those that are there, and with its
context reset one in front of them as well; any other session leaves a single stream. No session touches
the streams that it keeps, so a run of sessions only puts streams around them.
-/

namespace PdfCanvas

/-- A stream as it is made for content: it holds the bytes, deflated if asked for, and its dictionary tells
the length of the data and the filter, and nothing else. -/
structure Stream.Holds (stream : Stream) (bytes : Bytes) (compress : Bool) : Prop where
  data : stream.data = if compress then Deflate.encode bytes else bytes
  length : stream.get? "Length" = some (.integer stream.data.length)
  filter : stream.get? "Filter" = if compress then some (.name "FlateDecode") else none
  others : ∀ key, key ≠ "Length" → key ≠ "Filter" → stream.get? key = none

theorem holds_contentStream (bytes : Bytes) (compress : Bool) :
    (contentStream bytes compress).Holds bytes compress := by
  cases compress with
  | false =>
    refine ⟨rfl, rfl, rfl, fun key notLength _ => ?_⟩
    change List.lookup key [("Length", _)] = none
    rw [List.lookup_cons, beq_false_of_ne notLength]
    rfl
  | true =>
    refine ⟨rfl, rfl, rfl, fun key notLength notFilter => ?_⟩
    change List.lookup key [("Filter", _), ("Length", _)] = none
    rw [List.lookup_cons, beq_false_of_ne notFilter, List.lookup_cons, beq_false_of_ne notLength]
    rfl

/-- What a session makes of a page when it has drawn the body and is closed. -/
def Page.Assembles (before : Page) (options : SessionOptions) (body : Bytes) (after : Page) : Prop :=
  after.resources.isSome = true ∧
    if options.append = true ∧ before.streams ≠ [] then
      if options.resetContext = true then
        ∃ first last : Stream,
          after.contents = some (.array ([first] ++ before.streams ++ [last])) ∧
          first.Holds (utf8 "q\n") options.compress ∧
          last.Holds (utf8 "Q\n" ++ body) options.compress
      else
        ∃ last : Stream, after.contents = some (.array (before.streams ++ [last])) ∧
          last.Holds body options.compress
    else ∃ only : Stream, after.contents = some (.single only) ∧ only.Holds body options.compress

theorem ContentStream.written_of_close {c : ContentStream} {bytes : Bytes}
    (closed : c.close = .ok bytes) : bytes = c.sink.written := by
  unfold close at closed
  cases inText : c.state.graphics.inText with
  | true => simp [inText, throw, throwThe, MonadExceptOf.throw, bind, Except.bind] at closed
  | false =>
    rw [inText] at closed
    obtain ⟨_, _, made⟩ := bind_eq_ok.mp closed
    exact (Except.ok.inj made).symm

theorem ContentStream.close_of_outside {c : ContentStream}
    (outside : c.state.graphics.inText = false) (flushes : c.sink.refusesFlush = false) :
    c.close = .ok c.sink.written := by
  simp [close, outside, Sink.flush, flushes, pure, Except.pure, bind, Except.bind]

namespace Session

/-- The page that a session leaves: its stream holds what was written at the opening, and then what the
calls wrote. -/
theorem page_of_close {s : Session} (unlimited : s.content.sink.capacity = none) {calls : List Call}
    {next : Page} (closed : (s.performAll calls).close = (.ok (), next)) :
    next = (s.performAll calls).pageWith (contentStream
      (s.content.sink.written ++ (s.content.log calls).flatMap (·.2)) s.compress) := by
  rw [performAll_eq] at closed ⊢
  unfold close at closed
  cases ended : (s.content.performAll calls).close with
  | error e => simp [ended] at closed
  | ok bytes =>
    have written := ContentStream.written_of_close ended
    rw [ContentStream.written_performAll unlimited] at written
    simp only [ended, written] at closed
    exact (congrArg Prod.snd closed).symm

end Session

namespace Page

variable {p : Page} {script : Script}

/-- The content that a session starts with. -/
def openContent (p : Page) (script : Script) : ContentStream :=
  .start .unlimited p.boundResources script.subsets script.places

theorem openSession_of_reset (keeps : script.options.append = true ∧ p.streams ≠ [])
    (reset : script.options.resetContext = true) :
    p.openSession script =
      ⟨some (contentStream (utf8 "q\n") script.options.compress :: p.streams),
        ((p.openContent script).perform .restore).2, script.options.compress⟩ := by
  have opening : Session.openingBracket = utf8 "q\n" := rfl
  simp [openSession, Session.start, openContent, boundResources, hasContents, keeps, reset, opening]

theorem openSession_of_append (keeps : script.options.append = true ∧ p.streams ≠ [])
    (noReset : script.options.resetContext = false) :
    p.openSession script =
      ⟨some p.streams, p.openContent script, script.options.compress⟩ := by
  simp [openSession, Session.start, openContent, boundResources, hasContents, keeps, noReset]

theorem openSession_of_overwrite (replaces : ¬ (script.options.append = true ∧ p.streams ≠ [])) :
    p.openSession script = ⟨none, p.openContent script, script.options.compress⟩ := by
  simp [openSession, Session.start, openContent, boundResources, hasContents, replaces]

theorem written_restore (p : Page) (script : Script) :
    ((p.openContent script).perform .restore).2.sink.written = utf8 "Q\n" := by
  have planned : Call.plan (p.openContent script).places (p.openContent script).state .restore =
      .ok _ := rfl
  rw [ContentStream.perform_of_plan rfl planned]
  rfl

theorem assembles_of_close {next : Page}
    (closed : ((p.openSession script).performAll script.calls).close = (.ok (), next)) :
    p.Assembles script.options (((p.openSession script).content.log script.calls).flatMap (·.2))
      next := by
  have left := Session.page_of_close (content_openSession p script).2 closed
  rw [Session.performAll_eq] at left
  unfold Assembles
  by_cases keeps : script.options.append = true ∧ p.streams ≠ []
  · rw [if_pos keeps]
    cases reset : script.options.resetContext with
    | true =>
      rw [openSession_of_reset keeps reset] at left ⊢
      rw [written_restore] at left
      subst left
      exact ⟨rfl, contentStream (utf8 "q\n") script.options.compress, _, rfl,
        holds_contentStream .., holds_contentStream ..⟩
    | false =>
      rw [openSession_of_append keeps reset] at left ⊢
      subst left
      exact ⟨rfl, _, rfl, holds_contentStream ..⟩
  · rw [if_neg keeps]
    rw [openSession_of_overwrite keeps] at left ⊢
    subst left
    exact ⟨rfl, _, rfl, holds_contentStream ..⟩

/-- In a run of sessions each one assembles the page that it leaves from the page that it was opened on and
from what its calls wrote. -/
theorem every_session_assembles_its_page {last : Page} {before after : List Script} {log : DrawingLog}
    (ran : p.drawAll (before ++ script :: after) = .ok (log, last)) :
    ∃ earlier current next later, p.drawAll before = .ok (earlier, current) ∧
      ((current.openSession script).performAll script.calls).close = (.ok (), next) ∧
      next.drawAll after = .ok (later, last) ∧
      log = earlier ++ (current.openSession script).content.log script.calls ++ later ∧
      current.Assembles script.options
        (((current.openSession script).content.log script.calls).flatMap (·.2)) next := by
  obtain ⟨earlier, current, next, later, ranBefore, closed, ranAfter, logged⟩ := drawAll_split ran
  exact ⟨earlier, current, next, later, ranBefore, closed, ranAfter, logged, assembles_of_close closed⟩

/-- A path that paints nothing. -/
def idle : Stream := ⟨[("Length", .integer 2)], utf8 "n\n"⟩

/-- Puts a `Q` behind the content. -/
def closing : Script := ⟨⟨true, false, false⟩, ⟨[]⟩, 6, [.restore]⟩

/-- Brackets the content and puts a `q` behind it, deflated. -/
def bracketing : Script := ⟨⟨true, true, true⟩, ⟨[]⟩, 6, [.save]⟩

/-- The bracket is put around both streams that are there; the new stream ends the bracket first. -/
theorem bracket_is_assembled_around_two_streams :
    ∃ (log : DrawingLog) (last : Page) (first final : Stream),
      drawAll ⟨some (.single idle), none⟩ ([closing] ++ bracketing :: []) = .ok (log, last) ∧
      last.contents =
        some (.array ([first] ++ [idle, ⟨[("Length", .integer 2)], utf8 "Q\n"⟩] ++ [final])) ∧
      first.Holds (utf8 "q\n") true ∧ final.Holds (utf8 "Q\n" ++ utf8 "q\n") true ∧
      last.resources.isSome = true := by
  obtain ⟨log, last, ran⟩ : ∃ log last,
      drawAll ⟨some (.single idle), none⟩ ([closing] ++ bracketing :: []) = .ok (log, last) :=
    ⟨_, _, rfl⟩
  obtain ⟨earlier, current, next, later, ranBefore, _, ranAfter, _, bound, assembled⟩ :=
    every_session_assembles_its_page ran
  cases ranBefore
  cases ranAfter
  rw [if_pos ⟨rfl, List.cons_ne_nil _ _⟩] at assembled
  obtain ⟨first, final, contents, holdsFirst, holdsFinal⟩ := assembled
  exact ⟨log, last, first, final, ran, contents, holdsFirst, holdsFinal, bound⟩

end Page

end PdfCanvas
