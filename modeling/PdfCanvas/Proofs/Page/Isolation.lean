import PdfCanvas.Proofs.Content.Grammar
import PdfCanvas.Proofs.Page.Decoding
import PdfCanvas.Proofs.Reader.GraphicsStates

/-!
# Isolated drawing

A session that resets the context puts a `q` in front of everything and a `Q` in front of what it draws, and
the next one does the same around both. If what each session draws is balanced, every `Q` meets the `q` of
its own session, however many brackets are put around it later: the page before is read between the two, and
leaves the reader as it was at the beginning.
-/

namespace PdfCanvas

open Reader

/-- A reader that gets at the content of streams by `unfilter` opens every stream that holds the content. -/
def Written.OpensBy (content : Written) (unfilter : Stream → Option Bytes) : Prop :=
  ∀ stream, content.IsIn stream → unfilter stream = some content.bytes

/-- A reading that comes to an end, with balanced operations. -/
def BalancedReading (reading : Option (List Operation)) : Prop :=
  ∃ operations, reading = some operations ∧ IsBalanced operations

namespace Page

/-- What the calls of a session write. -/
def body (p : Page) (script : Script) : Bytes :=
  ((p.openSession script).content.log script.calls).flatMap (·.2)

/-- What a session writes before its calls. -/
def opening (p : Page) (options : SessionOptions) : Bytes :=
  if (options.append = true ∧ p.streams ≠ []) ∧ options.resetContext = true then utf8 "Q\n" else []

/-- What a session writes into its stream. -/
def content (p : Page) (script : Script) : Written :=
  ⟨p.opening script.options ++ p.body script, script.options.compress⟩

/-- What is to hold of every session of a run and of the page that it is opened on. -/
def EverySession (holds : Page → Script → Prop) (p : Page) : List Script → Prop
  | [] => True
  | script :: rest =>
    holds p script ∧ ((p.openSession script).performAll script.calls).close.2.EverySession holds rest

/-- What the calls of a session write is balanced, and the reader opens the stream that it is in. -/
structure DrawsBalanced (unfilter : Stream → Option Bytes) (p : Page) (script : Script) : Prop where
  balanced : BalancedReading (readOperations (p.body script))
  opens : (p.content script).OpensBy unfilter

theorem EverySession.split {holds : Page → Script → Prop} {p current : Page}
    {before after : List Script} {log : DrawingLog} (ran : p.drawAll before = .ok (log, current))
    (every : p.EverySession holds (before ++ after)) :
    p.EverySession holds before ∧ current.EverySession holds after := by
  induction before generalizing p log with
  | nil =>
    obtain ⟨-, rfl⟩ := Prod.mk.inj (Except.ok.inj ran)
    exact ⟨trivial, every⟩
  | cons first before inductionHypothesis =>
    obtain ⟨next, others, closed, ranRest, -⟩ := drawAll_cons ran
    rw [List.cons_append, EverySession, closed] at every
    obtain ⟨earlier, later⟩ := inductionHypothesis ranRest every.2
    exact ⟨⟨every.1, by rw [closed]; exact earlier⟩, later⟩

end Page

/-! ## Brackets -/

def saveOperation : Operation := ⟨[], "q"⟩

def restoreOperation : Operation := ⟨[], "Q"⟩

/-- A stream that saves the graphics state and does nothing else. -/
def Stream.IsSave (stream : Stream) : Prop := ∃ compress, Written.IsIn ⟨utf8 "q\n", compress⟩ stream

section

variable {unfilter : Stream → Option Bytes}

def OpensBrackets (unfilter : Stream → Option Bytes) : Prop :=
  ∀ compress, Written.OpensBy ⟨utf8 "q\n", compress⟩ unfilter

theorem readStreams_save (opens : OpensBrackets unfilter) {first : Stream} (save : first.IsSave)
    (streams : List Stream) :
    readStreams unfilter (first :: streams) =
      (readStreams unfilter streams).map (saveOperation :: ·) := by
  obtain ⟨compress, isIn⟩ := save
  have saved : readStreams unfilter [first] = some [saveOperation] :=
    (readStreams_singleton (opens compress first isIn)).trans
      (readOperations_instructions [⟨[], .save⟩])
  rw [← List.singleton_append, readStreams_append saved]
  rfl

theorem readStreams_saves (opens : OpensBrackets unfilter) {streams : List Stream}
    (saves : ∀ stream ∈ streams, stream.IsSave) :
    readStreams unfilter streams = some (List.replicate streams.length saveOperation) := by
  induction streams with
  | nil => rfl
  | cons stream streams inductionHypothesis =>
    rw [readStreams_save opens (saves stream List.mem_cons_self),
      inductionHypothesis fun other member => saves other (List.mem_cons_of_mem stream member)]
    rfl

theorem readOperations_opened (operations : List Operation) {content : Bytes}
    (read : readOperations content = some operations) :
    readOperations (utf8 "Q\n" ++ content) = some (restoreOperation :: operations) := by
  rw [← Option.map_some, ← read]
  exact readOperations_instruction ⟨[], .restore⟩ content

end

namespace Page

variable {unfilter : Stream → Option Bytes} {p next last : Page} {script : Script}

/-! ## What a session leaves -/

/-- The streams that a session leaves: its own, alone or behind those that it keeps, which may be
bracketed. -/
inductive Leaves (p : Page) (script : Script) : List Stream → Prop
  | bracketed {first stream : Stream} (reset : script.options.resetContext = true)
      (opening : p.opening script.options = utf8 "Q\n") (save : first.IsSave)
      (isIn : (p.content script).IsIn stream) : Leaves p script (first :: p.streams ++ [stream])
  | extended {stream : Stream} (append : script.options.append = true)
      (noReset : script.options.resetContext = false) (opening : p.opening script.options = [])
      (isIn : (p.content script).IsIn stream) : Leaves p script (p.streams ++ [stream])
  | replaced {stream : Stream} (replaces : script.options.append = true → p.streams = [])
      (opening : p.opening script.options = []) (isIn : (p.content script).IsIn stream) :
    Leaves p script [stream]

theorem leaves_of_close
    (closed : ((p.openSession script).performAll script.calls).close = (.ok (), next)) :
    p.Leaves script next.streams := by
  obtain ⟨-, assembles⟩ := assembles_of_close closed
  have bodyIn {opened : Bytes} (opening : p.opening script.options = opened) :
      p.content script = ⟨opened ++ p.body script, script.options.compress⟩ := by
    rw [content, opening]
  by_cases keeps : script.options.append = true ∧ p.streams ≠ []
  · rw [if_pos keeps] at assembles
    cases reset : script.options.resetContext with
    | true =>
      rw [reset, if_pos rfl] at assembles
      obtain ⟨first, stream, contents, holdsFirst, holds⟩ := assembles
      have opening : p.opening script.options = utf8 "Q\n" := if_pos ⟨keeps, reset⟩
      have isIn : (p.content script).IsIn stream := by rw [bodyIn opening]; exact holds
      rw [streams, contents]
      exact .bracketed reset opening ⟨_, holdsFirst⟩ isIn
    | false =>
      rw [reset, if_neg Bool.false_ne_true] at assembles
      obtain ⟨stream, contents, holds⟩ := assembles
      have opening : p.opening script.options = [] := if_neg fun both => by simp [reset] at both
      have isIn : (p.content script).IsIn stream := by rw [bodyIn opening]; exact holds
      rw [streams, contents]
      exact .extended keeps.1 reset opening isIn
  · rw [if_neg keeps] at assembles
    obtain ⟨stream, contents, holds⟩ := assembles
    have opening : p.opening script.options = [] := if_neg fun both => keeps both.1
    have isIn : (p.content script).IsIn stream := by rw [bodyIn opening]; exact holds
    rw [streams, contents]
    exact .replaced (fun append => not_not.mp fun some => keeps ⟨append, some⟩) opening isIn

theorem streams_drawAll {scripts : List Script} {log : DrawingLog}
    (ran : p.drawAll scripts = .ok (log, last)) (kept : ∀ script ∈ scripts, script.options.append = true)
    (some : p.streams ≠ []) :
    ∃ brackets others, last.streams = brackets ++ p.streams ++ others ∧
      others.length = scripts.length ∧ ∀ stream ∈ brackets, stream.IsSave := by
  induction scripts generalizing p log with
  | nil =>
    obtain ⟨-, rfl⟩ := Prod.mk.inj (Except.ok.inj ran)
    exact ⟨[], [], by simp, rfl, by simp⟩
  | cons script scripts inductionHypothesis =>
    obtain ⟨next, _, closed, ranRest, -⟩ := drawAll_cons ran
    obtain ⟨front, stream, grown, saves⟩ : ∃ front stream, next.streams = front ++ p.streams ++ [stream] ∧
        ∀ stream ∈ front, stream.IsSave := by
      have leaves := leaves_of_close closed
      generalize next.streams = streams at leaves
      cases leaves with
      | bracketed _ _ save => exact ⟨[_], _, rfl, by simpa using save⟩
      | extended => exact ⟨[], _, rfl, by simp⟩
      | replaced replaces => exact absurd (replaces (kept script List.mem_cons_self)) some
    obtain ⟨brackets, others, streams, count, savesRest⟩ := inductionHypothesis ranRest
      (fun other member => kept other (List.mem_cons_of_mem script member)) (by simp [grown])
    refine ⟨brackets ++ front, stream :: others, ?_, by rw [List.length_cons, count, List.length_cons], ?_⟩
    · rw [streams, grown]
      simp only [List.append_assoc, List.singleton_append]
    · intro stream member
      rcases List.mem_append.mp member with later | now
      · exact savesRest stream later
      · exact saves stream now

/-! ## Balanced pages -/

/-- The streams of a page read as balanced operations. -/
def ReadsBalanced (unfilter : Stream → Option Bytes) (p : Page) : Prop :=
  BalancedReading (readStreams unfilter p.streams)

theorem DrawsBalanced.read (draws : p.DrawsBalanced unfilter script) {stream : Stream}
    (isIn : (p.content script).IsIn stream) :
    readStreams unfilter [stream] = readOperations (p.opening script.options ++ p.body script) :=
  readStreams_singleton (draws.opens stream isIn)

/-- The page that a session leaves as a reader gets through it: the streams in front of that of the session,
and in this what it was opened with and what its calls wrote. -/
structure Reads (unfilter : Stream → Option Bytes) (p next : Page) (script : Script)
    (kept : List Stream) (stream : Stream) (front opened operations : List Operation) : Prop where
  streams : next.streams = kept ++ [stream]
  isIn : (p.content script).IsIn stream
  readKept : readStreams unfilter kept = some front
  readOpening : readOperations (p.opening script.options) = some opened
  readBody : readOperations (p.body script) = some operations
  readStream : readStreams unfilter [stream] = some (opened ++ operations)
  balanced : IsBalanced (front ++ opened)
  untouched : script.options.resetContext = true ∨ script.options.append = false →
    ∀ {σ : Type} (effect : Operation → σ → σ) (reader : StateReader σ),
      reader.readAll effect (front ++ opened) = reader

theorem DrawsBalanced.reads (draws : p.DrawsBalanced unfilter script)
    (brackets : OpensBrackets unfilter) (balanced : p.ReadsBalanced unfilter)
    (closed : ((p.openSession script).performAll script.calls).close = (.ok (), next)) :
    ∃ kept stream front opened operations,
      p.Reads unfilter next script kept stream front opened operations := by
  obtain ⟨before, readBefore, balancedBefore⟩ := balanced
  obtain ⟨body, readBody, -⟩ := draws.balanced
  have unopened (opening : p.opening script.options = []) :
      readOperations (p.opening script.options) = some [] := by
    rw [opening]
    exact readOperations_instructions []
  have leaves := leaves_of_close closed
  generalize streams : next.streams = left at leaves
  cases leaves with
  | @bracketed first stream _ opening save isIn =>
    have kept : readStreams unfilter (first :: p.streams) = some (saveOperation :: before) := by
      rw [readStreams_save brackets save, readBefore, Option.map_some]
    have drawn := draws.read isIn
    rw [opening, readOperations_opened body readBody] at drawn
    have restored : readOperations (p.opening script.options) = some [restoreOperation] := by
      rw [opening]
      exact readOperations_instructions [⟨[], .restore⟩]
    exact ⟨_, stream, _, _, body, streams, isIn, kept, restored, readBody, drawn, balancedBefore.bracket,
      fun _ _ effect reader => StateReader.readAll_bracket effect reader balancedBefore⟩
  | @extended stream append noReset opening isIn =>
    have drawn := draws.read isIn
    rw [opening, List.nil_append, readBody] at drawn
    refine ⟨_, stream, before, [], body, streams, isIn, readBefore, unopened opening, readBody, drawn,
      ?_, ?_⟩
    · rw [List.append_nil]
      exact balancedBefore
    · rw [append, noReset]
      simp
  | @replaced stream _ opening isIn =>
    have drawn := draws.read isIn
    rw [opening, List.nil_append, readBody] at drawn
    exact ⟨[], stream, [], [], body, streams, isIn, rfl, unopened opening, readBody, drawn, .nil,
      fun _ _ _ _ => rfl⟩

theorem DrawsBalanced.readsBalanced (draws : p.DrawsBalanced unfilter script)
    (brackets : OpensBrackets unfilter) (balanced : p.ReadsBalanced unfilter)
    (closed : ((p.openSession script).performAll script.calls).close = (.ok (), next)) :
    next.ReadsBalanced unfilter := by
  obtain ⟨kept, stream, front, opened, operations, reads⟩ := draws.reads brackets balanced closed
  obtain ⟨_, readBody, balancedBody⟩ := draws.balanced
  cases readBody.symm.trans reads.readBody
  refine ⟨front ++ opened ++ _, ?_, reads.balanced.append balancedBody⟩
  rw [reads.streams, readStreams_append reads.readKept, reads.readStream, Option.map_some,
    List.append_assoc]

theorem readsBalanced_drawAll (brackets : OpensBrackets unfilter) {scripts : List Script}
    {log : DrawingLog} (balanced : p.ReadsBalanced unfilter)
    (ran : p.drawAll scripts = .ok (log, last))
    (draws : p.EverySession (DrawsBalanced unfilter) scripts) : last.ReadsBalanced unfilter := by
  induction scripts generalizing p log with
  | nil =>
    obtain ⟨-, rfl⟩ := Prod.mk.inj (Except.ok.inj ran)
    exact balanced
  | cons script scripts inductionHypothesis =>
    obtain ⟨next, _, closed, ranRest, -⟩ := drawAll_cons ran
    obtain ⟨drawsFirst, drawsRest⟩ := draws
    rw [closed] at drawsRest
    exact inductionHypothesis (drawsFirst.readsBalanced brackets balanced closed) ranRest drawsRest

/-! ## Isolation -/

/-- A reader of the page that a run leaves reaches the calls of a session with its context reset, or of one
that replaced what there was, in its initial graphics state, as long as the stream of the session is
there. -/
theorem reset_context_isolates {σ : Type} (effect : Operation → σ → σ) (initial : σ)
    {before after : List Script} {log : DrawingLog} (brackets : OpensBrackets unfilter)
    (balanced : p.ReadsBalanced unfilter)
    (ran : p.drawAll (before ++ script :: after) = .ok (log, last))
    (draws : p.EverySession (DrawsBalanced unfilter) (before ++ script :: after))
    (isolated : script.options.resetContext = true ∨ script.options.append = false)
    (kept : ∀ later ∈ after, later.options.append = true) :
    ∃ earlier current front stream others head opened operations rest,
      p.drawAll before = .ok (earlier, current) ∧
      last.streams = front ++ stream :: others ∧ others.length = after.length ∧
      (current.content script).IsIn stream ∧
      readStreams unfilter front = some head ∧
      readOperations (current.opening script.options) = some opened ∧
      readOperations (current.body script) = some operations ∧
      readStreams unfilter last.streams = some (head ++ opened ++ operations ++ rest) ∧
      ((StateReader.start initial).readAll effect (head ++ opened)).current = initial := by
  obtain ⟨earlier, current, next, _, ranBefore, closed, ranAfter, -⟩ := drawAll_split ran
  obtain ⟨drawsBefore, drawsNow, -⟩ := draws.split ranBefore
  obtain ⟨all, readAll, -⟩ := readsBalanced_drawAll brackets balanced ran draws
  have balancedNow := readsBalanced_drawAll brackets balanced ranBefore drawsBefore
  obtain ⟨streams, stream, front, opened, operations, reads⟩ := drawsNow.reads brackets balancedNow closed
  obtain ⟨saves, others, grown, count, areSaves⟩ := streams_drawAll ranAfter kept (by simp [reads.streams])
  have whole : last.streams = (saves ++ streams) ++ stream :: others := by
    rw [grown, reads.streams]
    simp only [List.append_assoc, List.singleton_append]
  -- The brackets of later sessions are read before all that the session has left.
  let head := List.replicate saves.length saveOperation ++ front
  have readHead : readStreams unfilter (saves ++ streams) = some head := by
    rw [readStreams_append (readStreams_saves brackets areSaves), reads.readKept]
    rfl
  have readRest : readStreams unfilter last.streams =
      ((readStreams unfilter others).map (opened ++ operations ++ ·)).map (head ++ ·) := by
    rw [whole, readStreams_append readHead, ← List.singleton_append, readStreams_append reads.readStream]
  obtain ⟨rest, readOthers⟩ : ∃ rest, readStreams unfilter others = some rest := by
    rw [readRest] at readAll
    cases read : readStreams unfilter others with
    | none => simp [read] at readAll
    | some rest => exact ⟨rest, rfl⟩
  refine ⟨earlier, current, saves ++ streams, stream, others, head, opened, operations, rest, ranBefore,
    whole, count, reads.isIn, readHead, reads.readOpening, reads.readBody, ?_, ?_⟩
  · rw [readRest, readOthers]
    simp only [Option.map_some, List.append_assoc]
  · rw [List.append_assoc, StateReader.readAll_append, reads.untouched isolated]
    exact StateReader.current_saves effect (.start initial) saves.length

/-! ## A reader without limits -/

def unlimitedContent (stream : Stream) : Option Bytes :=
  (decodeStream stream.data stream.filterNames none .unlimited).toOption

theorem opensBy_unlimitedContent {content : Written} (inflates : content.Inflates) :
    content.OpensBy unlimitedContent := by
  intro stream isIn
  obtain ⟨bytes, compress⟩ := content
  cases compress with
  | false =>
    have names : stream.filterNames = [] := isIn.filterNames
    have data : stream.data = bytes := isIn.data
    rw [unlimitedContent, names, data]
    rfl
  | true =>
    rw [unlimitedContent, Written.decodeStream_of_deflated isIn inflates]
    rfl

theorem opensBrackets_unlimitedContent : OpensBrackets unlimitedContent :=
  fun _ => opensBy_unlimitedContent fun _ => Deflate.decode_encode_save

theorem readOperations_body (p : Page) {script : Script}
    (drawing : ∀ call ∈ script.calls, call.isDrawing = true) :
    readOperations (p.body script) = some (((p.openSession script).content.state.planAll
      (p.openSession script).content.places script.calls).instructions.map operationOf) := by
  have unlimited := (content_openSession p script).2
  obtain ⟨_, _, spelled⟩ := ContentStream.spells_planAll unlimited drawing
  have written := ContentStream.written_performAll unlimited script.calls
  rw [ContentStream.performAll_of_unlimited unlimited] at written
  rw [body, ← List.append_cancel_left written, spelled.bytes]
  exact readOperations_instructions _

def widening : Stream := ⟨[("Length", .integer 4)], utf8 "1 w\n"⟩

/-- Saves the graphics state and restores it, behind the content. -/
def savingAside : Script := ⟨⟨true, false, false⟩, ⟨[]⟩, 6, [.save, .restore]⟩

/-- The state of this reader is what it has read since the beginning, the last operation first. The first of
two fills that were bracketed finds the widened line forgotten. -/
theorem bracketed_fill_is_isolated :
    ∃ (log : DrawingLog) (last : Page) (head rest : List Operation),
      drawAll ⟨some (.single widening), none⟩ ([savingAside] ++ bracketedFill :: [bracketedFill]) =
        .ok (log, last) ∧
      readStreams unlimitedContent last.streams = some (head ++ ⟨[], "f"⟩ :: rest) ∧
      ((StateReader.start []).readAll List.cons head).current = [] := by
  obtain ⟨log, last, ran⟩ : ∃ log last,
      drawAll ⟨some (.single widening), none⟩ ([savingAside] ++ bracketedFill :: [bracketedFill]) =
        .ok (log, last) := ⟨_, _, rfl⟩
  have opens {p : Page} {script : Script} (plain : script.options.compress = false) :
      (p.content script).OpensBy unlimitedContent :=
    opensBy_unlimitedContent fun deflated => by simp [content, plain] at deflated
  have fill : IsBalanced [⟨[], "f"⟩] := .single (by decide) (by decide)
  have balanced : ReadsBalanced unlimitedContent ⟨some (.single widening), none⟩ :=
    ⟨_, (readStreams_singleton rfl).trans
        (readOperations_instructions [⟨[.number ⟨false, 1, 0⟩], .lineWidth⟩]),
      .single (by decide) (by decide)⟩
  obtain ⟨earlier, current, front, stream, others, head, opened, operations, rest, ranBefore, -, -, -, -, -,
    readBody, read, isolated⟩ :=
    reset_context_isolates List.cons [] opensBrackets_unlimitedContent balanced ran
      ⟨⟨⟨_, readOperations_body _ (by decide), IsBalanced.nil.bracket⟩, opens rfl⟩,
        ⟨⟨_, readOperations_body _ (by decide), fill⟩, opens rfl⟩,
        ⟨⟨_, readOperations_body _ (by decide), fill⟩, opens rfl⟩, trivial⟩
      (.inl rfl) (by decide)
  cases ranBefore
  rw [readOperations_body _ (by decide)] at readBody
  cases readBody
  refine ⟨log, last, head ++ opened, rest, ran, ?_, isolated⟩
  rw [read, List.append_assoc]
  rfl

end Page

end PdfCanvas
