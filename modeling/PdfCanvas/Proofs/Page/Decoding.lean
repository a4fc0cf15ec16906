import PdfCanvas.Proofs.Filter.Limits
import PdfCanvas.Proofs.Page.Assembly
import Mathlib.Data.List.Forall2

/-!
# Reading back what was drawn

The streams of a page that was blank hold what its sessions wrote into them, each deflated or not. Reading
them gives these bytes, in the order of the streams, as long as no deflated stream expands beyond the
limits of the reader: these are meant for data from elsewhere, but know nothing of where data come from.
-/

namespace PdfCanvas

/-- What was written into a stream, and whether it was deflated. -/
structure Written where
  bytes : Bytes
  compress : Bool
  deriving DecidableEq

namespace Written

/-- What the streams hold after a session that wrote the body. -/
def assemble (before : List Written) (options : SessionOptions) (body : Bytes) : List Written :=
  if options.append = true ∧ before ≠ [] then
    if options.resetContext = true then
      [⟨utf8 "q\n", options.compress⟩] ++ before ++ [⟨utf8 "Q\n" ++ body, options.compress⟩]
    else before ++ [⟨body, options.compress⟩]
  else [⟨body, options.compress⟩]

/-- Deflated data may expand a hundredfold, up to a hundred mebibytes. -/
def IsWithinLimits (content : Written) : Prop :=
  content.compress = true →
    content.bytes.length / (Deflate.encode content.bytes).length ≤ 100 ∧
      content.bytes.length ≤ 100 * 1024 * 1024

/-- Deflating loses nothing of what was written. -/
def Inflates (content : Written) : Prop :=
  content.compress = true → Flate.decode (Deflate.encode content.bytes) = .ok content.bytes

/-- The stream holds what was written. -/
def IsIn (content : Written) (stream : Stream) : Prop :=
  stream.Holds content.bytes content.compress

end Written

namespace Page

/-- What the streams of a page hold after sessions, if they held `before` at the beginning. -/
def writtenFrom (p : Page) (before : List Written) : List Script → List Written
  | [] => before
  | script :: rest =>
    let session := p.openSession script
    (session.performAll script.calls).close.2.writtenFrom
      (Written.assemble before script.options ((session.content.log script.calls).flatMap (·.2))) rest

/-- What the streams of a blank page hold after sessions. -/
def written (p : Page) (scripts : List Script) : List Written := p.writtenFrom [] scripts

end Page

theorem Stream.Holds.filterNames {stream : Stream} {bytes : Bytes} {compress : Bool}
    (holds : stream.Holds bytes compress) :
    stream.filterNames = if compress then ["FlateDecode"] else [] := by
  have abbreviated : stream.get? "F" = none := holds.others "F" (by decide) (by decide)
  have found : stream.getAny? ["Filter", "F"] = stream.get? "Filter" := by
    change List.findSome? stream.get? ["Filter", "F"] = _
    rw [List.findSome?_cons, List.findSome?_cons, abbreviated]
    cases stream.get? "Filter" <;> rfl
  rw [Stream.filterNames, found, holds.filter]
  cases compress <;> rfl

theorem DecodeLimits.check_standard (encoded decoded : Nat) :
    standard.check encoded decoded = .ok () ↔
      decoded / encoded ≤ 100 ∧ decoded ≤ 100 * 1024 * 1024 := by
  have ratio (some : encoded ≠ 0) : decoded < (100 + 1) * encoded ↔ decoded / encoded ≤ 100 := by
    rw [← Nat.div_lt_iff_lt_mul (Nat.pos_of_ne_zero some), Nat.lt_succ_iff]
  rw [check_eq_ok_iff, Admits]
  by_cases empty : encoded = 0
  · simp [standard, empty]
  · simp [standard, empty, ratio, and_comm]

namespace Written

variable {content : Written} {stream : Stream}

/-- Inflating gives what was written; only the limits are left. -/
theorem decodeStream_of_deflated {bytes : Bytes} {limits : DecodeLimits}
    (isIn : IsIn ⟨bytes, true⟩ stream) (inflates : Inflates ⟨bytes, true⟩) :
    decodeStream stream.data stream.filterNames none limits = do
      limits.check (Deflate.encode bytes).length bytes.length
      return bytes := by
  have names : stream.filterNames = ["FlateDecode"] := isIn.filterNames
  have data : stream.data = Deflate.encode bytes := isIn.data
  rw [names, data]
  exact decodeStream_singleton (decodeFilter_of_inflated (inflates rfl))

theorem decodeStream_eq_ok_iff (isIn : content.IsIn stream) (inflates : content.Inflates)
    (read : Bytes) :
    decodeStream stream.data stream.filterNames none .standard = .ok read ↔
      content.IsWithinLimits ∧ read = content.bytes := by
  obtain ⟨bytes, compress⟩ := content
  cases compress with
  | false =>
    have names : stream.filterNames = [] := isIn.filterNames
    have data : stream.data = bytes := isIn.data
    rw [names, data]
    simp [decodeStream, decodeFilters, IsWithinLimits, eq_comm]
  | true =>
    have limits : IsWithinLimits ⟨bytes, true⟩ ↔
        DecodeLimits.standard.check (Deflate.encode bytes).length bytes.length = .ok () := by
      rw [DecodeLimits.check_standard]
      exact ⟨fun within => within rfl, fun within _ => within⟩
    rw [decodeStream_of_deflated isIn inflates, limits, bind_eq_ok]
    constructor
    · rintro ⟨_, within, made⟩
      exact ⟨within, (Except.ok.inj made).symm⟩
    · rintro ⟨within, rfl⟩
      exact ⟨(), within, rfl⟩

end Written

theorem decodeStreams_eq_ok_iff {contents : List Written} {streams : List Stream}
    (areIn : List.Forall₂ Written.IsIn contents streams)
    (inflate : ∀ content ∈ contents, content.Inflates) (read : List Bytes) :
    (streams.mapM fun stream => decodeStream stream.data stream.filterNames none .standard) =
        .ok read ↔
      (∀ content ∈ contents, content.IsWithinLimits) ∧ read = contents.map (·.bytes) := by
  induction areIn generalizing read with
  | nil => simp [List.mapM_nil, pure, Except.pure, eq_comm]
  | @cons content stream contents streams isIn _ inductionHypothesis =>
    have first := Written.decodeStream_eq_ok_iff isIn (inflate content List.mem_cons_self)
    have others := inductionHypothesis fun content member =>
      inflate content (List.mem_cons_of_mem _ member)
    rw [List.mapM_cons, bind_eq_ok, List.forall_mem_cons]
    constructor
    · rintro ⟨bytes, readFirst, ran⟩
      obtain ⟨rest, readRest, made⟩ := bind_eq_ok.mp ran
      obtain ⟨within, rfl⟩ := (first bytes).mp readFirst
      obtain ⟨allWithin, rfl⟩ := (others rest).mp readRest
      exact ⟨⟨within, allWithin⟩, (Except.ok.inj made).symm⟩
    · rintro ⟨⟨within, allWithin⟩, rfl⟩
      exact ⟨content.bytes, (first _).mpr ⟨within, rfl⟩,
        bind_eq_ok.mpr ⟨_, (others _).mpr ⟨allWithin, rfl⟩, rfl⟩⟩

namespace Page

theorem Assembles.areIn {p next : Page} {options : SessionOptions} {body : Bytes}
    (assembles : p.Assembles options body next) {before : List Written}
    (areIn : List.Forall₂ Written.IsIn before p.streams) :
    List.Forall₂ Written.IsIn (Written.assemble before options body) next.streams := by
  have isEmpty : before = [] ↔ p.streams = [] := by
    rw [← List.length_eq_zero_iff, ← List.length_eq_zero_iff, areIn.length_eq]
  obtain ⟨_, assembles⟩ := assembles
  unfold Written.assemble
  by_cases keeps : options.append = true ∧ p.streams ≠ []
  · rw [if_pos keeps] at assembles
    rw [if_pos ⟨keeps.1, mt isEmpty.mp keeps.2⟩]
    by_cases reset : options.resetContext = true
    · rw [if_pos reset] at assembles ⊢
      obtain ⟨first, last, contents, holdsFirst, holdsLast⟩ := assembles
      rw [streams, contents]
      have front : List.Forall₂ Written.IsIn [⟨utf8 "q\n", options.compress⟩] [first] :=
        .cons holdsFirst .nil
      exact List.rel_append (List.rel_append front areIn) (.cons holdsLast .nil)
    · rw [if_neg reset] at assembles ⊢
      obtain ⟨last, contents, holdsLast⟩ := assembles
      rw [streams, contents]
      exact List.rel_append areIn (.cons holdsLast .nil)
  · rw [if_neg keeps] at assembles
    rw [if_neg fun kept => keeps ⟨kept.1, mt isEmpty.mpr kept.2⟩]
    obtain ⟨only, contents, holdsOnly⟩ := assembles
    rw [streams, contents]
    exact .cons holdsOnly .nil

/-- What is counted as written is what the streams hold. -/
theorem areIn_writtenFrom {p last : Page} {scripts : List Script} {log : DrawingLog}
    (ran : p.drawAll scripts = .ok (log, last)) {before : List Written}
    (areIn : List.Forall₂ Written.IsIn before p.streams) :
    List.Forall₂ Written.IsIn (p.writtenFrom before scripts) last.streams := by
  induction scripts generalizing p before log with
  | nil =>
    obtain ⟨-, rfl⟩ := Prod.mk.inj (Except.ok.inj ran)
    exact areIn
  | cons script rest inductionHypothesis =>
    obtain ⟨next, others, closed, ranRest, -⟩ := drawAll_cons ran
    rw [writtenFrom, closed]
    exact inductionHypothesis ranRest ((assembles_of_close closed).areIn areIn)

/-- However a page that was blank is drawn on, reading it gives what was written into its streams, as long
as they keep within the limits; beyond them it fails. -/
theorem drawn_page_reads_back_within_limits {p last : Page} {scripts : List Script} {log : DrawingLog}
    (blank : p.streams = []) (ran : p.drawAll scripts = .ok (log, last))
    (inflate : ∀ content ∈ p.written scripts, content.Inflates) (read : List Bytes) :
    last.decodedStreams = .ok read ↔
      (∀ content ∈ p.written scripts, content.IsWithinLimits) ∧
        read = (p.written scripts).map (·.bytes) := by
  have areIn : List.Forall₂ Written.IsIn (p.written scripts) last.streams :=
    areIn_writtenFrom ran (blank ▸ .nil)
  exact decodeStreams_eq_ok_iff areIn inflate read

/-- Saves the graphics state, deflated. -/
def saving : Script := ⟨⟨false, true, false⟩, ⟨[]⟩, 6, [.save]⟩

/-- Brackets the content and fills a path behind it. -/
def bracketedFill : Script := ⟨⟨true, false, true⟩, ⟨[]⟩, 6, [.paint .fill]⟩

theorem bracketed_save_reads_back :
    ∃ (log : DrawingLog) (last : Page), blank.drawAll [saving, bracketedFill] = .ok (log, last) ∧
      last.decodedStreams = .ok [utf8 "q\n", utf8 "q\n", utf8 "Q\nf\n"] := by
  obtain ⟨log, last, ran⟩ : ∃ log last, blank.drawAll [saving, bracketedFill] = .ok (log, last) :=
    ⟨_, _, rfl⟩
  have written : blank.written [saving, bracketedFill] =
      [⟨utf8 "q\n", false⟩, ⟨[0x71, 0x0A], true⟩, ⟨utf8 "Q\nf\n", false⟩] := by decide +kernel
  have within : Written.IsWithinLimits ⟨[0x71, 0x0A], true⟩ := by
    intro _
    simp only [Deflate.encode_save]
    decide
  have reads := drawn_page_reads_back_within_limits rfl ran
  rw [written] at reads
  refine ⟨log, last, ran, (reads ?_ _).mpr ⟨?_, rfl⟩⟩
  · simp only [List.forall_mem_cons]
    exact ⟨nofun, fun _ => Deflate.decode_encode_save, nofun, nofun⟩
  · simp only [List.forall_mem_cons]
    exact ⟨nofun, within, nofun, nofun⟩

/-- Fills so many times, deflated. -/
def filling (count : Nat) : Script :=
  ⟨⟨false, true, false⟩, ⟨[]⟩, 6, List.replicate count (.paint .fill)⟩

theorem drawAll_filling (count : Nat) :
    ∃ (log : DrawingLog) (last : Page) (only : Stream),
      blank.drawAll [filling count] = .ok (log, last) ∧ last.contents = some (.single only) ∧
      only.Holds (alternating 0x66 0x0A (2 * count)) true ∧
      blank.written [filling count] = [⟨alternating 0x66 0x0A (2 * count), true⟩] := by
  let content := blank.openContent (filling count)
  have opened : blank.openSession (filling count) = ⟨none, content, true⟩ :=
    openSession_of_overwrite nofun
  have planned : Call.plan content.places content.state (.paint .fill) = .ok _ := rfl
  obtain ⟨logged, state⟩ := ContentStream.repeated_of_plan (c := content) rfl planned rfl count
  have body : ((blank.openSession (filling count)).content.log (filling count).calls).flatMap (·.2) =
      alternating 0x66 0x0A (2 * count) := by
    rw [opened]
    change (content.log (List.replicate count _)).flatMap _ = _
    rw [logged, List.flatMap_replicate]
    exact flatten_replicate_pair 0x66 0x0A count
  have outside : (content.performAll (filling count).calls).state.graphics.inText = false :=
    congrArg (·.graphics.inText) state
  have flushes : (content.performAll (filling count).calls).sink.refusesFlush = false := by
    rw [ContentStream.performAll_of_unlimited rfl]
    rfl
  have ended := ContentStream.close_of_outside outside flushes
  obtain ⟨next, closed⟩ : ∃ next,
      ((blank.openSession (filling count)).performAll (filling count).calls).close =
        (.ok (), next) := by
    rw [opened, Session.performAll_eq, Session.close]
    simp only [ended]
    exact ⟨_, rfl⟩
  obtain ⟨log, ran⟩ : ∃ log, blank.drawAll [filling count] = .ok (log, next) := by
    rw [drawAll, closed]
    exact ⟨_, rfl⟩
  have assembled := assembles_of_close closed
  rw [body] at assembled
  obtain ⟨only, contents, holds⟩ := assembled.2
  refine ⟨log, next, only, ran, contents, holds, ?_⟩
  rw [written, writtenFrom, writtenFrom, body]
  rfl

/-- So many fills are deflated so well that the reader takes them for a bomb, though inflating would give
them back. -/
theorem many_fills_do_not_read_back :
    ∃ (log : DrawingLog) (last : Page), blank.drawAll [filling 1421] = .ok (log, last) ∧
      blank.written [filling 1421] = [⟨Deflate.manyFills, true⟩] ∧
      Written.Inflates ⟨Deflate.manyFills, true⟩ ∧
      last.decodedStreams = .error (.decode (.ratioLimit 105 100 27 2842)) := by
  obtain ⟨log, last, only, ran, contents, holds, written⟩ := drawAll_filling 1421
  have isIn : Written.IsIn ⟨Deflate.manyFills, true⟩ only := holds
  have inflates : Written.Inflates ⟨Deflate.manyFills, true⟩ :=
    fun _ => Deflate.decode_encode_manyFills
  refine ⟨log, last, ran, written, inflates, ?_⟩
  have refused : decodeStream only.data only.filterNames none .standard =
      .error (.decode (.ratioLimit 105 100 27 2842)) := by
    have length : Deflate.manyFills.length = 2842 := length_alternating ..
    rw [Written.decodeStream_of_deflated isIn inflates, length, Deflate.encode_manyFills]
    rfl
  rw [decodedStreams, streams, contents]
  change [only].mapM _ = _
  rw [List.mapM_cons, refused]
  rfl

end Page

end PdfCanvas
