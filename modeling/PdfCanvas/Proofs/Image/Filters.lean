import PdfCanvas.Proofs.Filter.Limits
import PdfCanvas.Proofs.Image.Pixels

/-!
# The filters of an image

An image may list parameters for each of its filters, but one set of parameters serves all of them. Whether
each filter is run with its own depends only on those that a predictor may follow.
-/

namespace PdfCanvas

/-- Whether parameters matter to the filter with a name. -/
def takesParams (name : String) : Bool := (Filter.ofName? name).any Filter.usesPredictor

/-- Passes data through filters with parameters of their own. -/
def runEach : List (String × DecodeParams) → Bytes → Except Error Bytes
  | [], data => .ok data
  | (name, params) :: rest, data => do
    let decoded ← decodeFilter name (some params) data
    runEach rest decoded

theorem decodeFilter_standard (name : String) (params : Option DecodeParams) (data : Bytes) :
    decodeFilter name params data = decodeFilter name (some (params.getD .standard)) data := by
  cases params with
  | some params => rfl
  | none =>
    simp only [decodeFilter]
    cases Filter.ofName? name with
    | none => rfl
    | some filter => simp [Filter.undoPredictor, DecodeParams.standard]

theorem decodeFilter_of_ignored {name : String} (ignored : takesParams name = false)
    (params others : DecodeParams) (data : Bytes) :
    decodeFilter name (some params) data = decodeFilter name (some others) data := by
  simp only [decodeFilter]
  cases known : Filter.ofName? name with
  | none => rfl
  | some filter =>
    have unpredicted : filter.usesPredictor = false := by simpa [takesParams, known] using ignored
    have same : filter.decode params.earlyChange data = filter.decode others.earlyChange data := by
      cases filter <;> first | rfl | cases unpredicted
    simp [Filter.undoPredictor, unpredicted, same]

theorem runEach_of_decodeFilters {params : Option DecodeParams} {limits : DecodeLimits} {encoded : Nat}
    {names : List String} {data out : Bytes}
    (decoded : decodeFilters params limits encoded names data = .ok out) :
    runEach (names.map (·, params.getD .standard)) data = .ok out := by
  induction names generalizing data with
  | nil => exact decoded
  | cons name names inductionHypothesis =>
    obtain ⟨passed, filtered, rest⟩ := bind_eq_ok.mp decoded
    obtain ⟨_, -, rest⟩ := bind_eq_ok.mp rest
    rw [decodeFilter_standard] at filtered
    rw [List.map_cons, runEach, bind_eq_ok]
    exact ⟨passed, filtered, inductionHypothesis rest⟩

/-- Filters that agree on the parameters that matter to them are run as if all had the same. -/
theorem runEach_shared {params : DecodeParams} {names : List String} {own : List DecodeParams}
    (many : own.length = names.length)
    (agree : ∀ pair ∈ names.zip own, takesParams pair.1 = true → pair.2 = params) (data : Bytes) :
    runEach (names.zip own) data = runEach (names.map (·, params)) data := by
  induction names generalizing own data with
  | nil => rfl
  | cons name names inductionHypothesis =>
    cases own with
    | nil => cases many
    | cons first own =>
      rw [List.zip_cons_cons] at agree
      have rest := inductionHypothesis (Nat.succ.inj many)
        fun pair member => agree pair (List.mem_cons_of_mem _ member)
      have same : decodeFilter name (some first) data = decodeFilter name (some params) data := by
        cases matters : takesParams name with
        | false => exact decodeFilter_of_ignored matters first params data
        | true =>
          have equal : first = params := agree (name, first) List.mem_cons_self matters
          rw [equal]
      rw [List.zip_cons_cons, List.map_cons, runEach, runEach, same]
      simp only [rest]

namespace Image

variable {image : Image}

/-- The parameters in the first dictionary of an array, or those without a predictor. -/
def sharedParams (entries : List Object) : DecodeParams :=
  ((entries.find? (·.dictionary?.isSome)).map DecodeParams.ofObject).getD .standard

theorem filterNames_of_names {names : List String}
    (filters : image.stream.getAny? ["Filter", "F"] = some (.array (names.map .name))) :
    image.filterNames = names := by
  have all : (names.map Object.name).filterMap Object.name? = names := by
    rw [List.filterMap_map]
    exact List.filterMap_some
  rw [filterNames, Stream.filterNames, filters]
  exact all

theorem isJpeg_of_known {kinds : List Filter} (other : .dct ∉ kinds)
    (known : ∀ name ∈ image.filterNames, ∃ filter ∈ kinds, Filter.ofName? name = some filter) :
    image.isJpeg = false := by
  rw [isJpeg]
  cases last : image.filterNames.getLast? with
  | none => rfl
  | some name =>
    obtain ⟨filter, member, is⟩ := known name (List.mem_of_getLast? last)
    have different : filter ≠ .dct := fun same => other (same ▸ member)
    simp [is, different]

/-- The samples of an image are unpacked from the data that all filters left, run with one set of
parameters. If parameters are only given for filters to which they matter, these are the first ones; and if
they are also the parameters of every other filter to which any matter, each was run with its own. -/
theorem one_parameter_set_serves_all_filters {names : List String} {entries : List Object}
    {colors : Raster Rgb}
    (filters : image.stream.getAny? ["Filter", "F"] = some (.array (names.map .name)))
    (known : ∀ name ∈ names, ∃ filter ∈ [Filter.flate, .lzw, .runLength, .asciiHex],
      Filter.ofName? name = some filter)
    (given : image.stream.getAny? ["DecodeParms", "DP"] = some (.array entries))
    (many : entries.length = names.length) (made : image.pixels = .ok colors) :
    ∃ params samples layout data,
      image.samplePixels = .ok (samples, layout, colors) ∧
      Samples.unpack data layout image.limits = .ok samples ∧
      runEach (names.map (·, params)) image.stream.data = .ok data ∧
      ((∀ pair ∈ names.zip entries, pair.2.dictionary?.isSome = true → takesParams pair.1 = true) →
        params = sharedParams entries ∧
          ((∀ pair ∈ names.zip (entries.map DecodeParams.ofObject),
              takesParams pair.1 = true → pair.2 = params) →
            runEach (names.zip (entries.map DecodeParams.ofObject)) image.stream.data = .ok data)) := by
  have named := filterNames_of_names filters
  have sampled : image.isJpeg = false := by
    rw [← named] at known
    exact isJpeg_of_known (by decide) known
  obtain ⟨samples, layout, ran⟩ := (pixels_of_sampled sampled).mp made
  obtain ⟨_, data, _, _, filtered, unpacked, _⟩ := of_samplePixels ran
  rw [filteredData, named, decodeStream] at filtered
  have shared := runEach_of_decodeFilters filtered
  have first : image.decodeParams?.getD .standard = sharedParams entries := by
    rw [decodeParams?, given]
    rfl
  rw [first] at shared
  refine ⟨_, samples, layout, data, ran, unpacked, shared, fun _ => ⟨rfl, fun agree => ?_⟩⟩
  have counted : (entries.map DecodeParams.ofObject).length = names.length := by
    rw [List.length_map, many]
  rw [runEach_shared counted agree, shared]

/-! ## Two gray samples -/

/-- A row of two gray samples behind filters. -/
def grayPair (names : List String) (params : List Object) (data : Bytes) : Stream where
  entries := [("Width", .integer 2), ("Height", .integer 1), ("ColorSpace", .name "DeviceGray"),
    ("Filter", .array (names.map .name)), ("DecodeParms", .array params)]
  data := data

/-- The parameters for rows of differences. -/
def differences (columns : Int) : Object :=
  .dictionary [("Predictor", .integer 2), ("Columns", .integer columns)]

theorem differences_belong_to_their_filter :
    ∃ image samples layout data,
      ofStream (grayPair ["ASCIIHexDecode", "LZWDecode"] [.null, differences 2] (utf8 "8000403010>")) =
        .ok image ∧
      image.samplePixels = .ok (samples, layout, ⟨2, 1, [Rgb.ofGray 1, Rgb.ofGray 2]⟩) ∧
      Samples.unpack data layout image.limits = .ok samples ∧
      runEach [("ASCIIHexDecode", .standard), ("LZWDecode", ⟨2, 2, 1, 8, true⟩)] image.stream.data =
        .ok data := by
  obtain ⟨image, read⟩ : ∃ image, ofStream
      (grayPair ["ASCIIHexDecode", "LZWDecode"] [.null, differences 2] (utf8 "8000403010>")) =
        .ok image := ⟨_, rfl⟩
  have filters : image.stream.getAny? ["Filter", "F"] =
      some (.array (["ASCIIHexDecode", "LZWDecode"].map .name)) := by
    cases read
    rfl
  have given : image.stream.getAny? ["DecodeParms", "DP"] = some (.array [.null, differences 2]) := by
    cases read
    rfl
  have made : image.pixels.toOption = some ⟨2, 1, [Rgb.ofGray 1, Rgb.ofGray 2]⟩ := by
    cases read
    decide +kernel
  obtain ⟨params, samples, layout, data, ran, unpacked, -, own⟩ :=
    one_parameter_set_serves_all_filters filters (by decide) given rfl (eq_ok_of_toOption made)
  obtain ⟨rfl, run⟩ := own (by decide)
  exact ⟨image, samples, layout, data, read, ran, unpacked, run (by decide)⟩

/-- The differences are in what the first filter leaves, and they are undone there; but they are undone
behind the second filter again, so that the samples are not equal any more. -/
theorem differences_are_undone_behind_both_filters :
    ∃ image,
      ofStream (grayPair ["LZWDecode", "LZWDecode"] [differences 5, .null]
        [0x80, 0x20, 0x10, 0x04, 0x07, 0x83, 0x82, 0x02]) = .ok image ∧
      image.pixels = .ok ⟨2, 1, [Rgb.ofGray 1, Rgb.ofGray 2]⟩ ∧
      image.rawSamples = .ok ([1, 2], ⟨2, 1, 1, 8⟩) ∧
      runEach (["LZWDecode", "LZWDecode"].zip ([differences 5, .null].map DecodeParams.ofObject))
        image.stream.data = .ok [1, 1] ∧
      Samples.unpack [1, 1] ⟨2, 1, 1, 8⟩ image.limits = .ok [1, 1] := by
  obtain ⟨image, read⟩ : ∃ image, ofStream (grayPair ["LZWDecode", "LZWDecode"]
      [differences 5, .null] [0x80, 0x20, 0x10, 0x04, 0x07, 0x83, 0x82, 0x02]) = .ok image := ⟨_, rfl⟩
  refine ⟨image, read, ?_⟩
  cases read
  refine ⟨eq_ok_of_toOption ?_, eq_ok_of_toOption ?_, eq_ok_of_toOption ?_, eq_ok_of_toOption ?_⟩
  all_goals decide +kernel

end Image

end PdfCanvas
