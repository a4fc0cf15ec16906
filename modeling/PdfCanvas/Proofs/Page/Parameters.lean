import PdfCanvas.Page
import PdfCanvas.Proofs.Image.Filters
import PdfCanvas.Proofs.Image.Masks

/-!
# Streams that are read twice

An image reads its stream with the decode parameters that the dictionary gives, a page reads its streams
without any. Where a filter would do the same without parameters there is no difference; from the first filter
on for which they matter, what the page passes on is still predicted, or is not what was encoded at all.
-/

namespace PdfCanvas

/-! ## Filters for which parameters do not matter -/

namespace DecodeParams

/-- Nothing was predicted before the filter was applied, and its codes change their width as they do without
parameters. -/
def isIdleFor (params : DecodeParams) : Filter → Bool
  | .flate => params.predictor == 1
  | .lzw => params.predictor == 1 && params.earlyChange
  | _ => true

/-- The filter with a name does the same without the parameters, if there are any. -/
def AreIdle (params : Option DecodeParams) (name : String) : Prop :=
  ∀ given ∈ params, ∀ filter ∈ Filter.ofName? name, given.isIdleFor filter = true

instance (params : Option DecodeParams) (name : String) : Decidable (AreIdle params name) :=
  inferInstanceAs
    (Decidable (∀ given ∈ params, ∀ filter ∈ Filter.ofName? name, given.isIdleFor filter = true))

end DecodeParams

section

variable {params : Option DecodeParams} {limits : DecodeLimits} {name : String}

theorem decodeFilter_of_idle (idle : DecodeParams.AreIdle params name) (data : Bytes) :
    decodeFilter name params data = decodeFilter name none data := by
  cases params with
  | none => rfl
  | some given =>
    simp only [decodeFilter]
    cases known : Filter.ofName? name with
    | none => rfl
    | some filter =>
      have none := idle given rfl filter known
      have same : filter.decode given.earlyChange data = filter.decode true data := by
        cases filter with
        | lzw => rw [(Bool.and_eq_true_iff.mp none).2]
        | _ => rfl
      have kept (made : Bytes) : filter.undoPredictor (some given) made = .ok made := by
        cases filter with
        | flate => simp [Filter.undoPredictor, beq_iff_eq.mp none]
        | lzw => simp [Filter.undoPredictor, beq_iff_eq.mp (Bool.and_eq_true_iff.mp none).1]
        | _ => rfl
      simp only [Option.map_some, Option.getD_some, same, kept]
      rfl

theorem decodeFilters_of_idle {names : List String}
    (idle : ∀ name ∈ names, DecodeParams.AreIdle params name) (encoded : Nat) (data : Bytes) :
    decodeFilters params limits encoded names data = decodeFilters none limits encoded names data := by
  induction names generalizing data with
  | nil => rfl
  | cons name names inductionHypothesis =>
    rw [List.forall_mem_cons] at idle
    simp only [decodeFilters, decodeFilter_of_idle idle.1, inductionHypothesis idle.2]

/-- A decoder that is not told when its codes change their width makes what it makes without parameters, and
the predictor is all that is left to undo. -/
theorem decodeFilter_of_predicted {filter : Filter} {given : DecodeParams}
    (known : Filter.ofName? name = some filter) (predicted : filter.usesPredictor = true)
    (usual : filter = .lzw → given.earlyChange = true) (data : Bytes) :
    decodeFilter name (some given) data = decodeFilter name none data >>= Predictor.undo given := by
  have same : filter.decode given.earlyChange data = filter.decode true data := by
    cases filter with
    | lzw => rw [usual rfl]
    | flate => rfl
    | _ => cases predicted
  have undone (made : Bytes) :
      filter.undoPredictor (some given) made = Predictor.undo given made := by
    by_cases none : given.predictor = 1 <;>
      simp [Filter.undoPredictor, predicted, none, Predictor.undo]
  have kept (made : Bytes) : filter.undoPredictor none made = .ok made := rfl
  simp only [decodeFilter, known, Option.map_some, Option.getD_some, same, undone, Option.map_none,
    Option.getD_none, kept, bind_assoc]
  rfl

end

/-! ## The stream without parameters -/

namespace Dictionary

theorem erase_cons (entry : String × Object) (rest : Dictionary) (key : String) :
    erase (entry :: rest) key = if entry.1 = key then rest.erase key else entry :: rest.erase key := by
  by_cases gone : entry.1 = key <;> simp [erase, gone]

theorem get?_erase_of_ne (d : Dictionary) {key erased : String} (other : key ≠ erased) :
    (d.erase erased).get? key = d.get? key := by
  induction d with
  | nil => rfl
  | cons entry rest inductionHypothesis =>
    rw [erase_cons]
    split
    next gone =>
      have differs : (key == entry.1) = false := by simp [gone, other]
      rw [inductionHypothesis, get?, get?, List.lookup_cons, differs]
    next => rw [get?, get?, List.lookup_cons, List.lookup_cons, ← get?, ← get?, inductionHypothesis]

theorem get?_erase_self (d : Dictionary) (key : String) : (d.erase key).get? key = none := by
  induction d with
  | nil => rfl
  | cons entry rest inductionHypothesis =>
    rw [erase_cons]
    split
    next => exact inductionHypothesis
    next kept =>
      have differs : (key == entry.1) = false := by simp [Ne.symm kept]
      rw [get?, List.lookup_cons, differs]
      exact inductionHypothesis

end Dictionary

namespace Stream

/-- The stream without an entry for decode parameters. -/
def withoutParams (s : Stream) : Stream :=
  { s with entries := (s.entries.erase "DecodeParms").erase "DP" }

theorem getAny?_withoutParams (s : Stream) {keys : List String} (full : "DecodeParms" ∉ keys)
    (short : "DP" ∉ keys) : s.withoutParams.getAny? keys = s.getAny? keys := by
  induction keys with
  | nil => rfl
  | cons key keys inductionHypothesis =>
    rw [List.mem_cons, not_or] at full short
    have same : s.withoutParams.entries.get? key = s.entries.get? key := by
      rw [withoutParams, Dictionary.get?_erase_of_ne _ (Ne.symm short.1),
        Dictionary.get?_erase_of_ne _ (Ne.symm full.1)]
    have others := inductionHypothesis full.2 short.2
    simp only [getAny?, Dictionary.getAny?, List.findSome?_cons, same] at others ⊢
    rw [others]

theorem getAny?_params_withoutParams (s : Stream) :
    s.withoutParams.getAny? ["DecodeParms", "DP"] = none := by
  have full : s.withoutParams.entries.get? "DecodeParms" = none := by
    rw [withoutParams, Dictionary.get?_erase_of_ne _ (by decide), Dictionary.get?_erase_self]
  have short : s.withoutParams.entries.get? "DP" = none := Dictionary.get?_erase_self ..
  rw [getAny?, Dictionary.getAny?, List.findSome?_cons, full, List.findSome?_cons, short,
    List.findSome?_nil]

end Stream

namespace Image

theorem maskOfEntries_erase (entries : Dictionary) {key erased : String} (other : key ≠ erased)
    (allows : Bool) :
    maskOfEntries key allows (entries.erase erased) = maskOfEntries key allows entries := by
  induction entries with
  | nil => rfl
  | cons entry rest inductionHypothesis =>
    rw [Dictionary.erase_cons]
    split
    next gone =>
      have differs : ¬ entry.1 = key := fun same => other (same.symm.trans gone)
      rw [inductionHypothesis, maskOfEntries, if_neg differs]
    next => rw [maskOfEntries, maskOfEntries, inductionHypothesis]

theorem ofHeader_withoutParams (s : Stream) :
    ofHeader s.withoutParams =
      (fun image => { image with stream := s.withoutParams }) <$> ofHeader s := by
  have read (key abbreviation : String) (full : "DecodeParms" ∉ [key, abbreviation])
      (short : "DP" ∉ [key, abbreviation]) :
      s.withoutParams.getAny? [key, abbreviation] = s.getAny? [key, abbreviation] :=
    s.getAny?_withoutParams full short
  simp only [ofHeader, dimension, flag, read "Width" "W" (by decide) (by decide),
    read "Height" "H" (by decide) (by decide), read "ImageMask" "IM" (by decide) (by decide),
    read "BitsPerComponent" "BPC" (by decide) (by decide),
    read "Interpolate" "I" (by decide) (by decide), read "Decode" "D" (by decide) (by decide)]
  rw [map_bind]
  congr
  funext width
  rw [map_bind]
  rfl

theorem ofStream_withoutParams (s : Stream) :
    ofStream s.withoutParams =
      (fun image => { image with stream := s.withoutParams }) <$> ofStream s := by
  have masks (key : String) (full : key ≠ "DecodeParms") (short : key ≠ "DP") (allows : Bool) :
      maskOfEntries key allows s.withoutParams.entries = maskOfEntries key allows s.entries := by
    rw [Stream.withoutParams, maskOfEntries_erase _ short, maskOfEntries_erase _ full]
  rw [ofStream, ofStream, masks "SMask" (by decide) (by decide), masks "Mask" (by decide) (by decide),
    ofParts, ofParts, ofHeader_withoutParams]
  cases ofHeader s with
  | error fault => rfl
  | ok header =>
    cases maskOfEntries "SMask" false s.entries with
    | error fault => rfl
    | ok softMask =>
      cases maskOfEntries "Mask" true s.entries with
      | error fault => rfl
      | ok mask => cases softMask <;> cases mask <;> rfl

theorem stream_of_ofStream {s : Stream} {image : Image} (read : ofStream s = .ok image) :
    image.stream = s := by
  obtain ⟨header, readHeader, kept⟩ := exists_header_of_ofParts read
  rw [kept]
  exact (header_of_ofHeader readHeader).1

theorem limits_of_ofStream {s : Stream} {image : Image} (read : ofStream s = .ok image) :
    image.limits = .standard := by
  obtain ⟨header, readHeader, kept⟩ := exists_header_of_ofParts read
  rw [kept]
  exact (header_of_ofHeader readHeader).2.1

theorem filteredData_of_ofStream {s : Stream} {image : Image} (read : ofStream s = .ok image) :
    image.filteredData image.filterNames =
      decodeStream s.data s.filterNames image.decodeParams? .standard := by
  rw [filteredData, filterNames, stream_of_ofStream read, limits_of_ofStream read]

theorem filteredData_of_withoutParams {s : Stream} {bare : Image}
    (read : ofStream s.withoutParams = .ok bare) :
    bare.filteredData bare.filterNames = decodeStream s.data s.filterNames none .standard := by
  have none : bare.decodeParams? = none := by
    rw [decodeParams?, stream_of_ofStream read, s.getAny?_params_withoutParams]
  have names : s.withoutParams.filterNames = s.filterNames := by
    rw [Stream.filterNames, s.getAny?_withoutParams (by decide) (by decide), Stream.filterNames]
  rw [filteredData_of_ofStream read, none, names]
  rfl

end Image

/-! ## Pages and images -/

/-- With no parameters before the last filter, its predictor is undone in what is decoded without any. -/
theorem decodeStream_of_predicted {limits : DecodeLimits} {data bytes : Bytes} {before : List String}
    {name : String} {filter : Filter} {given : DecodeParams}
    (idle : ∀ other ∈ before, DecodeParams.AreIdle (some given) other)
    (known : Filter.ofName? name = some filter) (predicted : filter.usesPredictor = true)
    (usual : filter = .lzw → given.earlyChange = true)
    (plain : decodeStream data (before ++ [name]) none limits = .ok bytes) :
    decodeStream data (before ++ [name]) (some given) limits = Predictor.undo given bytes := by
  obtain ⟨passed, same, plain⟩ := decodeFilters_append.mp plain
  obtain ⟨decoded, made, plain⟩ := bind_eq_ok.mp plain
  obtain ⟨_, within, plain⟩ := bind_eq_ok.mp plain
  obtain rfl := Except.ok.inj plain
  rw [decodeStream, decodeFilters_append_eq_bind, decodeFilters_of_idle idle, same]
  show decodeFilters (some given) limits data.length [name] passed = _
  rw [decodeFilters, decodeFilter_of_predicted known predicted usual, made]
  show (Predictor.undo given decoded >>= _) = _
  cases undone : Predictor.undo given decoded with
  | error fault => rfl
  | ok out =>
    show (limits.check data.length out.length >>= _) = _
    -- undoing a predictor makes nothing longer, so what the limits admitted before they admit after it
    rw [DecodeLimits.check_of_le within (Predictor.length_undo undone)]
    rfl

namespace Page

variable {page : Page} {s : Stream} {image : Image}

theorem decodedStreams_of_single (content : page.streams = [s]) :
    page.decodedStreams = (fun data => [data]) <$> decodeStream s.data s.filterNames none .standard := by
  rw [decodedStreams, content, List.mapM_cons, List.mapM_nil]
  cases decodeStream s.data s.filterNames none .standard <;> rfl

/-- A page passes on what an image would without its parameters. With them, both go on from the same bytes at
the first filter to which they matter; if it is the last one and its codes are read alike, the page leaves
just the predictor to undo. -/
theorem page_reads_streams_without_parameters (content : page.streams = [s])
    (read : Image.ofStream s = .ok image) :
    (∃ bare, Image.ofStream s.withoutParams = .ok bare ∧
      page.decodedStreams = (fun data => [data]) <$> bare.filteredData bare.filterNames) ∧
    ((∀ name ∈ s.filterNames, DecodeParams.AreIdle image.decodeParams? name) →
      page.decodedStreams = (fun data => [data]) <$> image.filteredData image.filterNames) ∧
    (∀ before after, s.filterNames = before ++ after →
      (∀ name ∈ before, DecodeParams.AreIdle image.decodeParams? name) →
        page.decodedStreams = (do
          let given ← decodeStream s.data before none .standard
          (fun data => [data]) <$> decodeFilters none .standard s.data.length after given) ∧
        image.filteredData image.filterNames = (do
          let given ← decodeStream s.data before none .standard
          decodeFilters image.decodeParams? .standard s.data.length after given)) ∧
    (∀ before name filter params bytes, s.filterNames = before ++ [name] →
      (∀ other ∈ before, DecodeParams.AreIdle image.decodeParams? other) →
      Filter.ofName? name = some filter → filter.usesPredictor = true →
      image.decodeParams? = some params → (filter = .lzw → params.earlyChange = true) →
      page.decodedStreams = .ok [bytes] →
        image.filteredData image.filterNames = Predictor.undo params bytes) := by
  rw [decodedStreams_of_single content, Image.filteredData_of_ofStream read]
  refine ⟨?_, ?_, ?_, ?_⟩
  · obtain ⟨bare, readBare⟩ : ∃ bare, Image.ofStream s.withoutParams = .ok bare := by
      rw [Image.ofStream_withoutParams, read]
      exact ⟨_, rfl⟩
    exact ⟨bare, readBare, by rw [Image.filteredData_of_withoutParams readBare]⟩
  · intro idle
    rw [decodeStream, decodeStream, decodeFilters_of_idle idle]
  · intro before after names idle
    rw [names, decodeStream, decodeStream, decodeStream, decodeFilters_append_eq_bind,
      decodeFilters_append_eq_bind, decodeFilters_of_idle idle, map_bind]
    exact ⟨rfl, rfl⟩
  · intro before name filter params bytes names idle known predicted given usual plain
    obtain ⟨decoded, withoutParams, single⟩ := map_eq_ok.mp plain
    obtain ⟨rfl, -⟩ := List.cons.inj single
    rw [given] at idle ⊢
    rw [names] at withoutParams ⊢
    exact decodeStream_of_predicted idle known predicted usual withoutParams

/-- A row of two gray samples, the second one as the difference to the first. -/
def differingPair : Stream where
  entries := [("Width", .integer 2), ("Height", .integer 1), ("ColorSpace", .name "DeviceGray"),
    ("Filter", .array [.name "ASCIIHexDecode", .name "LZWDecode"]),
    ("DecodeParms", Image.differences 2)]
  data := utf8 "8000403010>"

theorem difference_is_left_to_undo :
    ∃ (page : Page) (image : Image), page.streams = [differingPair] ∧
      Image.ofStream differingPair = .ok image ∧ page.decodedStreams = .ok [[1, 1]] ∧
      image.filteredData image.filterNames = Predictor.undo ⟨2, 2, 1, 8, true⟩ [1, 1] := by
  obtain ⟨image, read⟩ : ∃ image, Image.ofStream differingPair = .ok image := ⟨_, rfl⟩
  have content : (Page.mk (some (.single differingPair)) none).streams = [differingPair] := rfl
  have given : image.decodeParams? = some ⟨2, 2, 1, 8, true⟩ := by
    cases read
    rfl
  have idle : ∀ other ∈ ["ASCIIHexDecode"],
      DecodeParams.AreIdle (some ⟨2, 2, 1, 8, true⟩) other := by
    decide
  have left : (Page.mk (some (.single differingPair)) none).decodedStreams = .ok [[1, 1]] :=
    eq_ok_of_toOption (by decide +kernel)
  obtain ⟨-, -, -, undone⟩ := page_reads_streams_without_parameters content read
  rw [given] at undone
  exact ⟨_, image, content, read, left,
    undone ["ASCIIHexDecode"] "LZWDecode" .lzw _ _ rfl idle rfl rfl rfl (fun _ => rfl) left⟩

/-- The same stream gives two bytes on a page and two others in an image. -/
theorem page_and_image_read_different_bytes :
    ∃ (page : Page) (image : Image), page.streams = [differingPair] ∧
      Image.ofStream differingPair = .ok image ∧ page.decodedStreams = .ok [[1, 1]] ∧
      image.filteredData image.filterNames = .ok [1, 2] := by
  obtain ⟨image, read⟩ : ∃ image, Image.ofStream differingPair = .ok image := ⟨_, rfl⟩
  refine ⟨⟨some (.single differingPair), none⟩, image, rfl, read, eq_ok_of_toOption ?_,
    eq_ok_of_toOption ?_⟩
  · decide +kernel
  · cases read
    decide +kernel

end Page

end PdfCanvas
