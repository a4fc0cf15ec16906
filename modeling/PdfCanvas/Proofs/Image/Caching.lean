import PdfCanvas.Image.Decode
import PdfCanvas.Proofs.Outcomes

/-!
# What an image in use keeps

An image in use answers from what it has kept where it can. The colour space that it keeps, for itself and
for its masks, is the one that the dictionary gives. The picture that it keeps is the one that a new image
with the same masks gives, but in the limits that held when it was decoded: other limits do not drop it, as
other masks do.
-/

namespace PdfCanvas

/-- What an image is given beside its stream. -/
structure ImageSettings where
  target : Option Ref
  limits : Option DecodeLimits
  softMask : Option Image
  mask : Option Image

/-- An image with what it is given. -/
def Image.withSettings (image : Image) (settings : ImageSettings) : Image :=
  let image := settings.target.elim image image.withTarget
  let image := settings.mask.elim image image.withMask
  let image := settings.softMask.elim image image.withSoftMask
  settings.limits.elim image image.withLimits

namespace Image

variable (image : Image) (settings : ImageSettings)

theorem withSettings_target (target : Ref) :
    image.withSettings { settings with target := some target } =
      (image.withSettings settings).withTarget target := by
  obtain ⟨_ | _, _ | _, _ | _, _ | _⟩ := settings <;> rfl

theorem withSettings_limits (limits : DecodeLimits) :
    image.withSettings { settings with limits := some limits } =
      (image.withSettings settings).withLimits limits := by
  obtain ⟨_, _ | _, _, _⟩ := settings <;> rfl

theorem withSettings_softMask (softMask : Image) :
    image.withSettings { settings with softMask := some softMask } =
      (image.withSettings settings).withSoftMask softMask := by
  obtain ⟨_, _ | _, _ | _, _⟩ := settings <;> rfl

theorem withSettings_mask (mask : Image) :
    image.withSettings { settings with mask := some mask } =
      (image.withSettings settings).withMask mask := by
  obtain ⟨_, _ | _, _ | _, _ | _⟩ := settings <;> rfl

end Image

/-- How an image in use came about: from an image that was read, by calls of which two ask for something. The
masks that it is given may have been in use as well. -/
inductive ImageHistory where
  | read (image : Image)
  | askedSpace (history : ImageHistory)
  | decoded (history : ImageHistory)
  | targeted (history : ImageHistory) (target : Ref)
  | limited (history : ImageHistory) (limits : DecodeLimits)
  | softMasked (history softMask : ImageHistory)
  | masked (history mask : ImageHistory)

namespace ImageHistory

/-- The image in use. -/
def loaded : ImageHistory → LoadedImage
  | read image => .ofImage image
  | askedSpace history => history.loaded.colorSpace.2
  | decoded history => history.loaded.decode.2
  | targeted history target => history.loaded.withTarget target
  | limited history limits => history.loaded.withLimits limits
  | softMasked history softMask => history.loaded.attachSoftMask softMask.loaded
  | masked history mask => history.loaded.attachMask mask.loaded

/-- The image that was read. -/
def source : ImageHistory → Image
  | read image => image
  | askedSpace history | decoded history | targeted history _ | limited history _
  | softMasked history _ | masked history _ => history.source

/-- What the image was given, each as it was given last. -/
def settings : ImageHistory → ImageSettings
  | read _ => ⟨none, none, none, none⟩
  | askedSpace history | decoded history => history.settings
  | targeted history target => { history.settings with target := some target }
  | limited history limits => { history.settings with limits := some limits }
  | softMasked history softMask =>
    { history.settings with softMask := some (softMask.source.withSettings softMask.settings) }
  | masked history mask =>
    { history.settings with mask := some (mask.source.withSettings mask.settings) }

/-- A new image with what was given last. -/
def fresh (history : ImageHistory) : Image := history.source.withSettings history.settings

/-- The limits that held when the picture was decoded that is kept, if there is one. -/
def keptLimits : ImageHistory → Option DecodeLimits
  | read _ => none
  | askedSpace history | targeted history _ | limited history _ => history.keptLimits
  | decoded history =>
    history.keptLimits.or (history.fresh.decode.toOption.map fun _ => history.fresh.limits)
  | softMasked _ _ | masked _ _ => none

end ImageHistory

/-! ## Colour spaces -/

namespace Image

variable {image : Image} {kept : Option ColorSpace}

/-- What is kept, if anything, is the colour space of the image. -/
def Keeps (image : Image) (kept : Option ColorSpace) : Prop :=
  ∀ space, kept = some space → image.colorSpace = .ok space

theorem keeps_none : image.Keeps none := nofun

theorem Keeps.colorSpaceFrom_eq (keeps : image.Keeps kept) :
    image.colorSpaceFrom kept = image.colorSpace := by
  cases kept with
  | none => rfl
  | some space => exact (keeps space rfl).symm

theorem Keeps.ask (keeps : image.Keeps kept) : image.Keeps (image.colorSpaceFrom kept).toOption := by
  rw [keeps.colorSpaceFrom_eq]
  intro space given
  cases asked : image.colorSpace with
  | error => simp [asked, Except.toOption] at given
  | ok found =>
    rw [asked] at given
    exact congrArg Except.ok (Option.some.inj given)

theorem Keeps.draw (keeps : image.Keeps kept) : image.Keeps (image.spaceKept kept) := by
  rw [spaceKept]
  split
  · exact keeps
  · exact keeps.ask

end Image

namespace LoadedImage

/-- The colour spaces that are kept are those of the image and of its masks. -/
structure KeepsSpaces (l : LoadedImage) : Prop where
  own : l.image.Keeps l.space
  ofSoftMask (softMask : Image) (given : l.image.softMask = some softMask) :
    softMask.Keeps l.softMaskSpace
  ofMask (mask : Image) (given : l.image.mask = some mask) : mask.Keeps l.maskSpace

variable {l : LoadedImage}

theorem keepsSpaces_ofImage (image : Image) : (ofImage image).KeepsSpaces :=
  ⟨Image.keeps_none, fun _ _ => Image.keeps_none, fun _ _ => Image.keeps_none⟩

theorem KeepsSpaces.attachSoftMask {softMask : LoadedImage} (keeps : l.KeepsSpaces)
    (keepsMask : softMask.KeepsSpaces) : (l.attachSoftMask softMask).KeepsSpaces where
  own := keeps.own
  ofSoftMask _ given := Option.some.inj given ▸ keepsMask.own
  ofMask := keeps.ofMask

theorem KeepsSpaces.attachMask {mask : LoadedImage} (keeps : l.KeepsSpaces)
    (keepsMask : mask.KeepsSpaces) : (l.attachMask mask).KeepsSpaces where
  own := keeps.own
  ofSoftMask := keeps.ofSoftMask
  ofMask _ given := Option.some.inj given ▸ keepsMask.own

theorem image_keepSpaces (l : LoadedImage) : l.keepSpaces.image = l.image := by
  unfold keepSpaces
  dsimp only
  split <;> rfl

theorem KeepsSpaces.keepSpaces (keeps : l.KeepsSpaces) : l.keepSpaces.KeepsSpaces := by
  unfold LoadedImage.keepSpaces
  dsimp only
  -- what is asked of a mask is only asked of the one that counts, after the image itself
  split
  · exact ⟨keeps.own.draw, keeps.ofSoftMask, keeps.ofMask⟩
  · rename_i softMask _ given
    refine ⟨keeps.own.draw, fun other same => ?_, keeps.ofMask⟩
    obtain rfl : softMask = other := Option.some.inj (given.symm.trans same)
    exact (keeps.ofSoftMask softMask given).draw
  · rename_i mask _ _ given
    refine ⟨keeps.own.draw, keeps.ofSoftMask, fun other same => ?_⟩
    obtain rfl : mask = other := Option.some.inj (given.symm.trans same)
    exact (keeps.ofMask mask given).draw
  · exact ⟨keeps.own.draw, keeps.ofSoftMask, keeps.ofMask⟩

theorem KeepsSpaces.decode (keeps : l.KeepsSpaces) : l.decode.2.KeepsSpaces := by
  unfold LoadedImage.decode
  split
  · exact keeps
  · exact ⟨keeps.keepSpaces.own, keeps.keepSpaces.ofSoftMask, keeps.keepSpaces.ofMask⟩

theorem image_decode (l : LoadedImage) : l.decode.2.image = l.image := by
  unfold decode
  split
  · rfl
  · exact l.image_keepSpaces

/-- In the colour spaces that are kept the picture is the same. -/
theorem KeepsSpaces.decodeIn_eq (keeps : l.KeepsSpaces) :
    l.image.decodeIn (l.image.colorSpaceFrom l.space) (·.colorSpaceFrom l.softMaskSpace)
      (·.colorSpaceFrom l.maskSpace) = l.image.decode := by
  rw [keeps.own.colorSpaceFrom_eq]
  unfold Image.decode Image.decodeIn
  split
  · rename_i given
    dsimp only
    rw [(keeps.ofSoftMask _ given).colorSpaceFrom_eq]
  · rename_i given
    dsimp only
    rw [(keeps.ofMask _ given).colorSpaceFrom_eq]
  · rfl
  · rfl

end LoadedImage

/-! ## Pictures -/

namespace ImageHistory

/-- The image in use is the new one, with colour spaces that are its own, and with the picture of the limits
that held when it was decoded. -/
structure Keeps (history : ImageHistory) : Prop where
  image : history.loaded.image = history.fresh
  spaces : history.loaded.KeepsSpaces
  noPicture (unkept : history.keptLimits = none) : history.loaded.picture = none
  picture (limits : DecodeLimits) (kept : history.keptLimits = some limits) :
    ∃ picture, history.loaded.picture = some picture ∧
      (history.fresh.withLimits limits).decode = .ok picture

variable {history : ImageHistory}

theorem keeps_read (image : Image) : (read image).Keeps where
  image := rfl
  spaces := LoadedImage.keepsSpaces_ofImage image
  noPicture _ := rfl
  picture _ := nofun

theorem Keeps.askedSpace (keeps : history.Keeps) : history.askedSpace.Keeps where
  image := keeps.image
  spaces := ⟨keeps.spaces.own.ask, keeps.spaces.ofSoftMask, keeps.spaces.ofMask⟩
  noPicture := keeps.noPicture
  picture := keeps.picture

/-- A picture that is not kept is decoded in the limits of now. -/
theorem Keeps.decode_of_unkept (keeps : history.Keeps) (unkept : history.keptLimits = none) :
    history.loaded.decode.1 = history.fresh.decode ∧
      history.loaded.decode.2.picture = history.fresh.decode.toOption := by
  rw [LoadedImage.decode, keeps.noPicture unkept]
  dsimp only
  rw [keeps.spaces.decodeIn_eq, keeps.image]
  exact ⟨rfl, rfl⟩

theorem Keeps.decode_of_kept (keeps : history.Keeps) {limits : DecodeLimits}
    (kept : history.keptLimits = some limits) :
    history.loaded.decode = ((history.fresh.withLimits limits).decode, history.loaded) := by
  obtain ⟨picture, known, decodes⟩ := keeps.picture limits kept
  rw [LoadedImage.decode, known, decodes]

theorem Keeps.decoded (keeps : history.Keeps) : history.decoded.Keeps where
  image := (LoadedImage.image_decode history.loaded).trans keeps.image
  spaces := keeps.spaces.decode
  noPicture unkept := by
    obtain ⟨unkept, failed⟩ := Option.or_eq_none_iff.mp unkept
    rw [Option.map_eq_none_iff] at failed
    exact (keeps.decode_of_unkept unkept).2.trans failed
  picture limits kept := by
    change ∃ picture, history.loaded.decode.2.picture = some picture ∧
      (history.fresh.withLimits limits).decode = .ok picture
    cases before : history.keptLimits with
    | some earlier =>
      rw [keptLimits, before, Option.some_or, Option.some.injEq] at kept
      rw [keeps.decode_of_kept before]
      exact keeps.picture limits (kept ▸ before)
    | none =>
      rw [keptLimits, before, Option.none_or, Option.map_eq_some_iff] at kept
      obtain ⟨picture, decodes, rfl⟩ := kept
      exact ⟨picture, (keeps.decode_of_unkept before).2.trans decodes, eq_ok_of_toOption decodes⟩

theorem Keeps.targeted (keeps : history.Keeps) (target : Ref) : (history.targeted target).Keeps where
  image := by
    rw [fresh, settings, Image.withSettings_target]
    exact congrArg (·.withTarget target) keeps.image
  spaces := ⟨keeps.spaces.own, keeps.spaces.ofSoftMask, keeps.spaces.ofMask⟩
  noPicture := keeps.noPicture
  picture limits kept := by
    rw [fresh, settings, Image.withSettings_target]
    exact keeps.picture limits kept

theorem Keeps.limited (keeps : history.Keeps) (limits : DecodeLimits) :
    (history.limited limits).Keeps where
  image := by
    rw [fresh, settings, Image.withSettings_limits]
    exact congrArg (·.withLimits limits) keeps.image
  spaces := ⟨keeps.spaces.own, keeps.spaces.ofSoftMask, keeps.spaces.ofMask⟩
  noPicture := keeps.noPicture
  picture earlier kept := by
    rw [fresh, settings, Image.withSettings_limits]
    exact keeps.picture earlier kept

theorem Keeps.softMasked {softMask : ImageHistory} (keeps : history.Keeps)
    (keepsMask : softMask.Keeps) : (history.softMasked softMask).Keeps where
  image := by
    rw [fresh, settings, Image.withSettings_softMask]
    change history.loaded.image.withSoftMask softMask.loaded.image = _
    rw [keeps.image, keepsMask.image]
    rfl
  spaces := keeps.spaces.attachSoftMask keepsMask.spaces
  noPicture _ := rfl
  picture _ := nofun

theorem Keeps.masked {mask : ImageHistory} (keeps : history.Keeps) (keepsMask : mask.Keeps) :
    (history.masked mask).Keeps where
  image := by
    rw [fresh, settings, Image.withSettings_mask]
    change history.loaded.image.withMask mask.loaded.image = _
    rw [keeps.image, keepsMask.image]
    rfl
  spaces := keeps.spaces.attachMask keepsMask.spaces
  noPicture _ := rfl
  picture _ := nofun

theorem keeps (history : ImageHistory) : history.Keeps := by
  induction history with
  | read image => exact keeps_read image
  | askedSpace _ keeps => exact keeps.askedSpace
  | decoded _ keeps => exact keeps.decoded
  | targeted _ target keeps => exact keeps.targeted target
  | limited _ limits keeps => exact keeps.limited limits
  | softMasked _ _ keeps keepsMask => exact keeps.softMasked keepsMask
  | masked _ _ keeps keepsMask => exact keeps.masked keepsMask

/-- Whatever was done with an image, its colour space is that of a new image with the masks, the reference
and the limits given last. So is its picture, but in the limits that held when the picture was decoded that
is kept, if there is one. -/
theorem kept_results_are_stale_in_the_limits_alone (history : ImageHistory) :
    history.loaded.colorSpace.1 = (LoadedImage.ofImage history.fresh).colorSpace.1 ∧
      history.loaded.decode.1 = (LoadedImage.ofImage (history.fresh.withLimits
        (history.keptLimits.getD history.fresh.limits))).decode.1 := by
  have keeps := history.keeps
  constructor
  · change history.loaded.image.colorSpaceFrom history.loaded.space = history.fresh.colorSpace
    rw [keeps.spaces.own.colorSpaceFrom_eq, keeps.image]
  · change history.loaded.decode.1 = Image.decode _
    cases kept : history.keptLimits with
    | some limits =>
      rw [keeps.decode_of_kept kept]
      rfl
    | none => exact (keeps.decode_of_unkept kept).1

/-- Two gray samples of eight bits. -/
def twoGrays : Image where
  stream := ⟨[("Width", .integer 2), ("Height", .integer 1), ("BitsPerComponent", .integer 8),
    ("ColorSpace", .name "DeviceGray")], [1, 2]⟩
  target := none
  width := 2
  height := 1
  bits := 8
  isStencil := false
  interpolate := false
  decodeArray := none
  softMask := none
  mask := none
  colorKey := none
  limits := .standard

/-- Once it was decoded, an image that is given a limit of one byte gives its picture all the same, and a new
image with this limit does not. -/
theorem limits_given_after_decoding_are_not_looked_at :
    let history := ((read twoGrays).decoded).limited ⟨100, 1⟩
    Image.ofStream twoGrays.stream = .ok twoGrays ∧
      history.loaded.decode.1 = .ok (.rgb ⟨2, 1, [Rgb.ofGray 1, Rgb.ofGray 2]⟩) ∧
      (LoadedImage.ofImage history.fresh).decode.1 = .error (.decode (.imageLimit 2 1 2 1)) := by
  refine ⟨rfl, eq_ok_of_toOption ?_, rfl⟩
  decide +kernel

end ImageHistory

end PdfCanvas
