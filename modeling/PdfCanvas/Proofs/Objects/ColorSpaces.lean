import PdfCanvas.Proofs.Objects.Equality
import PdfCanvas.Proofs.Outcomes

/-!
# Colour spaces as objects

A colour space that was read is written as an object that is read as the same space, however deep spaces
are nested in it. The reader takes more than the writer writes, so this starts from the spaces that the
reader comes to (`Readable`): profiles of theirs are written out with one to four components, and several
colorants are at least one. Each of the two functions needs an induction of its own, one over the spaces and
one over the objects.
-/

namespace PdfCanvas

namespace ColorSpace

open Object (sameItems sameEntries sameEntry)

/-- The colour spaces that the reader comes to. -/
inductive Readable : ColorSpace → Prop where
  | gray : Readable .gray
  | rgb : Readable .rgb
  | cmyk : Readable .cmyk
  | indexed {base : ColorSpace} (ofBase : Readable base) (limit : UInt8) (table : Bytes) :
      Readable (.indexed base limit table)
  | icc {components : UInt8} {alternate : Option ColorSpace} (least : 1 ≤ components)
      (most : components ≤ 4) (ofAlternate : ∀ space ∈ alternate, Readable space) :
      Readable (.icc components alternate none)
  | separation {alternate : ColorSpace} (colorant : String) (ofAlternate : Readable alternate)
      (tint : Object) : Readable (.separation colorant alternate tint)
  | deviceN {colorants : List String} {alternate : ColorSpace} (named : colorants ≠ [])
      (ofAlternate : Readable alternate) (tint : Object) :
      Readable (.deviceN colorants alternate tint)
  | pattern {underlying : Option ColorSpace} (ofUnderlying : ∀ space ∈ underlying, Readable space) :
      Readable (.pattern underlying)

/-! ## What is written is read -/

theorem clampByte_of_mem {low high value : UInt8} (least : low ≤ value) (most : value ≤ high) :
    clampByte low high value.toNat = value := by
  rw [UInt8.le_iff_toNat_le] at least most
  rw [clampByte, Int.toNat_natCast, Nat.min_eq_right most, Nat.max_eq_right least]
  exact UInt8.ofNat_toNat

theorem clampByte_bounds {low high : UInt8} (order : low ≤ high) (value : Int) :
    low ≤ clampByte low high value ∧ clampByte low high value ≤ high := by
  rw [UInt8.le_iff_toNat_le] at order
  have small := high.toNat_lt
  simp only [UInt8.le_iff_toNat_le, clampByte, Nat.toUInt8, UInt8.toNat_ofNat']
  omega

theorem filterMap_names (colorants : List String) :
    (colorants.map Object.name).filterMap Object.name? = colorants := by
  rw [List.filterMap_map]
  exact List.filterMap_some

theorem ofObject_toObject {space : ColorSpace} (readable : space.Readable) :
    ofObject space.toObject = .ok space := by
  induction readable with
  | gray => rfl
  | rgb => rfl
  | cmyk => rfl
  | @indexed base _ limit table inductionHypothesis =>
    have held : clampByte 0 255 limit.toNat = limit :=
      clampByte_of_mem UInt8.zero_le (UInt8.le_iff_toNat_le.mpr (Nat.le_of_lt_succ limit.toNat_lt))
    simp [toObject, ofObject, ofItems, Family.ofName?, ofTable, inductionHypothesis, Object.integer?,
      tableBytes, held, bind, Except.bind, pure, Except.pure]
  | @icc components alternate least most _ inductionHypothesis =>
    have counted : profileCount (("N", .integer components.toNat) :: alternateEntry alternate) =
        .ok components := by
      simp [profileCount, Dictionary.get?, Object.integer?, clampByte_of_mem least most]
    have known : ofAlternate (("N", .integer components.toNat) :: alternateEntry alternate) =
        .ok alternate := by
      cases alternate with
      | none => rfl
      | some space =>
        simp [alternateEntry, ofAlternate, ofAlternateEntry, inductionHypothesis, bind, Except.bind,
          pure, Except.pure, Functor.map, Except.map]
    simp [toObject, ofObject, ofItems, Family.ofName?, ofProfile, counted, known, bind, Except.bind,
      pure, Except.pure]
  | separation colorant _ tint inductionHypothesis =>
    simp [toObject, ofObject, ofItems, Family.ofName?, ofColorant, inductionHypothesis, Object.name?,
      bind, Except.bind, pure, Except.pure]
  | @deviceN colorants _ named _ tint inductionHypothesis =>
    have some : colorants.isEmpty = false := List.isEmpty_eq_false_iff.mpr named
    rw [toObject, ofObject, ofItems.eq_def]
    change ofColorants _ _ = _
    rw [ofColorants.eq_def]
    dsimp only [Object.array?]
    simp only [filterMap_names, some, inductionHypothesis]
    rfl
  | @pattern underlying _ inductionHypothesis =>
    cases underlying with
    | none => rfl
    | some space =>
      simp [toObject, ofObject, ofItems, Family.ofName?, inductionHypothesis, bind, Except.bind,
        pure, Except.pure]

/-! ## What is read -/

theorem readable_ofName {name : String} {space : ColorSpace} (read : ofName name = .ok space) :
    space.Readable := by
  unfold ofName at read
  split at read
  · cases read
    exact .gray
  split at read
  · cases read
    exact .rgb
  split at read
  · cases read
    exact .cmyk
  split at read
  · cases read
    exact .pattern nofun
  · cases read

theorem bounds_of_profileCount {entries : Dictionary} {components : UInt8}
    (counted : profileCount entries = .ok components) : 1 ≤ components ∧ components ≤ 4 := by
  unfold profileCount at counted
  split at counted
  · cases counted
  · cases counted
    exact clampByte_bounds (by decide) _

mutual

theorem readable_ofObject : {object : Object} → {space : ColorSpace} →
    ofObject object = .ok space → space.Readable
  | .name name, _, read => readable_ofName read
  | .array items, _, read => readable_ofItems read
  | .reference _, _, read | .null, _, read | .boolean _, _, read | .integer _, _, read
  | .real _, _, read | .string _, _, read | .dictionary _, _, read | .stream .., _, read => by
    cases read
  termination_by structural object => object

theorem readable_ofItems : {items : List Object} → {space : ColorSpace} →
    ofItems items = .ok space → space.Readable
  | .name family :: parameters, space, read => by
    rw [ofItems.eq_def] at read
    dsimp only at read
    split at read
    · exact readable_ofName read
    · cases named : Family.ofName? family with
      | none => simp [named] at read
      | some kind =>
        rw [named] at read
        cases kind with
        | gray =>
          cases read
          exact .gray
        | rgb =>
          cases read
          exact .rgb
        | indexed => exact readable_ofTable read
        | icc =>
          match parameters with
          | [] => cases read
          | profile :: _ => exact readable_ofProfile read
        | separation => exact readable_ofColorant read
        | deviceN => exact readable_ofColorants read
        | pattern =>
          match parameters with
          | [] => cases read
          | underlying :: _ =>
            obtain ⟨inner, readInner, same⟩ := bind_eq_ok.mp read
            cases same
            exact .pattern fun space given => Option.some.inj given ▸ readable_ofObject readInner
  | [], _, read | .null :: _, _, read | .boolean _ :: _, _, read | .integer _ :: _, _, read
  | .real _ :: _, _, read | .string _ :: _, _, read | .array _ :: _, _, read
  | .dictionary _ :: _, _, read | .stream .. :: _, _, read | .reference _ :: _, _, read => by
    cases read
  termination_by structural items => items

theorem readable_ofTable {family : String} : {items : List Object} → {space : ColorSpace} →
    ofTable family items = .ok space → space.Readable
  | [], _, read => by cases read
  | [base], space, read => by
    obtain ⟨_, _, read⟩ := bind_eq_ok.mp read
    cases read
  | [base, limit], space, read => by
    obtain ⟨_, _, read⟩ := bind_eq_ok.mp read
    dsimp only at read
    cases number : limit.integer? <;> simp [number] at read
  | base :: limit :: table :: _, space, read => by
    obtain ⟨inner, readInner, read⟩ := bind_eq_ok.mp read
    dsimp only at read
    cases number : limit.integer? with
    | none => simp [number] at read
    | some number' =>
      rw [number] at read
      obtain ⟨bytes, _, same⟩ := bind_eq_ok.mp read
      cases same
      exact .indexed (readable_ofObject readInner) _ bytes
  termination_by structural items => items

theorem readable_ofProfile : {object : Object} → {space : ColorSpace} →
    ofProfile object = .ok space → space.Readable
  | .stream entries _, space, read | .dictionary entries, space, read => by
    obtain ⟨components, counted, read⟩ := bind_eq_ok.mp read
    obtain ⟨alternate, readAlternate, same⟩ := bind_eq_ok.mp read
    cases same
    obtain ⟨least, most⟩ := bounds_of_profileCount counted
    exact .icc least most (readable_ofAlternate readAlternate)
  | .reference _, _, read | .null, _, read | .boolean _, _, read | .integer _, _, read
  | .real _, _, read | .string _, _, read | .name _, _, read | .array _, _, read => by
    cases read
  termination_by structural object => object

theorem readable_ofAlternate : {entries : List (String × Object)} → {alternate : Option ColorSpace} →
    ofAlternate entries = .ok alternate → ∀ space ∈ alternate, space.Readable
  | [], _, read, _, given => by
    cases read
    cases given
  | entry :: rest, alternate, read, space, given => by
    obtain ⟨first, readFirst, read⟩ := bind_eq_ok.mp read
    cases first with
    | some first =>
      cases read
      exact readable_ofAlternateEntry readFirst space given
    | none => exact readable_ofAlternate read space given
  termination_by structural entries => entries

theorem readable_ofAlternateEntry : {entry : String × Object} → {alternate : Option ColorSpace} →
    ofAlternateEntry entry = .ok alternate → ∀ space ∈ alternate, space.Readable
  | (key, value), alternate, read, space, given => by
    rw [ofAlternateEntry] at read
    split at read
    · obtain ⟨inner, readInner, rfl⟩ := map_eq_ok.mp read
      exact Option.some.inj given ▸ readable_ofObject readInner
    · cases read
      cases given
  termination_by structural entry => entry

theorem readable_ofColorant {family : String} : {items : List Object} → {space : ColorSpace} →
    ofColorant family items = .ok space → space.Readable
  | [], _, read => by cases read
  | [colorant], space, read => by
    rw [ofColorant.eq_def] at read
    dsimp only at read
    cases named : colorant.name? <;> simp [named] at read
  | colorant :: alternate :: rest, space, read => by
    rw [ofColorant.eq_def] at read
    dsimp only at read
    cases named : colorant.name? with
    | none => simp [named] at read
    | some name =>
      rw [named] at read
      obtain ⟨inner, readInner, same⟩ := bind_eq_ok.mp read
      cases same
      exact .separation name (readable_ofObject readInner) _
  termination_by structural items => items

theorem readable_ofColorants {family : String} : {items : List Object} → {space : ColorSpace} →
    ofColorants family items = .ok space → space.Readable
  | [], _, read => by cases read
  | [colorants], space, read => by
    rw [ofColorants.eq_def] at read
    dsimp only at read
    cases listed : colorants.array? <;> simp [listed] at read
    split at read <;> cases read
  | colorants :: alternate :: rest, space, read => by
    rw [ofColorants.eq_def] at read
    dsimp only at read
    cases listed : colorants.array? with
    | none => simp [listed] at read
    | some items =>
      rw [listed] at read
      dsimp only at read
      split at read
      · cases read
      next named =>
        obtain ⟨inner, readInner, same⟩ := bind_eq_ok.mp read
        cases same
        rw [List.isEmpty_iff] at named
        exact .deviceN named (readable_ofObject readInner) _
  termination_by structural items => items

end

/-! ## Objects that tell spaces apart -/

theorem eq_of_sameItems_names {names others : List String}
    (equal : sameItems (names.map .name) (others.map .name) = true) : names = others := by
  induction names generalizing others with
  | nil =>
    cases others with
    | nil => rfl
    | cons _ _ => simp [sameItems] at equal
  | cons name names inductionHypothesis =>
    cases others with
    | nil => simp [sameItems] at equal
    | cons other others =>
      simp only [List.map_cons, sameItems, Object.same, Bool.and_eq_true, beq_iff_eq] at equal
      rw [equal.1, inductionHypothesis equal.2]

/-- The name that an object is, or that its items start with. A written space is told by it. -/
def writtenName? : Object → Option String
  | .array items => items.head?.bind Object.name?
  | object => object.name?

theorem writtenName?_toObject (space : ColorSpace) : writtenName? space.toObject = some space.name := by
  cases space with
  | icc _ _ profile => cases profile <;> rfl
  | pattern underlying => cases underlying <;> rfl
  | _ => rfl

theorem name?_of_same {a b : Object} (equal : a.same b = true) : a.name? = b.name? := by
  cases a <;> cases b <;> simp [Object.same] at equal <;> simp [Object.name?, equal]

theorem writtenName?_of_same {a b : Object} (equal : a.same b = true) :
    writtenName? a = writtenName? b := by
  cases a with
  | array items =>
    cases b with
    | array others =>
      simp only [Object.same] at equal
      cases items <;> cases others <;> simp [sameItems] at equal
      · rfl
      · exact name?_of_same equal.1
    | _ => simp [Object.same] at equal
  | _ =>
    cases b with
    | array _ => simp [Object.same] at equal
    | _ => exact name?_of_same equal

theorem name_of_same_toObject {a b : ColorSpace} (equal : a.toObject.same b.toObject = true) :
    a.name = b.name := by
  have written := writtenName?_of_same equal
  rwa [writtenName?_toObject, writtenName?_toObject, Option.some.injEq] at written

/-- Profiles that are written as equal dictionaries have as many components, and alternates that are
written as equal objects, if any. -/
theorem of_sameProfile {components other : UInt8} {a b : Option ColorSpace}
    (lengths : (("N", Object.integer components.toNat) :: alternateEntry a).length =
      (("N", Object.integer other.toNat) :: alternateEntry b).length)
    (entries : sameEntries (("N", .integer components.toNat) :: alternateEntry a)
      (("N", .integer other.toNat) :: alternateEntry b) = true) :
    components = other ∧ (a = none ∧ b = none ∨
      ∃ space otherSpace, a = some space ∧ b = some otherSpace ∧
        space.toObject.same otherSpace.toObject = true) := by
  have counts : ∀ rest others, sameEntries (("N", .integer components.toNat) :: rest)
      (("N", .integer other.toNat) :: others) = true → components = other := by
    intro rest others equal
    simp only [sameEntries, sameEntry, List.lookup_cons_self, Bool.and_eq_true] at equal
    simp only [Object.same, beq_iff_eq] at equal
    exact UInt8.toNat_inj.mp (Int.ofNat.inj equal.1)
  refine ⟨counts _ _ entries, ?_⟩
  cases a with
  | none =>
    cases b with
    | none => exact .inl ⟨rfl, rfl⟩
    | some _ => simp [alternateEntry] at lengths
  | some space =>
    cases b with
    | none => simp [alternateEntry] at lengths
    | some otherSpace =>
      simp [alternateEntry, sameEntries, sameEntry] at entries
      exact .inr ⟨space, otherSpace, rfl, rfl, entries.2⟩

/-- Colour spaces that were read and are written as equal objects are equal. -/
theorem same_of_toObject {a b : ColorSpace} (readable : a.Readable) (readableOther : b.Readable)
    (equal : a.toObject.same b.toObject = true) : a.same b = true := by
  have names := name_of_same_toObject equal
  -- the families agree, so that only the parameters are left to be compared
  induction readable generalizing b with
  | gray =>
    cases readableOther with
    | gray => rfl
    | _ => simp [name] at names
  | rgb =>
    cases readableOther with
    | rgb => rfl
    | _ => simp [name] at names
  | cmyk =>
    cases readableOther with
    | cmyk => rfl
    | _ => simp [name] at names
  | indexed _ limit table inductionHypothesis =>
    cases readableOther with
    | indexed readableBase otherLimit otherTable =>
      simp only [toObject, Object.same, sameItems, Bool.and_eq_true, beq_iff_eq] at equal
      obtain ⟨-, bases, limits, tables, -⟩ := equal
      have sameLimit : limit = otherLimit := UInt8.toNat_inj.mp (Int.ofNat.inj limits)
      simp [same, sameLimit, tables, inductionHypothesis readableBase bases (name_of_same_toObject bases)]
    | _ => simp [name] at names
  | @icc components alternate least most _ inductionHypothesis =>
    cases readableOther with
    | @icc otherComponents other _ _ readableAlternate =>
      simp only [toObject, Object.same, sameItems, Bool.and_eq_true, beq_iff_eq] at equal
      obtain ⟨-, profiles, -⟩ := equal
      obtain ⟨rfl, ⟨rfl, rfl⟩ | ⟨space, otherSpace, rfl, rfl, spaces⟩⟩ := of_sameProfile profiles.1 profiles.2
      · simp [same, sameOption]
      · have alternates := inductionHypothesis space rfl (readableAlternate otherSpace rfl) spaces
          (name_of_same_toObject spaces)
        simp [same, sameOption, alternates]
    | _ => simp [name] at names
  | separation colorant _ tint inductionHypothesis =>
    cases readableOther with
    | separation otherColorant readableAlternate otherTint =>
      simp only [toObject, Object.same, sameItems, Bool.and_eq_true, beq_iff_eq] at equal
      obtain ⟨-, colorants, alternates, tints, -⟩ := equal
      simp [same, colorants, tints, inductionHypothesis readableAlternate alternates (name_of_same_toObject alternates)]
    | _ => simp [name] at names
  | deviceN _ _ tint inductionHypothesis =>
    cases readableOther with
    | deviceN _ readableAlternate otherTint =>
      simp only [toObject, Object.same, sameItems, Bool.and_eq_true, beq_iff_eq] at equal
      obtain ⟨-, colorants, alternates, tints, -⟩ := equal
      simp [same, eq_of_sameItems_names colorants, tints, inductionHypothesis readableAlternate alternates (name_of_same_toObject alternates)]
    | _ => simp [name] at names
  | @pattern underlying _ inductionHypothesis =>
    cases readableOther with
    | @pattern other readableUnderlying =>
      cases underlying with
      | none =>
        cases other with
        | none => rfl
        | some _ => simp [toObject, Object.same] at equal
      | some space =>
        cases other with
        | none => simp [toObject, Object.same] at equal
        | some other =>
          simp only [toObject, Object.same, sameItems, Bool.and_eq_true, beq_iff_eq] at equal
          obtain ⟨-, spaces, -⟩ := equal
          exact inductionHypothesis space rfl (readableUnderlying other rfl) spaces (name_of_same_toObject spaces)
    | _ => simp [name] at names

/-! ## The round trip -/

/-- The spaces that are read from some object are those whose own objects are read as they are, and these
objects tell them apart. -/
theorem read_spaces_are_read_back :
    (∀ space : ColorSpace, space.Readable ↔ ∃ object, ofObject object = .ok space) ∧
      (∀ space : ColorSpace, space.Readable ↔ ofObject space.toObject = .ok space) ∧
      (∀ object space, ofObject object = .ok space → ofObject space.toObject = .ok space) ∧
      ∀ a b : ColorSpace, a.Readable → b.Readable → (a.toObject = b.toObject → a = b) ∧
        (a.toObject.same b.toObject = true ↔ a.same b = true) := by
  refine ⟨fun space => ⟨fun readable => ⟨_, ofObject_toObject readable⟩, ?_⟩,
    fun space => ⟨ofObject_toObject, readable_ofObject⟩,
    fun object space read => ofObject_toObject (readable_ofObject read), ?_⟩
  · rintro ⟨object, read⟩
    exact readable_ofObject read
  · intro a b readable readableOther
    refine ⟨fun equal => ?_, same_of_toObject readable readableOther, same_toObject⟩
    have read := ofObject_toObject readable
    rw [equal, ofObject_toObject readableOther] at read
    exact (Except.ok.inj read).symm

/-- A pattern in a table of colours whose base is a profile; the profile is stood in for by colorants that
have a spot colour as their alternate, and the tint transform is no number. -/
def nestedSpace : ColorSpace :=
  .pattern (some (.indexed (.icc 4 (some (.deviceN ["Cyan", "#"] (.separation "Spot" .cmyk (.real .nan))
    (.dictionary [("N", .null)]))) none) 255 [0, 128]))

theorem nestedSpace_is_read_back :
    nestedSpace.Readable ∧ ofObject nestedSpace.toObject = .ok nestedSpace := by
  have spot : Readable (.separation "Spot" .cmyk (.real .nan)) := .separation "Spot" .cmyk _
  have colorants : Readable (.deviceN ["Cyan", "#"] (.separation "Spot" .cmyk (.real .nan))
    (.dictionary [("N", .null)])) := .deviceN (List.cons_ne_nil _ _) spot _
  have readable : nestedSpace.Readable := by
    refine .pattern fun space given => ?_
    cases given
    refine .indexed (.icc (by decide) (by decide) fun space given => ?_) _ _
    cases given
    exact colorants
  exact ⟨readable, (read_spaces_are_read_back.2.1 nestedSpace).mp readable⟩

end ColorSpace

end PdfCanvas
