import PdfCanvas.ColorSpace
import PdfCanvas.Proofs.Resources.Naming

/-!
# Equality of objects

Equality is transitive and, as long as keys are distinct in all dictionaries, symmetric. It is no
equivalence, since "not a number" differs from itself and so does every object that holds it somewhere; but
an object that equals anything on its left equals itself.
-/

namespace PdfCanvas

theorem Floating.same_trans {format : FloatFormat} {a b c : Floating format}
    (first : a.same b = true) (second : b.same c = true) : a.same c = true := by
  unfold Floating.same at first second ⊢
  cases x : a.rank? with
  | none => simp [x] at first
  | some rankA =>
    cases y : b.rank? with
    | none => simp [x, y] at first
    | some rankB =>
      cases z : c.rank? with
      | none => simp [y, z] at second
      | some rankC =>
        simp only [x, y, z, beq_iff_eq] at first second ⊢
        exact first.trans second

theorem Floating.same_symm {format : FloatFormat} {a b : Floating format}
    (equal : a.same b = true) : b.same a = true := by
  unfold Floating.same at equal ⊢
  cases x : a.rank? with
  | none => simp [x] at equal
  | some rankA =>
    cases y : b.rank? with
    | none => simp [x, y] at equal
    | some rankB =>
      simp only [x, y, beq_iff_eq] at equal ⊢
      exact equal.symm

namespace Object

theorem sameEntry_iff {key : String} {value : Object} {others : List (String × Object)} :
    sameEntry (key, value) others = true ↔
      ∃ other, others.lookup key = some other ∧ value.same other = true := by
  unfold sameEntry
  cases others.lookup key with
  | none => simp
  | some other => simp

theorem sameEntries_iff {entries others : List (String × Object)} :
    sameEntries entries others = true ↔ ∀ entry ∈ entries, sameEntry entry others = true := by
  induction entries with
  | nil => simp [sameEntries]
  | cons entry entries inductionHypothesis => simp [sameEntries, inductionHypothesis]

theorem mem_of_lookup {α : Type} {entries : List (String × α)} {key : String} {value : α}
    (found : entries.lookup key = some value) : (key, value) ∈ entries := by
  obtain ⟨front, back, rfl, _⟩ := List.lookup_eq_some_iff.mp found
  simp

/-! ## Transitivity -/

mutual

theorem same_trans : ∀ {a b c : Object}, a.same b = true → b.same c = true → a.same c = true
  | .null, b, c, first, second => by
    cases b with
    | null => exact second
    | _ => simp [same] at first
  | .boolean x, b, c, first, second => by
    cases b with
    | boolean y => simp only [same, beq_iff_eq] at first; exact first ▸ second
    | _ => simp [same] at first
  | .integer x, b, c, first, second => by
    cases b with
    | integer y => simp only [same, beq_iff_eq] at first; exact first ▸ second
    | _ => simp [same] at first
  | .real x, b, c, first, second => by
    cases b with
    | real y =>
      cases c with
      | real z => exact Floating.same_trans first second
      | _ => simp [same] at second
    | _ => simp [same] at first
  | .string x, b, c, first, second => by
    cases b with
    | string y => simp only [same, beq_iff_eq] at first; exact first ▸ second
    | _ => simp [same] at first
  | .name x, b, c, first, second => by
    cases b with
    | name y => simp only [same, beq_iff_eq] at first; exact first ▸ second
    | _ => simp [same] at first
  | .array as, b, c, first, second => by
    cases b with
    | array bs =>
      cases c with
      | array cs => exact sameItems_trans first second
      | _ => simp [same] at second
    | _ => simp [same] at first
  | .dictionary as, b, c, first, second => by
    cases b with
    | dictionary bs =>
      cases c with
      | dictionary cs =>
        simp only [same, Bool.and_eq_true, beq_iff_eq] at first second ⊢
        exact ⟨first.1.trans second.1, sameEntries_trans first.2 second.2⟩
      | _ => simp [same] at second
    | _ => simp [same] at first
  | .stream as x, b, c, first, second => by
    cases b with
    | stream bs y =>
      cases c with
      | stream cs z =>
        simp only [same, Bool.and_eq_true, beq_iff_eq] at first second ⊢
        obtain ⟨⟨lengths, entries⟩, data⟩ := first
        obtain ⟨⟨laterLengths, laterEntries⟩, laterData⟩ := second
        exact ⟨⟨lengths.trans laterLengths, sameEntries_trans entries laterEntries⟩,
          data.trans laterData⟩
      | _ => simp [same] at second
    | _ => simp [same] at first
  | .reference x, b, c, first, second => by
    cases b with
    | reference y => simp only [same, beq_iff_eq] at first; exact first ▸ second
    | _ => simp [same] at first
  termination_by a => sizeOf a

theorem sameItems_trans : ∀ {as bs cs : List Object}, sameItems as bs = true →
    sameItems bs cs = true → sameItems as cs = true
  | [], bs, cs, first, second => by
    cases bs with
    | nil => exact second
    | cons _ _ => simp [sameItems] at first
  | a :: as, bs, cs, first, second => by
    cases bs with
    | nil => simp [sameItems] at first
    | cons b bs =>
      cases cs with
      | nil => simp [sameItems] at second
      | cons c cs =>
        simp only [sameItems, Bool.and_eq_true] at first second ⊢
        exact ⟨same_trans first.1 second.1, sameItems_trans first.2 second.2⟩
  termination_by as => sizeOf as

theorem sameEntries_trans : ∀ {as bs cs : List (String × Object)}, sameEntries as bs = true →
    sameEntries bs cs = true → sameEntries as cs = true
  | [], _, _, _, _ => rfl
  | (key, value) :: as, bs, cs, first, second => by
    simp only [sameEntries, Bool.and_eq_true] at first ⊢
    -- The entry has a partner in the second dictionary, whose own partner is in the third.
    obtain ⟨other, found, equal⟩ := sameEntry_iff.mp first.1
    obtain ⟨third, foundNext, equalNext⟩ :=
      sameEntry_iff.mp (sameEntries_iff.mp second _ (mem_of_lookup found))
    exact ⟨sameEntry_iff.mpr ⟨third, foundNext, same_trans equal equalNext⟩,
      sameEntries_trans first.2 second⟩
  termination_by as => sizeOf as

end

/-! ## Symmetry -/

mutual

/-- Whether keys are distinct in all dictionaries of an object. -/
def isProper : Object → Bool
  | .array items => areProper items
  | .dictionary entries => decide (entries.map (·.1)).Nodup && entriesAreProper entries
  | .stream entries _ => decide (entries.map (·.1)).Nodup && entriesAreProper entries
  | _ => true
  termination_by structural a => a

def areProper : List Object → Bool
  | [] => true
  | item :: items => item.isProper && areProper items
  termination_by structural items => items

def entriesAreProper : List (String × Object) → Bool
  | [] => true
  | entry :: entries => entryIsProper entry && entriesAreProper entries
  termination_by structural entries => entries

def entryIsProper : String × Object → Bool
  | (_, value) => value.isProper
  termination_by structural entry => entry

end

theorem isProper_of_mem {entries : List (String × Object)}
    (proper : entriesAreProper entries = true) {entry : String × Object}
    (member : entry ∈ entries) : entry.2.isProper = true := by
  induction entries with
  | nil => cases member
  | cons first entries inductionHypothesis =>
    obtain ⟨key, value⟩ := first
    simp only [entriesAreProper, entryIsProper, Bool.and_eq_true] at proper
    rcases List.mem_cons.mp member with rfl | further
    · exact proper.1
    · exact inductionHypothesis proper.2 further

theorem entriesAreProper_iff {entries : List (String × Object)} :
    entriesAreProper entries = true ↔ ∀ entry ∈ entries, entry.2.isProper = true := by
  constructor
  · exact fun proper _ => isProper_of_mem proper
  · intro each
    induction entries with
    | nil => rfl
    | cons entry entries inductionHypothesis =>
      obtain ⟨key, value⟩ := entry
      obtain ⟨first, others⟩ := List.forall_mem_cons.mp each
      simp only [entriesAreProper, entryIsProper, Bool.and_eq_true]
      exact ⟨first, inductionHypothesis others⟩

theorem isProper_dictionary {entries : Dictionary} : (dictionary entries).isProper = true ↔
    entries.Distinct ∧ ∀ entry ∈ entries, entry.2.isProper = true := by
  rw [isProper, Bool.and_eq_true, decide_eq_true_eq, entriesAreProper_iff, Dictionary.Distinct]

/-- Distinct keys that all occur among as many keys are all of them. -/
theorem subset_of_length_eq {as bs : List String} (distinct : as.Nodup) (among : as ⊆ bs)
    (length : as.length = bs.length) : bs ⊆ as := by
  intro key member
  refine Classical.byContradiction fun absent => ?_
  have amongOthers : as ⊆ bs.erase key := by
    intro other present
    have differs : other ≠ key := by
      rintro rfl
      exact absent present
    exact (List.mem_erase_of_ne differs).mpr (among present)
  have fewer := distinct.length_le_of_subset amongOthers
  rw [List.length_erase_of_mem member, length] at fewer
  have present := List.length_pos_of_mem member
  omega

/-- If every entry of a dictionary has a partner in one of the same size, then this one has no entries but
the partners. -/
theorem sameEntries_of_partners {as bs : List (String × Object)} (length : as.length = bs.length)
    (distinctLeft : (as.map (·.1)).Nodup) (distinct : (bs.map (·.1)).Nodup)
    (partners : ∀ entry ∈ as, ∃ other, bs.lookup entry.1 = some other ∧ other.same entry.2 = true) :
    sameEntries bs as = true := by
  -- The keys of both are the same, since one set of them is part of the other and not smaller.
  have among : as.map (·.1) ⊆ bs.map (·.1) := by
    intro key member
    obtain ⟨entry, present, rfl⟩ := List.mem_map.mp member
    obtain ⟨other, found, _⟩ := partners entry present
    exact List.mem_map.mpr ⟨_, mem_of_lookup found, rfl⟩
  have all := subset_of_length_eq distinctLeft among (by simpa using length)
  refine sameEntries_iff.mpr fun (key, value) member => ?_
  -- So every entry on the right is the partner of one on the left.
  obtain ⟨entry, present, named⟩ := List.mem_map.mp (all (List.mem_map.mpr ⟨_, member, rfl⟩))
  obtain ⟨other, found, equal⟩ := partners entry present
  have only : bs.lookup key = some value := Dictionary.get?_of_mem distinct member
  have bound : as.lookup entry.1 = some entry.2 := Dictionary.get?_of_mem distinctLeft present
  rw [named] at found bound
  rw [only, Option.some.injEq] at found
  exact sameEntry_iff.mpr ⟨entry.2, bound, found ▸ equal⟩

mutual

theorem same_symm : ∀ {a b : Object}, a.isProper = true → b.isProper = true →
    a.same b = true → b.same a = true
  | .null, b, _, _, equal => by
    cases b with
    | null => rfl
    | _ => simp [same] at equal
  | .boolean _, b, _, _, equal => by
    cases b with
    | boolean _ => simp only [same, beq_iff_eq] at equal ⊢; exact equal.symm
    | _ => simp [same] at equal
  | .integer _, b, _, _, equal => by
    cases b with
    | integer _ => simp only [same, beq_iff_eq] at equal ⊢; exact equal.symm
    | _ => simp [same] at equal
  | .real _, b, _, _, equal => by
    cases b with
    | real _ => exact Floating.same_symm equal
    | _ => simp [same] at equal
  | .string _, b, _, _, equal => by
    cases b with
    | string _ => simp only [same, beq_iff_eq] at equal ⊢; exact equal.symm
    | _ => simp [same] at equal
  | .name _, b, _, _, equal => by
    cases b with
    | name _ => simp only [same, beq_iff_eq] at equal ⊢; exact equal.symm
    | _ => simp [same] at equal
  | .array as, b, proper, properRight, equal => by
    cases b with
    | array bs => exact sameItems_symm proper properRight equal
    | _ => simp [same] at equal
  | .dictionary as, b, proper, properRight, equal => by
    cases b with
    | dictionary bs =>
      simp only [same, isProper, Bool.and_eq_true, beq_iff_eq, decide_eq_true_eq] at *
      have partners := partners_symm proper.2 properRight.2 equal.2
      exact ⟨equal.1.symm, sameEntries_of_partners equal.1 proper.1 properRight.1 partners⟩
    | _ => simp [same] at equal
  | .stream as _, b, proper, properRight, equal => by
    cases b with
    | stream bs _ =>
      simp only [same, isProper, Bool.and_eq_true, beq_iff_eq, decide_eq_true_eq] at *
      have partners := partners_symm proper.2 properRight.2 equal.1.2
      exact ⟨⟨equal.1.1.symm, sameEntries_of_partners equal.1.1 proper.1 properRight.1 partners⟩,
        equal.2.symm⟩
    | _ => simp [same] at equal
  | .reference _, b, _, _, equal => by
    cases b with
    | reference _ => simp only [same, beq_iff_eq] at equal ⊢; exact equal.symm
    | _ => simp [same] at equal
  termination_by a => sizeOf a

theorem sameItems_symm : ∀ {as bs : List Object}, areProper as = true → areProper bs = true →
    sameItems as bs = true → sameItems bs as = true
  | [], bs, _, _, equal => by
    cases bs with
    | nil => rfl
    | cons _ _ => simp [sameItems] at equal
  | a :: as, bs, proper, properRight, equal => by
    cases bs with
    | nil => simp [sameItems] at equal
    | cons b bs =>
      simp only [sameItems, areProper, Bool.and_eq_true] at equal proper properRight ⊢
      exact ⟨same_symm proper.1 properRight.1 equal.1,
        sameItems_symm proper.2 properRight.2 equal.2⟩
  termination_by as => sizeOf as

theorem partners_symm : ∀ {as bs : List (String × Object)}, entriesAreProper as = true →
    entriesAreProper bs = true → sameEntries as bs = true →
    ∀ entry ∈ as, ∃ other, bs.lookup entry.1 = some other ∧ other.same entry.2 = true
  | [], _, _, _, _, _, member => by cases member
  | (key, value) :: as, bs, proper, properRight, equal, entry, member => by
    simp only [sameEntries, entriesAreProper, entryIsProper, Bool.and_eq_true] at equal proper
    rcases List.mem_cons.mp member with rfl | further
    · obtain ⟨other, found, same⟩ := sameEntry_iff.mp equal.1
      have otherProper := isProper_of_mem properRight (mem_of_lookup found)
      exact ⟨other, found, same_symm proper.1 otherProper same⟩
    · exact partners_symm proper.2 properRight equal.2 entry further
  termination_by as => sizeOf as

end

theorem same_comm {a b : Object} (proper : a.isProper = true) (properRight : b.isProper = true) :
    a.same b = b.same a := by
  rw [Bool.eq_iff_iff]
  exact ⟨same_symm proper properRight, same_symm properRight proper⟩

/-- An object that equals anything on its left equals itself. -/
theorem same_right {a b : Object} (proper : a.isProper = true) (properRight : b.isProper = true)
    (equal : a.same b = true) : b.same b = true :=
  same_trans (same_symm proper properRight equal) equal

theorem sameItems_names (names : List String) :
    sameItems (names.map .name) (names.map .name) = true := by
  induction names with
  | nil => rfl
  | cons name names inductionHypothesis => simp [sameItems, same, inductionHypothesis]

end Object

/-! ## Colour spaces -/

namespace ColorSpace

open Object

mutual

/-- Colour spaces that are equal are written as objects that are equal. -/
theorem same_toObject : ∀ {a b : ColorSpace}, a.same b = true →
    a.toObject.same b.toObject = true
  | .gray, b, equal => by
    cases b with
    | gray => simp [toObject, Object.same]
    | _ => simp [same] at equal
  | .rgb, b, equal => by
    cases b with
    | rgb => simp [toObject, Object.same]
    | _ => simp [same] at equal
  | .cmyk, b, equal => by
    cases b with
    | cmyk => simp [toObject, Object.same]
    | _ => simp [same] at equal
  | .indexed base limit table, b, equal => by
    cases b with
    | indexed other otherLimit otherTable =>
      simp only [same, Bool.and_eq_true, beq_iff_eq] at equal
      obtain ⟨⟨bases, rfl⟩, rfl⟩ := equal
      simp [toObject, Object.same, sameItems, same_toObject bases]
    | _ => simp [same] at equal
  | .icc components alternate profile, b, equal => by
    cases b with
    | icc otherComponents otherAlternate otherProfile =>
      simp only [same, Bool.and_eq_true, beq_iff_eq] at equal
      obtain ⟨⟨rfl, alternates⟩, rfl⟩ := equal
      cases profile with
      | some target => simp [toObject, Object.same, sameItems]
      | none => exact sameProfile_toObject alternates components
    | _ => simp [same] at equal
  | .separation colorant alternate tint, b, equal => by
    cases b with
    | separation otherColorant otherAlternate otherTint =>
      simp only [same, Bool.and_eq_true, beq_iff_eq] at equal
      obtain ⟨⟨rfl, alternates⟩, tints⟩ := equal
      simp [toObject, Object.same, sameItems, same_toObject alternates, tints]
    | _ => simp [same] at equal
  | .deviceN colorants alternate tint, b, equal => by
    cases b with
    | deviceN otherColorants otherAlternate otherTint =>
      simp only [same, Bool.and_eq_true, beq_iff_eq] at equal
      obtain ⟨⟨rfl, alternates⟩, tints⟩ := equal
      simp [toObject, Object.same, sameItems, sameItems_names, same_toObject alternates, tints]
    | _ => simp [same] at equal
  | .pattern underlying, b, equal => by
    cases b with
    | pattern otherUnderlying =>
      simp only [same] at equal
      cases underlying with
      | none =>
        cases otherUnderlying with
        | none => simp [toObject, Object.same]
        | some _ => simp [sameOption] at equal
      | some space =>
        cases otherUnderlying with
        | none => simp [sameOption] at equal
        | some other =>
          simp only [sameOption] at equal
          simp [toObject, Object.same, sameItems, same_toObject equal]
    | _ => simp [same] at equal
  termination_by a => sizeOf a

theorem sameProfile_toObject : ∀ {a b : Option ColorSpace}, sameOption a b = true →
    ∀ components : UInt8,
      (icc components a none).toObject.same (icc components b none).toObject = true
  | none, b, equal, components => by
    cases b with
    | none => simp [toObject, alternateEntry, Object.same, sameItems, sameEntries, sameEntry]
    | some _ => simp [sameOption] at equal
  | some alternate, b, equal, components => by
    cases b with
    | none => simp [sameOption] at equal
    | some other =>
      simp only [sameOption] at equal
      let entries : List (String × Object) :=
        [("N", .integer components.toNat), ("Alternate", other.toObject)]
      have counts : sameEntry ("N", .integer components.toNat) entries = true :=
        sameEntry_iff.mpr ⟨_, rfl, by simp [Object.same]⟩
      have alternates : sameEntry ("Alternate", alternate.toObject) entries = true :=
        sameEntry_iff.mpr ⟨_, rfl, same_toObject equal⟩
      simp [toObject, alternateEntry, Object.same, sameItems, sameEntries, counts, alternates,
        entries]
  termination_by a => sizeOf a

end

end ColorSpace

end PdfCanvas
