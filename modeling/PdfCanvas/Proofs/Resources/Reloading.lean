import Mathlib.Data.List.Forall2
import PdfCanvas.Proofs.Resources.Sharing

/-!
# Resources saved and loaded again

Resources that were saved and loaded again hand out the same names as those that were not, whatever the order
in which the saved dictionaries are gone through. Saving leaves out categories without names, and loading
takes over what is a dictionary, so that the two undo each other up to the order of entries; and the order
does not count where no two names of a category stand for equal objects.
-/

namespace PdfCanvas

/-! ## Orders -/

/-- The same object, or a dictionary with its entries in another order. -/
inductive Object.Reordered : Object → Object → Prop where
  | refl (object : Object) : Object.Reordered object object
  | dictionary {entries others : Dictionary} (order : entries.Perm others) :
      Object.Reordered (.dictionary entries) (.dictionary others)

/-- The same entries in another order, those of the dictionaries among them in another order too. -/
def Dictionary.Reordered (d other : Dictionary) : Prop :=
  ∃ between : Dictionary, d.Perm between ∧
    List.Forall₂ (fun entry moved => entry.1 = moved.1 ∧ entry.2.Reordered moved.2) between other

theorem Object.Reordered.isProper {object moved : Object} (order : object.Reordered moved)
    (proper : object.isProper = true) : moved.isProper = true := by
  cases order with
  | refl => exact proper
  | dictionary order =>
    rw [isProper_dictionary] at proper ⊢
    refine ⟨(order.map _).nodup_iff.mp proper.1, fun entry member => ?_⟩
    exact proper.2 entry (order.mem_iff.mpr member)

namespace Dictionary

variable {d other : Dictionary} {key : String}

theorem Reordered.refl (d : Dictionary) : d.Reordered d :=
  ⟨d, .refl d, List.forall₂_same.mpr fun entry _ => ⟨rfl, .refl entry.2⟩⟩

theorem Reordered.keys (order : d.Reordered other) : (d.map (·.1)).Perm (other.map (·.1)) := by
  obtain ⟨between, moved, inner⟩ := order
  refine (moved.map (·.1)).trans (.of_eq ?_)
  clear moved
  induction inner with
  | nil => rfl
  | cons same _ inductionHypothesis => rw [List.map_cons, List.map_cons, same.1, inductionHypothesis]

theorem Reordered.exists_before (order : d.Reordered other) {moved : Object}
    (member : (key, moved) ∈ other) : ∃ object, (key, object) ∈ d ∧ object.Reordered moved := by
  obtain ⟨between, outer, inner⟩ := order
  have found : ∃ object, (key, object) ∈ between ∧ object.Reordered moved := by
    clear outer
    induction inner with
    | nil => cases member
    | @cons first last _ _ same _ inductionHypothesis =>
      obtain ⟨firstKey, object⟩ := first
      rcases List.mem_cons.mp member with rfl | further
      · obtain ⟨rfl, reordered⟩ := same
        exact ⟨object, List.mem_cons_self, reordered⟩
      · obtain ⟨object, among, reordered⟩ := inductionHypothesis further
        exact ⟨object, List.mem_cons_of_mem _ among, reordered⟩
  obtain ⟨object, among, reordered⟩ := found
  exact ⟨object, outer.mem_iff.mpr among, reordered⟩

theorem Reordered.exists_after (order : d.Reordered other) (distinct : d.Distinct) {object : Object}
    (member : (key, object) ∈ d) : ∃ moved, (key, moved) ∈ other ∧ object.Reordered moved := by
  have among : key ∈ other.map (·.1) := order.keys.mem_iff.mp (List.mem_map_of_mem member)
  obtain ⟨⟨_, moved⟩, present, rfl⟩ := List.mem_map.mp among
  -- the key stands for one object only, which is what the one found there was made of
  obtain ⟨only, found, reordered⟩ := order.exists_before present
  have first := get?_of_mem distinct member
  rw [get?_of_mem distinct found, Option.some.injEq] at first
  exact ⟨moved, present, first ▸ reordered⟩

theorem Reordered.isProper (order : d.Reordered other)
    (proper : Object.isProper (.dictionary d) = true) : Object.isProper (.dictionary other) = true := by
  rw [Object.isProper_dictionary] at proper ⊢
  refine ⟨order.keys.nodup_iff.mp proper.1, fun (key, moved) member => ?_⟩
  obtain ⟨object, among, reordered⟩ := order.exists_before member
  exact reordered.isProper (proper.2 _ among)

/-- No two names stand for equal objects. -/
def BindsOnce (d : Dictionary) : Prop :=
  ∀ entry ∈ d, ∀ other ∈ d, entry.2.same other.2 = true → entry.1 = other.1

theorem BindsOnce.append_one (once : d.BindsOnce) (proper : ∀ entry ∈ d, entry.2.isProper = true)
    {object : Object} (properObject : object.isProper = true)
    (differs : ¬ ∃ entry ∈ d, entry.2.same object = true) (name : String) :
    BindsOnce (d ++ [(name, object)]) := by
  intro entry member other otherMember equal
  rw [List.mem_append, List.mem_singleton] at member otherMember
  -- the new entry equals none of the old ones, on neither side
  rcases member with old | rfl
  · rcases otherMember with otherOld | rfl
    · exact once entry old other otherOld equal
    · exact absurd ⟨entry, old, equal⟩ differs
  · rcases otherMember with otherOld | rfl
    · have back := Object.same_symm properObject (proper other otherOld) equal
      exact absurd ⟨other, otherOld, back⟩ differs
    · rfl

end Dictionary

/-- An entry that is a dictionary and not an empty one. -/
def isFilledTable : String × Object → Bool
  | (_, .dictionary entries) => !entries.isEmpty
  | _ => false

theorem Dictionary.Reordered.filter {d other : Dictionary} (order : d.Reordered other) :
    Dictionary.Reordered (d.filter isFilledTable) (other.filter isFilledTable) := by
  obtain ⟨between, outer, inner⟩ := order
  refine ⟨between.filter isFilledTable, outer.filter isFilledTable, List.rel_filter ?_ inner⟩
  rintro ⟨key, object⟩ ⟨_, moved⟩ ⟨rfl, reordered⟩
  cases reordered with
  | refl => exact Iff.rfl
  | dictionary order => simp [isFilledTable, order.isEmpty_eq]

namespace Resources

/-! ## Loading -/

theorem insert_of_absent {d : Dictionary} {key : String} (absent : key ∉ d.map (·.1)) (value : Object) :
    d.insert key value = d ++ [(key, value)] := by
  induction d with
  | nil => rfl
  | cons entry d inductionHypothesis =>
    rw [List.map_cons, List.mem_cons, not_or] at absent
    rw [Dictionary.insert, if_neg (Ne.symm absent.1), inductionHypothesis absent.2, List.cons_append]

theorem load_of_distinct {table entries : Dictionary} (distinct : Dictionary.Distinct (table ++ entries)) :
    load table entries = table ++ entries := by
  unfold load
  induction entries generalizing table with
  | nil => exact (List.append_nil table).symm
  | cons entry entries inductionHypothesis =>
    have absent : entry.1 ∉ table.map (·.1) := by
      rw [Dictionary.Distinct, List.map_append, List.nodup_append] at distinct
      exact fun member => distinct.2.2 _ member _ List.mem_cons_self rfl
    -- the entry goes from those that are taken over to those that are there
    rw [List.append_cons] at distinct ⊢
    rw [List.foldl_cons, insert_of_absent absent]
    exact inductionHypothesis distinct

theorem update_of_absent {categories : List (String × Dictionary)} {category : String}
    (absent : category ∉ categories.map (·.1)) (change : Dictionary → Dictionary) :
    update category change categories = categories ++ [(category, change [])] := by
  induction categories with
  | nil => rfl
  | cons entry categories inductionHypothesis =>
    rw [List.map_cons, List.mem_cons, not_or] at absent
    rw [update, if_neg (Ne.symm absent.1), inductionHypothesis absent.2, List.cons_append]

/-- The table that an entry of a resource dictionary is taken over as. -/
def table? : String × Object → Option (String × Dictionary)
  | (category, .dictionary entries) => some (category, entries)
  | _ => none

theorem categories_foldl {r : Resources} {d : Dictionary} (proper : ∀ entry ∈ d, entry.2.isProper = true)
    (distinct : (r.categories.map (·.1) ++ d.map (·.1)).Nodup) :
    (d.foldl loadCategory r).categories = r.categories ++ d.filterMap table? := by
  induction d generalizing r with
  | nil => exact (List.append_nil r.categories).symm
  | cons entry d inductionHypothesis =>
    obtain ⟨first, others⟩ := List.forall_mem_cons.mp proper
    obtain ⟨category, value⟩ := entry
    rw [List.foldl_cons]
    cases value with
    | dictionary entries =>
      -- there is no table of this category yet, and its names are distinct, so it is taken over as it is
      have absent : category ∉ r.categories.map (·.1) := fun member =>
        (List.nodup_append.mp distinct).2.2 _ member _ List.mem_cons_self rfl
      have own : Dictionary.Distinct ([] ++ entries) := (Object.isProper_dictionary.mp first).1
      have taken : r.loadCategory (category, .dictionary entries) =
          ⟨r.categories ++ [(category, entries)]⟩ := by
        rw [loadCategory, update_of_absent absent, load_of_distinct own, List.nil_append]
      rw [taken, inductionHypothesis others]
      · simp [table?]
      · simpa using distinct
    | _ =>
      have left : (r.categories.map (·.1) ++ d.map (·.1)).Nodup :=
        distinct.sublist ((List.sublist_cons_self _ _).append_left _)
      exact inductionHypothesis others left

theorem categories_ofEntries {d : Dictionary} (proper : Object.isProper (.dictionary d) = true) :
    (ofEntries d).categories = d.filterMap table? := by
  obtain ⟨distinct, each⟩ := Object.isProper_dictionary.mp proper
  exact categories_foldl each distinct

theorem mem_categories_ofEntries {d : Dictionary} (proper : Object.isProper (.dictionary d) = true)
    {category : String} {entries : Dictionary} :
    (category, entries) ∈ (ofEntries d).categories ↔ (category, .dictionary entries) ∈ d := by
  rw [categories_ofEntries proper, List.mem_filterMap]
  constructor
  · rintro ⟨⟨_, value⟩, member, taken⟩
    cases value with
    | dictionary => cases taken; exact member
    | _ => cases taken
  · intro member
    exact ⟨_, member, rfl⟩

theorem toDictionary_ofEntries {d : Dictionary} (proper : Object.isProper (.dictionary d) = true) :
    (ofEntries d).toDictionary = d.filter isFilledTable := by
  rw [toDictionary, categories_ofEntries proper]
  clear proper
  induction d with
  | nil => rfl
  | cons entry d inductionHypothesis =>
    obtain ⟨category, value⟩ := entry
    cases value with
    | dictionary entries =>
      cases entries with
      | nil => exact inductionHypothesis
      | cons _ _ => exact congrArg (List.cons _) inductionHypothesis
    | _ => exact inductionHypothesis

/-- Loading in ascending order of the keys is loading in one of the orders. -/
theorem exists_ofEntries (d : Dictionary) :
    ∃ other, d.Reordered other ∧ ofDictionary d = ofEntries other := by
  refine ⟨_, ⟨sorted d, (List.mergeSort_perm d _).symm, ?_⟩, rfl⟩
  refine List.forall₂_map_right_iff.mpr (List.forall₂_same.mpr ?_)
  rintro ⟨key, value⟩ _
  refine ⟨rfl, ?_⟩
  cases value with
  | dictionary entries => exact .dictionary (List.mergeSort_perm entries _).symm
  | _ => exact .refl _

/-! ## Categories -/

theorem keys_update (category : String) (change : Dictionary → Dictionary)
    (categories : List (String × Dictionary)) :
    (update category change categories).map (·.1) =
      if category ∈ categories.map (·.1) then categories.map (·.1)
      else categories.map (·.1) ++ [category] := by
  by_cases present : category ∈ categories.map (·.1)
  · rw [if_pos present]
    induction categories with
    | nil => cases present
    | cons entry categories inductionHypothesis =>
      unfold update
      split
      · rfl
      · next differs =>
        have further := (List.mem_cons.mp present).resolve_left (Ne.symm differs)
        rw [List.map_cons, inductionHypothesis further, List.map_cons]
  · rw [if_neg present, update_of_absent present, List.map_append]
    rfl

theorem keys_tables (d : Dictionary) : ((d.filterMap table?).map (·.1)).Sublist (d.map (·.1)) := by
  induction d with
  | nil => exact .slnil
  | cons entry d inductionHypothesis =>
    obtain ⟨category, value⟩ := entry
    cases value with
    | dictionary entries => exact inductionHypothesis.cons_cons category
    | _ => exact inductionHypothesis.cons category

theorem mem_categories {r : Resources} {category : String} (filled : r.entries category ≠ []) :
    (category, r.entries category) ∈ r.categories := by
  unfold entries at filled ⊢
  cases found : r.categories.lookup category with
  | none => simp [found] at filled
  | some entries => exact Object.mem_of_lookup found

theorem mem_toDictionary {r : Resources} {category : String} {value : Object} :
    (category, value) ∈ r.toDictionary ↔
      ∃ entries, (category, entries) ∈ r.categories ∧ entries ≠ [] ∧ value = .dictionary entries := by
  unfold toDictionary
  simp only [List.mem_map, List.mem_filter]
  constructor
  · rintro ⟨⟨_, entries⟩, ⟨member, filled⟩, rfl, rfl⟩
    exact ⟨entries, member, by simpa using filled, rfl⟩
  · rintro ⟨entries, member, filled, rfl⟩
    exact ⟨(category, entries), ⟨member, by simpa using filled⟩, rfl⟩

namespace Reachable

variable {r : Resources}

theorem nodup_categories (reachable : r.Reachable) : (r.categories.map (·.1)).Nodup := by
  induction reachable with
  | @loaded d proper =>
    rw [categories_ofEntries proper]
    exact (Object.isProper_dictionary.mp proper).1.sublist (keys_tables d)
  | @added r _ kind object _ inductionHypothesis =>
    rcases add_cases r kind object with ⟨_, _, added, _, _⟩ | added
    · rw [added]
      exact inductionHypothesis
    · rw [added, bind, keys_update]
      split
      · exact inductionHypothesis
      · next absent => exact nodup_append_one inductionHypothesis absent

theorem entries_of_mem (reachable : r.Reachable) {category : String} {entries : Dictionary}
    (member : (category, entries) ∈ r.categories) : r.entries category = entries := by
  rw [Resources.entries, Dictionary.lookup_of_mem reachable.nodup_categories member, Option.getD_some]

theorem isProper_toDictionary (reachable : r.Reachable) :
    Object.isProper (.dictionary r.toDictionary) = true := by
  refine Object.isProper_dictionary.mpr ⟨?_, ?_⟩
  · have keys : r.toDictionary.map (·.1) = (r.categories.filter (!·.2.isEmpty)).map (·.1) := by
      simp [toDictionary]
    rw [Dictionary.Distinct, keys]
    exact reachable.nodup_categories.sublist (List.filter_sublist.map _)
  · rintro ⟨category, value⟩ member
    obtain ⟨entries, among, -, rfl⟩ := mem_toDictionary.mp member
    rw [← reachable.entries_of_mem among]
    exact Object.isProper_dictionary.mpr ⟨reachable.distinct category,
      fun entry => Object.isProper_of_mem (reachable.proper category)⟩

/-- What was saved and loaded again binds the same names to the same objects. -/
theorem entries_perm (reachable : r.Reachable) {saved : Dictionary}
    (order : r.toDictionary.Reordered saved) (category : String) :
    (r.entries category).Perm ((ofEntries saved).entries category) := by
  have properSaved := order.isProper reachable.isProper_toDictionary
  have reloaded : (ofEntries saved).Reachable := .loaded properSaved
  by_cases filled : r.entries category = []
  · -- a table that was loaded is one that was saved, and so has names
    rw [filled]
    apply List.Perm.of_eq
    refine Classical.byContradiction fun bound => ?_
    have loaded := (mem_categories_ofEntries properSaved).mp (mem_categories (Ne.symm bound))
    obtain ⟨object, member, -⟩ := order.exists_before loaded
    obtain ⟨entries, among, named, -⟩ := mem_toDictionary.mp member
    exact named ((reachable.entries_of_mem among).symm.trans filled)
  · -- a table with names is saved, and found among what is loaded with its entries in some order
    have member := mem_toDictionary.mpr ⟨_, mem_categories filled, filled, rfl⟩
    obtain ⟨moved, present, reordered⟩ :=
      order.exists_after (Object.isProper_dictionary.mp reachable.isProper_toDictionary).1 member
    cases reordered with
    | refl => rw [reloaded.entries_of_mem ((mem_categories_ofEntries properSaved).mpr present)]
    | dictionary moved =>
      rw [reloaded.entries_of_mem ((mem_categories_ofEntries properSaved).mpr present)]
      exact moved

end Reachable

/-! ## Names after loading -/

/-- In no category two names stand for equal objects. -/
def BindsOnce (r : Resources) : Prop := ∀ category, (r.entries category).BindsOnce

/-- The same names for the same objects, in whatever order. -/
def Alike (r other : Resources) : Prop :=
  ∀ category, (r.entries category).Perm (other.entries category)

/-- The names that one object after another gets. -/
def namesOf (r : Resources) : List (ResourceKind × Object) → List String
  | [] => []
  | (kind, object) :: requests => (r.add kind object).1 :: (r.add kind object).2.namesOf requests

theorem freshName_perm (kind : ResourceKind) {entries others : Dictionary} (order : entries.Perm others) :
    freshName kind entries = freshName kind others := by
  have taken (name : String) : (entries.get? name).isSome = (others.get? name).isSome := by
    rw [Bool.eq_iff_iff, ← not_iff_not]
    simp [Dictionary.get?_eq_none_iff, (order.map _).mem_iff]
  simp only [freshName, taken, order.length_eq]

/-- The name that is found does not depend on the order where no other name would do. -/
theorem nameOf?_perm {entries others : Dictionary} (order : entries.Perm others)
    (proper : Object.entriesAreProper entries = true)
    (once : entries.BindsOnce) {object : Object} (properObject : object.isProper = true) :
    nameOf? entries object = nameOf? others object := by
  cases found : nameOf? entries object with
  | none =>
    rw [eq_comm, nameOf?_eq_none]
    rw [nameOf?_eq_none] at found
    rintro ⟨entry, member, equal⟩
    exact found ⟨entry, order.mem_iff.mpr member, equal⟩
  | some name =>
    obtain ⟨bound, member, equal⟩ := nameOf?_eq_some found
    cases again : nameOf? others object with
    | none => exact absurd ⟨_, order.mem_iff.mp member, equal⟩ (nameOf?_eq_none.mp again)
    | some other =>
      obtain ⟨otherBound, otherMember, otherEqual⟩ := nameOf?_eq_some again
      -- both entries equal the object, and so each other
      have further := order.mem_iff.mpr otherMember
      have back := Object.same_symm (Object.isProper_of_mem proper further) properObject otherEqual
      exact congrArg some (once _ member _ further (Object.same_trans equal back))

theorem Alike.add {r other : Resources} (alike : r.Alike other) (proper : r.Proper) (once : r.BindsOnce)
    (kind : ResourceKind) {object : Object} (properObject : object.isProper = true) :
    (r.add kind object).1 = (other.add kind object).1 ∧
      (r.add kind object).2.Alike (other.add kind object).2 := by
  have order := alike kind.category
  have names := nameOf?_perm order (proper _) (once _) properObject
  cases found : nameOf? (r.entries kind.category) object with
  | some name =>
    rw [add_of_nameOf? found, add_of_nameOf? (names.symm.trans found)]
    exact ⟨rfl, alike⟩
  | none =>
    rw [add_of_unnamed found, add_of_unnamed (names.symm.trans found), freshName_perm kind order]
    refine ⟨rfl, fun category => ?_⟩
    rw [entries_bind, entries_bind]
    split
    · exact order.append_right _
    · exact alike category

theorem bindsOnce_add {r : Resources} (proper : r.Proper) (once : r.BindsOnce) (kind : ResourceKind)
    {object : Object} (properObject : object.isProper = true) : (r.add kind object).2.BindsOnce := by
  cases found : nameOf? (r.entries kind.category) object with
  | some name =>
    rw [add_of_nameOf? found]
    exact once
  | none =>
    rw [add_of_unnamed found]
    intro category
    rw [entries_bind]
    split
    · have each := Object.entriesAreProper_iff.mp (proper kind.category)
      exact (once kind.category).append_one each properObject (nameOf?_eq_none.mp found) _
    · exact once category

theorem Alike.namesOf {r other : Resources} (alike : r.Alike other) (proper : r.Proper)
    (once : r.BindsOnce) {requests : List (ResourceKind × Object)}
    (properRequests : ∀ request ∈ requests, request.2.isProper = true) :
    other.namesOf requests = r.namesOf requests := by
  induction requests generalizing r other with
  | nil => rfl
  | cons request requests inductionHypothesis =>
    obtain ⟨first, others⟩ := List.forall_mem_cons.mp properRequests
    obtain ⟨kind, object⟩ := request
    obtain ⟨name, still⟩ := alike.add proper once kind first
    have further := inductionHypothesis still (proper_add proper kind first)
      (bindsOnce_add proper once kind first) others
    rw [Resources.namesOf, Resources.namesOf, name, further]

/-- Resources in which no two names of a category stand for equal objects, saved and loaded again in any
order, bind the same names to the same objects and give the same names from then on. And what is saved of a
dictionary that was loaded are its entries that are dictionaries and not empty. -/
theorem reloading_is_invisible :
    (∀ {r : Resources}, r.Reachable → r.BindsOnce →
      ∀ {saved : Dictionary}, r.toDictionary.Reordered saved →
        (∀ category, (r.entries category).Perm ((ofEntries saved).entries category)) ∧
          ∀ {later : List (ResourceKind × Object)}, (∀ request ∈ later, request.2.isProper = true) →
            (ofEntries saved).namesOf later = r.namesOf later) ∧
      ∀ {d other : Dictionary}, Object.isProper (.dictionary d) = true → d.Reordered other →
        Dictionary.Reordered (d.filter isFilledTable) (ofEntries other).toDictionary := by
  refine ⟨fun reachable once saved order => ?_, fun proper order => ?_⟩
  · have alike := reachable.entries_perm order
    exact ⟨alike, Alike.namesOf alike reachable.proper once⟩
  · rw [toDictionary_ofEntries (order.isProper proper)]
    exact order.filter

/-- Two fonts, the second with the number after theirs, a category without names, and what is none. -/
def twoFonts : Dictionary :=
  [("Font", .dictionary [("F3", .reference ⟨1, 0⟩), ("F1", .real .nan)]), ("Pattern", .dictionary []),
    ("ProcSet", .array [.name "PDF"])]

theorem bindsOnce_of_categories {r : Resources} (each : ∀ table ∈ r.categories, table.2.BindsOnce) :
    r.BindsOnce := by
  intro category
  by_cases filled : r.entries category = []
  · rw [filled]
    exact fun _ member => by cases member
  · exact each _ (mem_categories filled)

/-- The fonts change places when they are loaded again, and keep their names; those that come later get the
same new ones. -/
theorem reloaded_fonts_keep_their_names :
    let saved := [("Font", Object.dictionary [("F1", .real .nan), ("F3", .reference ⟨1, 0⟩)])]
    let later := [(ResourceKind.font, Object.reference ⟨1, 0⟩), (.font, .real .nan), (.pattern, .null)]
    (ofEntries twoFonts).toDictionary.Reordered saved ∧
      (ofEntries twoFonts).namesOf later = ["F3", "F4", "p1"] ∧
      (ofEntries saved).namesOf later = ["F3", "F4", "p1"] ∧
      Dictionary.Reordered (twoFonts.filter isFilledTable) (ofDictionary twoFonts).toDictionary := by
  intro saved later
  have order : (ofEntries twoFonts).toDictionary.Reordered saved :=
    ⟨_, .refl _, .cons ⟨rfl, .dictionary (.swap ..)⟩ .nil⟩
  have names : (ofEntries twoFonts).namesOf later = ["F3", "F4", "p1"] := by decide +kernel
  obtain ⟨reloading, saving⟩ := reloading_is_invisible
  have each : ∀ table ∈ (ofEntries twoFonts).categories, table.2.BindsOnce := by
    unfold Dictionary.BindsOnce
    decide +kernel
  obtain ⟨-, same⟩ := reloading (.loaded rfl) (bindsOnce_of_categories each) order
  refine ⟨order, names, (same (by decide)).trans names, ?_⟩
  obtain ⟨other, moved, loaded⟩ := exists_ofEntries twoFonts
  rw [loaded]
  exact saving rfl moved

end Resources

end PdfCanvas
