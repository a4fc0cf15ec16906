import Mathlib.Data.List.Induction
import Mathlib.Data.List.Sort
import PdfCanvas.Font.Subsets

/-!
# What is recorded of the use of fonts

Fonts are selected, and texts are shown in them. What the registered fonts are after such uses can be told
without going through them one by one: each object that is to be cut down is there once, in the order of the
first selections and under the name that it had then, with the set of all characters shown in it. The name
of the cut-down font depends on no more than that.
-/

namespace PdfCanvas

/-- What is done with a font. -/
inductive FontUse where
  | selected (font : Font)
  | shown (font : Font) (text : String)

/-- The selections of fonts that are to be cut down. -/
def registrations (uses : List FontUse) : List Font :=
  uses.filterMap fun
    | .selected font => if font.subset then some font else none
    | .shown _ _ => none

/-- The code points of all texts shown in a font that is to be cut down and is a given object. -/
def shownPoints (uses : List FontUse) (target : Ref) : List Nat :=
  uses.flatMap fun
    | .shown font text =>
      if font.subset ∧ font.target = target then text.toList.map Char.toNat else []
    | .selected _ => []

/-- The name that an object had when it was first selected to be cut down. -/
def firstName? (uses : List FontUse) (target : Ref) : Option String :=
  ((registrations uses).find? (·.target = target)).map (·.baseName)

/-- A text is only shown in a font that was selected before. -/
def Prepared (uses : List FontUse) : Prop :=
  ∀ before font text after, uses = before ++ .shown font text :: after → .selected font ∈ before

/-! ## Lists of uses -/

section

variable {uses : List FontUse} {target : Ref}

theorem registrations_append (first second : List FontUse) :
    registrations (first ++ second) = registrations first ++ registrations second :=
  List.filterMap_append

theorem mem_registrations {font : Font} :
    font ∈ registrations uses ↔ .selected font ∈ uses ∧ font.subset = true := by
  rw [registrations, List.mem_filterMap]
  constructor
  · rintro ⟨use, member, made⟩
    cases use with
    | shown => cases made
    | selected other =>
      dsimp only at made
      split at made
      · rename_i isSubset
        obtain rfl := Option.some.inj made
        exact ⟨member, isSubset⟩
      · cases made
  · rintro ⟨member, isSubset⟩
    exact ⟨_, member, if_pos isSubset⟩

theorem shownPoints_append (first second : List FontUse) (target : Ref) :
    shownPoints (first ++ second) target = shownPoints first target ++ shownPoints second target :=
  List.flatMap_append

theorem shownPoints_singleton {font : Font} {text : String} :
    shownPoints [.shown font text] target =
      if font.subset ∧ font.target = target then text.toList.map Char.toNat else [] := by
  rw [shownPoints, List.flatMap_cons, List.flatMap_nil, List.append_nil]

theorem mem_shownPoints {point : Nat} :
    point ∈ shownPoints uses target ↔
      ∃ font text char, .shown font text ∈ uses ∧ font.subset = true ∧ font.target = target ∧
        char ∈ text.toList ∧ char.toNat = point := by
  rw [shownPoints, List.mem_flatMap]
  constructor
  · rintro ⟨use, member, listed⟩
    cases use with
    | selected => cases listed
    | shown font text =>
      dsimp only at listed
      split at listed
      · rename_i about
        obtain ⟨char, among, rfl⟩ := List.mem_map.mp listed
        exact ⟨font, text, char, member, about.1, about.2, among, rfl⟩
      · cases listed
  · rintro ⟨font, text, char, member, isSubset, about, among, rfl⟩
    refine ⟨_, member, ?_⟩
    dsimp only
    rw [if_pos ⟨isSubset, about⟩]
    exact List.mem_map_of_mem among

/-- The name of an object stays the one that it had first. -/
theorem firstName?_append (first second : List FontUse) (target : Ref) :
    firstName? (first ++ second) target = (firstName? first target).or (firstName? second target) := by
  rw [firstName?, registrations_append, List.find?_append, Option.map_or]
  rfl

theorem firstName?_isSome :
    (firstName? uses target).isSome = true ↔ target ∈ (registrations uses).map (·.target) := by
  rw [firstName?, Option.isSome_map, List.find?_isSome, List.mem_map]
  simp only [decide_eq_true_eq]

theorem Prepared.nil : Prepared [] := by
  intro before font text after split
  cases List.append_eq_nil_iff.mp split.symm with
  | intro _ absurd => cases absurd

theorem Prepared.snoc (prepared : Prepared uses) {use : FontUse}
    (selected : ∀ font text, use = .shown font text → .selected font ∈ uses) :
    Prepared (uses ++ [use]) := by
  intro before font text after split
  rcases List.eq_nil_or_concat after with rfl | ⟨front, last, rfl⟩
  · obtain ⟨rfl, same⟩ := List.append_inj' split rfl
    exact selected font text (List.cons.inj same).1
  · rw [List.concat_eq_append, ← List.cons_append, ← List.append_assoc] at split
    exact prepared before font text front (List.append_inj' split rfl).1

theorem Prepared.init {use : FontUse} (prepared : Prepared (uses ++ [use])) :
    Prepared uses ∧ ∀ font text, use = .shown font text → .selected font ∈ uses := by
  constructor
  · rintro before font text after rfl
    exact prepared before font text (after ++ [use]) (by rw [List.append_assoc, List.cons_append])
  · rintro font text rfl
    exact prepared uses font text [] rfl

theorem Prepared.append {first second : List FontUse} (preparedFirst : Prepared first)
    (preparedSecond : Prepared second) : Prepared (first ++ second) := by
  intro before font text after split
  rcases List.append_eq_append_iff.mp split with ⟨more, rfl, later⟩ | ⟨more, rfl, later⟩
  · exact List.mem_append_right first (preparedSecond more font text after later)
  · -- the text is the last of the first uses or stands before it
    cases more with
    | nil => exact absurd (preparedSecond [] font text after later.symm) List.not_mem_nil
    | cons use rest =>
      obtain ⟨rfl, -⟩ := List.cons.inj later
      exact preparedFirst before font text rest rfl

/-- Without a selection of an object nothing is shown in it. -/
theorem shownPoints_of_unregistered (prepared : Prepared uses)
    (unregistered : target ∉ (registrations uses).map (·.target)) : shownPoints uses target = [] := by
  rw [List.eq_nil_iff_forall_not_mem]
  intro point listed
  obtain ⟨font, text, char, member, isSubset, rfl, -, -⟩ := mem_shownPoints.mp listed
  obtain ⟨before, after, split⟩ := List.append_of_mem member
  have selected : .selected font ∈ uses := by
    rw [split]
    exact List.mem_append_left _ (prepared before font text after split)
  exact unregistered (List.mem_map_of_mem (mem_registrations.mpr ⟨selected, isSubset⟩))

end

/-- What comes last is kept if it has not been there before. -/
theorem eraseDups_snoc (targets : List Ref) (target : Ref) :
    (targets ++ [target]).eraseDups =
      if target ∈ targets then targets.eraseDups else targets.eraseDups ++ [target] := by
  rw [List.eraseDups_append]
  split
  · rename_i known
    have nothing : [target].removeAll targets = [] := by
      rw [List.removeAll, List.filter_cons_of_neg (by simpa using known), List.filter_nil]
    rw [nothing, List.eraseDups_nil, List.append_nil]
  · rename_i new
    have all : [target].removeAll targets = [target] := by
      rw [List.removeAll, List.filter_cons_of_pos (by simpa using new), List.filter_nil]
    rw [all, List.eraseDups_cons, List.filter_nil, List.eraseDups_nil]

/-! ## Sets of code points -/

/-- Adds the numbers of a list to an ascending list. -/
def insertAll (points set : List Nat) : List Nat :=
  points.foldl (fun set point => insertAscending point set) set

/-- The ascending list of the numbers in a list. -/
def ascending (points : List Nat) : List Nat := insertAll points []

theorem mem_insertAscending {point other : Nat} {set : List Nat} :
    other ∈ insertAscending point set ↔ other = point ∨ other ∈ set := by
  induction set with
  | nil => simp [insertAscending]
  | cons head rest inductionHypothesis =>
    rw [insertAscending]
    split
    · exact List.mem_cons
    · split
      · rename_i same
        rw [List.mem_cons, same]
        tauto
      · rw [List.mem_cons, List.mem_cons, inductionHypothesis]
        tauto

theorem pairwise_insertAscending (point : Nat) {set : List Nat} (sorted : set.Pairwise (· < ·)) :
    (insertAscending point set).Pairwise (· < ·) := by
  induction set with
  | nil => exact List.pairwise_singleton _ point
  | cons head rest inductionHypothesis =>
    obtain ⟨least, sortedRest⟩ := List.pairwise_cons.mp sorted
    rw [insertAscending]
    split
    · rename_i below
      refine List.pairwise_cons.mpr ⟨fun other member => ?_, sorted⟩
      rcases List.mem_cons.mp member with rfl | later
      · exact below
      · exact below.trans (least other later)
    · split
      · exact sorted
      · refine List.pairwise_cons.mpr ⟨fun other member => ?_, inductionHypothesis sortedRest⟩
        rcases mem_insertAscending.mp member with rfl | later
        · omega
        · exact least other later

theorem ascending_append (first second : List Nat) :
    ascending (first ++ second) = insertAll second (ascending first) :=
  List.foldl_append

theorem mem_ascending {point : Nat} {points : List Nat} : point ∈ ascending points ↔ point ∈ points := by
  induction points using List.reverseRecOn with
  | nil => rfl
  | append_singleton points last inductionHypothesis =>
    rw [ascending_append, insertAll, List.foldl_cons, List.foldl_nil, mem_insertAscending,
      inductionHypothesis, List.mem_append, List.mem_singleton, or_comm]

theorem pairwise_ascending (points : List Nat) : (ascending points).Pairwise (· < ·) := by
  induction points using List.reverseRecOn with
  | nil => exact .nil
  | append_singleton points last inductionHypothesis =>
    rw [ascending_append]
    exact pairwise_insertAscending last inductionHypothesis

/-- The same numbers, in whatever order and however often, make the same list. -/
theorem ascending_congr {first second : List Nat} (same : ∀ point, point ∈ first ↔ point ∈ second) :
    ascending first = ascending second := by
  refine (pairwise_ascending first).eq_of_mem_iff (pairwise_ascending second) fun point => ?_
  rw [mem_ascending, mem_ascending, same]

/-! ## Recording -/

namespace Subsets

/-- Takes note of a use. -/
def record (s : Subsets) : FontUse → Subsets
  | .selected font => if font.subset then s.register font else s
  | .shown font text => if font.subset then s.addText font text else s

/-- What uses come to: the objects in the order of their first selections, each with its first name and all
code points shown in it. -/
def ofUses (uses : List FontUse) : Subsets :=
  ⟨((registrations uses).map (·.target)).eraseDups.map fun target =>
    ⟨target, (firstName? uses target).getD "", ascending (shownPoints uses target)⟩⟩

theorem isRegistered_eq (s : Subsets) (font : Font) :
    s.isRegistered font = true ↔ font.target ∈ s.entries.map (·.target) := by
  rw [isRegistered, find?, List.find?_isSome, List.mem_map]
  simp only [decide_eq_true_eq]

theorem targets_ofUses (uses : List FontUse) :
    (ofUses uses).entries.map (·.target) = ((registrations uses).map (·.target)).eraseDups := by
  rw [ofUses, List.map_map]
  exact List.map_id _

theorem isRegistered_ofUses {uses : List FontUse} {font : Font} :
    (ofUses uses).isRegistered font = true ↔ font.target ∈ (registrations uses).map (·.target) := by
  rw [isRegistered_eq, targets_ofUses, List.mem_eraseDups]

/-- Recording a text changes the entry of its font, which is there. -/
theorem addText_of_isRegistered {s : Subsets} {font : Font} (registered : s.isRegistered font = true)
    (text : String) :
    s.addText font text =
      ⟨s.entries.map fun entry =>
        if entry.target = font.target then
          { entry with points := insertAll (text.toList.map Char.toNat) entry.points }
        else entry⟩ := by
  rw [addText]
  induction text.toList generalizing s with
  | nil => simp [insertAll]
  | cons char chars inductionHypothesis =>
    have added : s.addPoint font char.toNat =
        ⟨s.entries.map fun entry =>
          if entry.target = font.target then
            { entry with points := insertAscending char.toNat entry.points }
          else entry⟩ := by
      rw [addPoint, register, if_pos registered]
    have kept : (s.addPoint font char.toNat).isRegistered font = true := by
      rw [isRegistered_eq, List.mem_map] at registered ⊢
      obtain ⟨entry, member, same⟩ := registered
      rw [added]
      exact ⟨_, List.mem_map_of_mem member, by rw [if_pos same]; exact same⟩
    rw [List.foldl_cons, inductionHypothesis kept, added, List.map_map]
    congr 1
    refine List.map_congr_left fun entry _ => ?_
    by_cases same : entry.target = font.target
    · simp [same, insertAll]
    · simp [same]

/-- A use that is no selection of a font that is to be cut down leaves the objects and names. -/
theorem ofUses_snoc_of_unregistering {uses : List FontUse} {use : FontUse}
    (unregistering : registrations [use] = []) :
    ofUses (uses ++ [use]) =
      ⟨((registrations uses).map (·.target)).eraseDups.map fun target =>
        ⟨target, (firstName? uses target).getD "",
          insertAll (shownPoints [use] target) (ascending (shownPoints uses target))⟩⟩ := by
  have names (target : Ref) : firstName? (uses ++ [use]) target = firstName? uses target := by
    rw [firstName?_append, firstName?, firstName?, unregistering]
    exact Option.or_none
  rw [ofUses, registrations_append, unregistering, List.append_nil]
  simp only [names, shownPoints_append, ascending_append]

theorem record_shown {uses : List FontUse} {font : Font} (text : String)
    (selected : .selected font ∈ uses) :
    (ofUses uses).record (.shown font text) = ofUses (uses ++ [.shown font text]) := by
  rw [ofUses_snoc_of_unregistering rfl, record]
  by_cases isSubset : font.subset = true
  · have registered : (ofUses uses).isRegistered font = true :=
      isRegistered_ofUses.mpr (List.mem_map_of_mem (mem_registrations.mpr ⟨selected, isSubset⟩))
    rw [if_pos isSubset, addText_of_isRegistered registered, ofUses, List.map_map]
    congr 1
    refine List.map_congr_left fun target _ => ?_
    by_cases about : font.target = target
    · simp [about, isSubset, shownPoints_singleton]
    · simp [about, Ne.symm about, shownPoints_singleton, insertAll]
  · rw [if_neg isSubset, ofUses]
    congr 1
    refine List.map_congr_left fun target _ => ?_
    simp [isSubset, shownPoints_singleton, insertAll]

/-- Selecting a font again changes nothing; the first selection adds an entry without code points. -/
theorem record_selected {uses : List FontUse} (prepared : Prepared uses) (font : Font) :
    (ofUses uses).record (.selected font) = ofUses (uses ++ [.selected font]) := by
  by_cases isSubset : font.subset = true
  · have selection : registrations [.selected font] = [font] := by simp [registrations, isSubset]
    have targets : (registrations (uses ++ [.selected font])).map (·.target) =
        (registrations uses).map (·.target) ++ [font.target] := by
      rw [registrations_append, selection, List.map_append]
      rfl
    have points (target : Ref) :
        shownPoints (uses ++ [.selected font]) target = shownPoints uses target := by
      rw [shownPoints_append]
      exact List.append_nil _
    -- the objects that are registered already keep their names and code points
    have kept : (ofUses uses).entries =
        ((registrations uses).map (·.target)).eraseDups.map fun target =>
          ⟨target, (firstName? (uses ++ [.selected font]) target).getD "",
            ascending (shownPoints (uses ++ [.selected font]) target)⟩ := by
      refine List.map_congr_left fun target member => ?_
      obtain ⟨name, first⟩ := Option.isSome_iff_exists.mp
        (firstName?_isSome.mpr (List.mem_eraseDups.mp member))
      rw [firstName?_append, first, Option.some_or, points]
    rw [record, if_pos isSubset, register, ofUses.eq_1 (uses ++ _), targets, eraseDups_snoc]
    by_cases known : font.target ∈ (registrations uses).map (·.target)
    · rw [if_pos (isRegistered_ofUses.mpr known), if_pos known, ← kept]
    · have unnamed : firstName? uses font.target = none := by
        rw [← Option.not_isSome_iff_eq_none]
        exact mt firstName?_isSome.mp known
      have named : firstName? [.selected font] font.target = some font.baseName := by
        simp [firstName?, selection]
      rw [if_neg (mt isRegistered_ofUses.mp known), if_neg known, List.map_append, List.map_singleton,
        firstName?_append uses _ font.target, unnamed, named, points font.target,
        shownPoints_of_unregistered prepared known, kept]
      rfl
  · rw [ofUses_snoc_of_unregistering (by simp [registrations, isSubset]), record, if_neg isSubset]
    rfl

/-- Recording the uses one by one comes to what they come to altogether. -/
theorem foldl_record {uses : List FontUse} (prepared : Prepared uses) :
    uses.foldl record empty = ofUses uses := by
  -- By induction on the uses made so far; the last one finds what the others come to.
  induction uses using List.reverseRecOn with
  | nil => rfl
  | append_singleton uses use inductionHypothesis =>
    obtain ⟨preparedSoFar, selected⟩ := prepared.init
    rw [List.foldl_append, inductionHypothesis preparedSoFar, List.foldl_cons, List.foldl_nil]
    cases use with
    | selected font => exact record_selected preparedSoFar font
    | shown font text => exact record_shown text (selected font text rfl)

/-! ## What is on record -/

/-- Exactly what was done with fonts that are to be cut down is on record. -/
structure Records (collected : Subsets) (uses : List FontUse) : Prop where
  /-- The objects stand in the order of their first selections. -/
  order : collected.entries.map (·.target) = ((registrations uses).map (·.target)).eraseDups
  /-- A font is registered if and only if one with its object was selected to be cut down. -/
  registered (font : Font) : collected.isRegistered font = true ↔
    ∃ selected, .selected selected ∈ uses ∧ selected.subset = true ∧ selected.target = font.target
  /-- The code points of an entry are those of the texts shown, in ascending order. -/
  points (entry : SubsetEntry) (member : entry ∈ collected.entries) :
    entry.points.Pairwise (· < ·) ∧ ∀ point, point ∈ entry.points ↔
      ∃ font text char, .shown font text ∈ uses ∧ font.subset = true ∧ font.target = entry.target ∧
        char ∈ text.toList ∧ char.toNat = point
  /-- The name of a cut-down font is made of its code points and the name it had first. -/
  name (font : Font) : collected.subsetName? font =
    (firstName? uses font.target).map fun baseName =>
      SubsetEntry.tag (ascending (shownPoints uses font.target)) ++ "+" ++ baseName

theorem subsetName?_ofUses (uses : List FontUse) (font : Font) :
    (ofUses uses).subsetName? font =
      (firstName? uses font.target).map fun baseName =>
        SubsetEntry.tag (ascending (shownPoints uses font.target)) ++ "+" ++ baseName := by
  by_cases known : font.target ∈ (registrations uses).map (·.target)
  · obtain ⟨baseName, first⟩ := Option.isSome_iff_exists.mp (firstName?_isSome.mpr known)
    have found : ((registrations uses).map (·.target)).eraseDups.find? (· = font.target) =
        some font.target := by
      obtain ⟨target, found⟩ : ∃ target,
          ((registrations uses).map (·.target)).eraseDups.find? (· = font.target) = some target := by
        rw [← Option.isSome_iff_exists, List.find?_isSome]
        exact ⟨font.target, List.mem_eraseDups.mpr known, decide_eq_true rfl⟩
      have same : target = font.target := by simpa using List.find?_some found
      rw [found, same]
    rw [subsetName?, find?, ofUses, List.find?_map, Option.map_map]
    refine (congrArg (Option.map _) found).trans ?_
    rw [first]
    simp only [Option.map_some, Function.comp_apply, SubsetEntry.name, first, Option.getD_some]
  · have unnamed : firstName? uses font.target = none := by
      rw [← Option.not_isSome_iff_eq_none]
      exact mt firstName?_isSome.mp known
    have unregistered : (ofUses uses).find? font = none := by
      rw [← Option.not_isSome_iff_eq_none]
      exact mt isRegistered_ofUses.mp known
    rw [subsetName?, unregistered, unnamed]
    rfl

theorem records_ofUses (uses : List FontUse) : (ofUses uses).Records uses where
  order := targets_ofUses uses
  registered font := by
    rw [isRegistered_ofUses, List.mem_map]
    simp only [mem_registrations, and_assoc]
  points entry member := by
    obtain ⟨target, -, rfl⟩ := List.mem_map.mp member
    exact ⟨pairwise_ascending _, fun point => mem_ascending.trans mem_shownPoints⟩
  name := subsetName?_ofUses uses

/-- The name of a cut-down font depends on the set of the code points shown and on the first name alone. -/
theorem Records.subsetName?_congr {collected others : Subsets} {uses otherUses : List FontUse}
    (records : collected.Records uses) (otherRecords : others.Records otherUses) {font : Font}
    (samePoints : ∀ point,
      point ∈ shownPoints uses font.target ↔ point ∈ shownPoints otherUses font.target)
    (sameName : firstName? uses font.target = firstName? otherUses font.target) :
    collected.subsetName? font = others.subsetName? font := by
  rw [records.name, otherRecords.name, sameName, ascending_congr samePoints]

end Subsets

end PdfCanvas
