import Mathlib.Data.List.Find
import PdfCanvas.Proofs.Objects.Equality

/-!
# Names shared by equal objects

Two objects of one category get the same name exactly when they are equal, whatever was named before and
between them, and a name once given goes on standing for the same object. What makes this so is that
equality, where it holds at all, holds in both directions and is passed on, so that the first entry that
equals one object is the first that equals the other, and that entries are only ever added behind those
that are there. Dictionaries are taken to have distinct keys throughout.
-/

namespace PdfCanvas.Resources

/-! ## Distinct keys in what is bound -/

/-- All bound objects have distinct keys in their dictionaries. -/
def Proper (r : Resources) : Prop :=
  ∀ category, Object.entriesAreProper (r.entries category) = true

theorem entriesAreProper_append {entries others : Dictionary}
    (proper : Object.entriesAreProper entries = true)
    (properOthers : Object.entriesAreProper others = true) :
    Object.entriesAreProper (entries ++ others) = true := by
  rw [Object.entriesAreProper_iff] at proper properOthers ⊢
  intro entry member
  rcases List.mem_append.mp member with first | second
  · exact proper entry first
  · exact properOthers entry second

theorem proper_add {r : Resources} (proper : r.Proper) (kind : ResourceKind) {object : Object}
    (properObject : object.isProper = true) : (r.add kind object).2.Proper := by
  rcases add_cases r kind object with ⟨name, bound, added, _, _⟩ | added
  · rw [added]
    exact proper
  · rw [added]
    intro other
    rw [entries_bind]
    by_cases same : other = kind.category
    · rw [if_pos same]
      refine entriesAreProper_append (proper kind.category) ?_
      simp [Object.entriesAreProper, Object.entryIsProper, properObject]
    · rw [if_neg same]
      exact proper other

theorem entriesAreProper_insert {d : Dictionary} (proper : Object.entriesAreProper d = true)
    (key : String) {value : Object} (properValue : value.isProper = true) :
    Object.entriesAreProper (d.insert key value) = true := by
  induction d with
  | nil => simpa [Dictionary.insert, Object.entriesAreProper, Object.entryIsProper] using properValue
  | cons entry d inductionHypothesis =>
    obtain ⟨first, object⟩ := entry
    simp only [Object.entriesAreProper, Object.entryIsProper, Bool.and_eq_true] at proper
    unfold Dictionary.insert
    split
    · simp [Object.entriesAreProper, Object.entryIsProper, properValue, proper.2]
    · simp [Object.entriesAreProper, Object.entryIsProper, proper.1, inductionHypothesis proper.2]

theorem entriesAreProper_load {table entries : Dictionary}
    (proper : Object.entriesAreProper table = true)
    (properEntries : Object.entriesAreProper entries = true) :
    Object.entriesAreProper (load table entries) = true := by
  unfold load
  induction entries generalizing table with
  | nil => exact proper
  | cons entry entries inductionHypothesis =>
    have properEntry : entry.2.isProper = true :=
      Object.isProper_of_mem properEntries List.mem_cons_self
    simp only [Object.entriesAreProper, Bool.and_eq_true] at properEntries
    exact inductionHypothesis (entriesAreProper_insert proper entry.1 properEntry) properEntries.2

theorem proper_loadCategory {r : Resources} (proper : r.Proper) {entry : String × Object}
    (properEntry : entry.2.isProper = true) : (r.loadCategory entry).Proper := by
  obtain ⟨category, value⟩ := entry
  cases value with
  | dictionary entries =>
    simp only [Object.isProper, Bool.and_eq_true] at properEntry
    intro other
    unfold loadCategory
    rw [entries_update]
    by_cases same : other = category
    · rw [if_pos same]
      exact entriesAreProper_load (proper category) properEntry.2
    · rw [if_neg same]
      exact proper other
  | _ => exact proper

theorem proper_ofEntries {dictionary : Dictionary}
    (proper : Object.isProper (.dictionary dictionary) = true) : (ofEntries dictionary).Proper := by
  have loaded : ∀ (entries : Dictionary) (r : Resources),
      Object.entriesAreProper entries = true → r.Proper → (entries.foldl loadCategory r).Proper := by
    -- The keys of the dictionary itself play no part: a category may come twice.
    intro entries
    induction entries with
    | nil => exact fun _ _ proper => proper
    | cons entry entries inductionHypothesis =>
      intro r properEntries proper
      have properEntry : entry.2.isProper = true :=
        Object.isProper_of_mem properEntries List.mem_cons_self
      simp only [Object.entriesAreProper, Bool.and_eq_true] at properEntries
      exact inductionHypothesis _ properEntries.2 (proper_loadCategory proper properEntry)
  simp only [Object.isProper, Bool.and_eq_true] at proper
  exact loaded dictionary empty proper.2 fun _ => rfl

/-! ## What is found for an object -/

theorem nameOf?_eq_none {entries : Dictionary} {object : Object} :
    nameOf? entries object = none ↔ ¬ ∃ entry ∈ entries, entry.2.same object = true := by
  simp [nameOf?]

theorem nameOf?_append {entries : Dictionary} {object : Object} {name : String}
    (found : nameOf? entries object = some name) (others : Dictionary) :
    nameOf? (entries ++ others) object = some name := by
  obtain ⟨entry, first, rfl⟩ := Option.map_eq_some_iff.mp found
  rw [nameOf?, List.find?_append, first]
  rfl

/-- The same entry is found for objects that are equal. -/
theorem nameOf?_congr (entries : Dictionary) {object other : Object}
    (properObject : object.isProper = true) (properOther : other.isProper = true)
    (equal : object.same other = true) : nameOf? entries object = nameOf? entries other := by
  unfold nameOf?
  congr 1
  apply List.find?_congr
  intro entry member
  rw [Bool.eq_iff_iff]
  constructor
  · intro first
    exact Object.same_trans first equal
  · intro second
    exact Object.same_trans second (Object.same_symm properObject properOther equal)

theorem add_of_nameOf? {r : Resources} {kind : ResourceKind} {object : Object} {name : String}
    (found : nameOf? (r.entries kind.category) object = some name) :
    r.add kind object = (name, r) := by
  simp only [add, found]

theorem add_of_unnamed {r : Resources} {kind : ResourceKind} {object : Object}
    (unnamed : nameOf? (r.entries kind.category) object = none) :
    r.add kind object = (freshName kind (r.entries kind.category),
      r.bind kind.category (freshName kind (r.entries kind.category)) object) := by
  simp only [add, unnamed]

/-- Once an object was named, its name is found for every object that equals it. -/
theorem nameOf?_add (r : Resources) (kind : ResourceKind) {object other : Object}
    (properObject : object.isProper = true) (properOther : other.isProper = true)
    (equal : object.same other = true) :
    nameOf? ((r.add kind object).2.entries kind.category) other = some (r.add kind object).1 := by
  have congr := nameOf?_congr (r.entries kind.category) properObject properOther equal
  cases found : nameOf? (r.entries kind.category) object with
  | some name =>
    rw [add_of_nameOf? found]
    exact congr.symm.trans found
  | none =>
    -- no earlier entry equals the other object, and the one that is added does
    have unfound := Option.map_eq_none_iff.mp (congr.symm.trans found)
    rw [add_of_unnamed found, entries_bind, if_pos rfl, nameOf?, List.find?_append, unfound]
    simp [equal]

/-! ## Runs -/

/-- The resources after one object after another was named. -/
def addAll (r : Resources) (requests : List (ResourceKind × Object)) : Resources :=
  requests.foldl (fun r request => (r.add request.1 request.2).2) r

/-- Resources that were loaded, in whatever order, and then added to. -/
inductive Reachable : Resources → Prop where
  | loaded {dictionary : Dictionary} (proper : Object.isProper (.dictionary dictionary) = true) :
      Reachable (ofEntries dictionary)
  | added {r : Resources} (reachable : Reachable r) (kind : ResourceKind) {object : Object}
      (proper : object.isProper = true) : Reachable (r.add kind object).2

namespace Reachable

variable {r : Resources}

theorem distinct (reachable : r.Reachable) : r.Distinct := by
  induction reachable with
  | loaded _ => exact distinct_ofEntries _
  | added _ kind _ inductionHypothesis => exact distinct_add inductionHypothesis kind _

theorem proper (reachable : r.Reachable) : r.Proper := by
  induction reachable with
  | loaded proper => exact proper_ofEntries proper
  | added _ kind proper inductionHypothesis => exact proper_add inductionHypothesis kind proper

theorem addAll (reachable : r.Reachable) {requests : List (ResourceKind × Object)}
    (proper : ∀ request ∈ requests, request.2.isProper = true) : (r.addAll requests).Reachable := by
  induction requests generalizing r with
  | nil => exact reachable
  | cons request requests inductionHypothesis =>
    have first := proper request List.mem_cons_self
    have others : ∀ other ∈ requests, other.2.isProper = true :=
      fun other member => proper other (List.mem_cons_of_mem request member)
    exact inductionHypothesis (reachable.added request.1 first) others

end Reachable

theorem prefix_add (r : Resources) (kind : ResourceKind) (object : Object) (category : String) :
    r.entries category <+: (r.add kind object).2.entries category := by
  rcases add_cases r kind object with ⟨_, _, added, _, _⟩ | added
  · rewrite [added]
    exact List.prefix_rfl
  · rw [added, entries_bind]
    split
    next same =>
      rw [same]
      exact List.prefix_append _ _
    · exact List.prefix_rfl

/-- Entries are only added behind those that are there. -/
theorem prefix_addAll (r : Resources) (requests : List (ResourceKind × Object)) (category : String) :
    r.entries category <+: (r.addAll requests).entries category := by
  induction requests generalizing r with
  | nil => exact List.prefix_rfl
  | cons request requests inductionHypothesis =>
    exact (prefix_add r request.1 request.2 category).trans (inductionHypothesis _)

theorem get?_addAll {r : Resources} {kind : ResourceKind} {name : String} {bound : Object}
    (found : r.get? kind name = some bound) (requests : List (ResourceKind × Object)) :
    (r.addAll requests).get? kind name = some bound := by
  obtain ⟨others, more⟩ := prefix_addAll r requests kind.category
  rw [get?, ← more, Dictionary.get?_append]
  exact Option.or_eq_some_iff.mpr (.inl found)

/-! ## One name for equal objects -/

theorem add_of_bound {r : Resources} {kind : ResourceKind} {object : Object}
    (bound : ∃ entry ∈ r.entries kind.category, entry.2.same object = true) :
    (r.add kind object).2 = r := by
  cases known : nameOf? (r.entries kind.category) object with
  | none => exact absurd bound (nameOf?_eq_none.mp known)
  | some _ => rw [add_of_nameOf? known]

theorem add_of_unbound {r : Resources} {kind : ResourceKind} {object : Object}
    (unbound : ¬ ∃ entry ∈ r.entries kind.category, entry.2.same object = true) :
    r.get? kind (r.add kind object).1 = none ∧
      ∀ category, (r.add kind object).2.entries category =
        if category = kind.category then r.entries kind.category ++ [((r.add kind object).1, object)]
        else r.entries category := by
  rw [add_of_unnamed (nameOf?_eq_none.mpr unbound)]
  exact ⟨freshName_fresh kind _, fun category => entries_bind r kind.category category _ object⟩

/-- An object that gets a name that is bound is found under it. -/
theorem same_of_bound {r : Resources} (distinct : r.Distinct) {kind : ResourceKind}
    {object bound : Object} (found : r.get? kind (r.add kind object).1 = some bound) :
    bound.same object = true := by
  rcases add_cases r kind object with ⟨name, first, added, member, equal⟩ | added
  · have only : r.get? kind name = some first := Dictionary.get?_of_mem (distinct kind.category) member
    rw [added, only] at found
    exact Option.some.inj found ▸ equal
  · rw [added, get?, freshName_fresh] at found
    cases found

/-- However much later an object of the category is named, it gets the name of the first exactly if both are
equal. -/
theorem same_name_iff {r : Resources} (reachable : r.Reachable) {kind otherKind : ResourceKind}
    {object other : Object} (proper : object.isProper = true) (properOther : other.isProper = true)
    {later : List (ResourceKind × Object)} (properLater : ∀ request ∈ later, request.2.isProper = true)
    (sameCategory : otherKind.category = kind.category) :
    ((((r.add kind object).2.addAll later).add otherKind other).1 = (r.add kind object).1 ↔
      object.same other = true) := by
  obtain ⟨bound, found, origin⟩ := bound_add reachable.distinct kind object
  have reached := (reachable.added kind proper).addAll properLater
  constructor
  · -- the name that both got stands for the same object when the other one is named
    intro sameName
    have stands : ((r.add kind object).2.addAll later).get? otherKind
        (((r.add kind object).2.addAll later).add otherKind other).1 = some bound := by
      rw [sameName, get?, sameCategory]
      exact get?_addAll found later
    have second := same_of_bound reached.distinct stands
    rcases origin with rfl | ⟨earlier, first⟩
    · exact second
    · have properBound := Object.isProper_of_mem (reachable.proper kind.category)
        (Object.mem_of_lookup earlier)
      exact Object.same_trans (Object.same_symm properBound proper first) second
  · -- the entry that stands for the first one is still the first that equals the other
    intro equal
    obtain ⟨others, more⟩ := prefix_addAll (r.add kind object).2 later kind.category
    have still := nameOf?_append (nameOf?_add r kind proper properOther equal) others
    rw [more, ← sameCategory] at still
    rw [add_of_nameOf? still]

/-- What an object is named after others changes nothing if an equal one is bound in its category, and
else adds one entry. Its name stands for the same object from then on, and another object of the category gets
this name, however much later, exactly if it is equal. -/
theorem equal_objects_share_their_name {r : Resources} (reachable : r.Reachable) (kind : ResourceKind)
    {object : Object} (proper : object.isProper = true) :
    let name := (r.add kind object).1
    let after := (r.add kind object).2
    ((∃ entry ∈ r.entries kind.category, entry.2.same object = true) → after = r) ∧
      ((¬ ∃ entry ∈ r.entries kind.category, entry.2.same object = true) →
        r.get? kind name = none ∧ ∀ category, after.entries category =
          if category = kind.category then r.entries kind.category ++ [(name, object)]
          else r.entries category) ∧
      (∃ bound, (bound = object ∨ r.get? kind name = some bound ∧ bound.same object = true) ∧
        ∀ later, (after.addAll later).get? kind name = some bound) ∧
      ∀ later, (∀ request ∈ later, request.2.isProper = true) →
        ∀ otherKind other, otherKind.category = kind.category → other.isProper = true →
          (((after.addAll later).add otherKind other).1 = name ↔ object.same other = true) ∧
            object.same other = other.same object := by
  intro name after
  obtain ⟨bound, found, origin⟩ := bound_add reachable.distinct kind object
  refine ⟨add_of_bound, add_of_unbound, ⟨bound, origin, get?_addAll found⟩, ?_⟩
  intro later properLater otherKind other sameCategory properOther
  have same := same_name_iff reachable proper properOther properLater sameCategory
  exact ⟨same, Object.same_comm proper properOther⟩

/-- Resources with one form, under the name with the number that would be next for an image. -/
def oneForm : Dictionary := [("XObject", .dictionary [("Im2", .reference ⟨1, 0⟩)])]

/-- A form gets the name of the image that is the same object, after forms that equal nothing. -/
theorem form_shares_the_name_of_an_image :
    let named := (ofEntries oneForm).add .image (.reference ⟨2, 0⟩)
    Object.isProper (.dictionary oneForm) = true ∧ named.1 = "Im3" ∧
      ((named.2.addAll [(.form, .real .nan), (.form, .real .nan)]).add .form (.reference ⟨2, 0⟩)).1 =
        named.1 := by
  have reachable : (ofEntries oneForm).Reachable := .loaded rfl
  refine ⟨rfl, rfl, ?_⟩
  obtain ⟨-, -, -, share⟩ :=
    @equal_objects_share_their_name _ reachable .image (.reference ⟨2, 0⟩) rfl
  have proper : ∀ request ∈ [(ResourceKind.form, Object.real .nan), (.form, .real .nan)],
      request.2.isProper = true := by decide
  obtain ⟨same, -⟩ := share _ proper .form (.reference ⟨2, 0⟩) rfl rfl
  exact same.mpr rfl

end PdfCanvas.Resources
