import PdfCanvas.Resources

/-!
# Names of resources

A name that is handed out is bound to the object it was asked for, or to one that equals it, and no name
is ever bound again: resources only grow. Both rest on the search for a free number, which tries one number
more than there are names.
-/

namespace PdfCanvas

theorem nodup_append_one {keys : List String} (distinct : keys.Nodup) {key : String}
    (absent : key ∉ keys) : (keys ++ [key]).Nodup := by
  rw [List.nodup_append]
  refine ⟨distinct, by simp, ?_⟩
  rintro first member second new rfl
  rw [List.mem_singleton.mp new] at member
  exact absent member

namespace Dictionary

/-- A key is bound once. -/
def Distinct (d : Dictionary) : Prop := (d.map (·.1)).Nodup

theorem get?_eq_none_iff {d : Dictionary} {key : String} :
    d.get? key = none ↔ key ∉ d.map (·.1) := by
  unfold get?
  rw [List.lookup_eq_none_iff]
  constructor
  · intro absent member
    obtain ⟨entry, among, rfl⟩ := List.mem_map.mp member
    have differs := absent entry among
    simp at differs
  · intro absent entry among
    have differs : key ≠ entry.1 := by
      rintro rfl
      exact absent (List.mem_map_of_mem among)
    simpa using differs

theorem get?_append (d others : Dictionary) (key : String) :
    get? (d ++ others) key = (d.get? key).or (get? others key) := List.lookup_append

theorem lookup_of_mem {α : Type} {entries : List (String × α)}
    (distinct : (entries.map (·.1)).Nodup) {key : String} {value : α}
    (member : (key, value) ∈ entries) : entries.lookup key = some value := by
  induction entries with
  | nil => cases member
  | cons entry entries inductionHypothesis =>
    obtain ⟨first, object⟩ := entry
    obtain ⟨absent, others⟩ := List.nodup_cons.mp distinct
    rw [List.lookup_cons]
    rcases List.mem_cons.mp member with here | further
    · cases here
      simp
    · have differs : key ≠ first := by
        rintro rfl
        exact absent (List.mem_map.mpr ⟨_, further, rfl⟩)
      rw [beq_false_of_ne differs]
      exact inductionHypothesis others further

theorem get?_of_mem {d : Dictionary} (distinct : d.Distinct) {key : String} {value : Object}
    (member : (key, value) ∈ d) : d.get? key = some value := lookup_of_mem distinct member

end Dictionary

namespace Resources

/-! ## Tables -/

theorem lookup_update (category other : String) (change : Dictionary → Dictionary)
    (categories : List (String × Dictionary)) :
    (update category change categories).lookup other =
      if other = category then some (change ((categories.lookup category).getD []))
      else categories.lookup other := by
  induction categories with
  | nil =>
    by_cases same : other = category
    · simp [update, same]
    · simp [update, same, List.lookup_cons, beq_false_of_ne same]
  | cons entry categories inductionHypothesis =>
    obtain ⟨first, entries⟩ := entry
    rw [update]
    by_cases here : first = category
    · subst here
      by_cases same : other = first
      · simp [same]
      · simp [same, List.lookup_cons, beq_false_of_ne same]
    -- The table is further back, and so is its entry.
    · have notFirst : (category == first) = false := beq_false_of_ne (Ne.symm here)
      rw [if_neg here, List.lookup_cons, List.lookup_cons, inductionHypothesis]
      by_cases same : other = category
      · subst same
        simp [notFirst]
      · rw [if_neg same, if_neg same, List.lookup_cons]

theorem entries_update (r : Resources) (category other : String)
    (change : Dictionary → Dictionary) :
    entries ⟨update category change r.categories⟩ other =
      if other = category then change (r.entries category) else r.entries other := by
  unfold entries
  rw [lookup_update]
  by_cases same : other = category
  · rw [if_pos same, if_pos same, Option.getD_some]
  · rw [if_neg same, if_neg same]

/-- In every category a name is bound once. -/
def Distinct (r : Resources) : Prop := ∀ category, (r.entries category).Distinct

/-- Whatever is bound stays bound to the same object. -/
def Extends (before after : Resources) : Prop :=
  ∀ category name object, (before.entries category).get? name = some object →
    (after.entries category).get? name = some object

theorem Extends.refl (r : Resources) : r.Extends r := fun _ _ _ bound => bound

theorem Extends.trans {first second third : Resources} (earlier : first.Extends second)
    (later : second.Extends third) : first.Extends third :=
  fun category name object bound => later category name object (earlier category name object bound)

/-! ## Free numbers -/

theorem freeNumber_gt (isTaken : Nat → Bool) (number rounds : Nat) :
    number < freeNumber isTaken number rounds := by
  induction rounds generalizing number with
  | zero => exact Nat.lt_succ_self number
  | succ rounds inductionHypothesis =>
    unfold freeNumber
    split
    · exact Nat.lt_trans (Nat.lt_succ_self number) (inductionHypothesis (number + 1))
    · exact Nat.lt_succ_self number

/-- No number is tried after as many rounds as there are names. -/
theorem freeNumber_le (isTaken : Nat → Bool) (number rounds : Nat) :
    freeNumber isTaken number rounds ≤ number + rounds + 1 := by
  induction rounds generalizing number with
  | zero => exact Nat.le_refl _
  | succ rounds inductionHypothesis =>
    unfold freeNumber
    split
    · have bound := inductionHypothesis (number + 1)
      omega
    · omega

/-- Every number that is passed over is taken. -/
theorem isTaken_of_lt_freeNumber {isTaken : Nat → Bool} {number rounds tried : Nat}
    (after : number < tried) (before : tried < freeNumber isTaken number rounds) :
    isTaken tried = true := by
  induction rounds generalizing number with
  | zero =>
    unfold freeNumber at before
    omega
  | succ rounds inductionHypothesis =>
    unfold freeNumber at before
    split at before
    · next taken =>
      by_cases first : tried = number + 1
      · rw [first]
        exact taken
      · exact inductionHypothesis (by omega) before
    · omega

/-- If one of the numbers that can be tried is free, a free one is found. -/
theorem freeNumber_free {isTaken : Nat → Bool} {number rounds free : Nat}
    (after : number < free) (inReach : free ≤ number + rounds + 1) (isFree : isTaken free = false) :
    isTaken (freeNumber isTaken number rounds) = false := by
  induction rounds generalizing number with
  | zero =>
    have only : free = number + 1 := by omega
    rw [freeNumber, ← only]
    exact isFree
  | succ rounds inductionHypothesis =>
    -- The number that is tried next is free, or it is not the one that is known to be.
    unfold freeNumber
    split
    · next taken =>
      have notFirst : free ≠ number + 1 := by
        rintro rfl
        rw [isFree] at taken
        cases taken
      exact inductionHypothesis (by omega) (by omega)
    · next notTaken => exact Bool.eq_false_iff.mpr notTaken

theorem numberedName_injective {stem : String} {first second : Nat}
    (same : numberedName stem first = numberedName stem second) : first = second := by
  have digits : Nat.toDigits 10 first = Nat.toDigits 10 second := by
    have chars := congrArg String.toList same
    simpa [numberedName, String.toList_append, Nat.toList_repr] using chars
  have values := congrArg (Nat.ofDigitChars 10 · 0) digits
  simpa using values

/-- Among one number more than there are names, one is free. -/
theorem exists_free (stem : String) (entries : Dictionary) :
    ∃ number, entries.length < number ∧ number ≤ entries.length + entries.length + 1 ∧
      entries.get? (numberedName stem number) = none := by
  -- If all of them were taken, there would be more names than entries.
  refine Classical.byContradiction fun noneFree => ?_
  let tried := (List.range (entries.length + 1)).map fun offset =>
    numberedName stem (entries.length + 1 + offset)
  have distinct : tried.Nodup := by
    refine List.Pairwise.map _ (fun first second differ same => differ ?_) List.nodup_range
    -- Numbers that differ are spelled differently, also behind a stem.
    have offsets := numberedName_injective same
    omega
  have taken : tried ⊆ entries.map (·.1) := by
    intro name member
    obtain ⟨offset, inRange, rfl⟩ := List.mem_map.mp member
    refine Classical.byContradiction fun absent => noneFree ⟨entries.length + 1 + offset, ?_, ?_, ?_⟩
    · omega
    · have small := List.mem_range.mp inRange
      omega
    · exact Dictionary.get?_eq_none_iff.mpr absent
  have tooMany := distinct.length_le_of_subset taken
  simp only [tried, List.length_map, List.length_range] at tooMany
  omega

/-- The name of an object that is not bound yet is new. -/
theorem freshName_fresh (kind : ResourceKind) (entries : Dictionary) :
    entries.get? (freshName kind entries) = none := by
  obtain ⟨number, after, inReach, free⟩ := exists_free kind.stem entries
  let isTaken number := (entries.get? (numberedName kind.stem number)).isSome
  have isFree : isTaken number = false := by simp [isTaken, free]
  have notTaken := freeNumber_free after inReach isFree
  exact Option.isNone_iff_eq_none.mp (by simpa [isTaken, freshName] using notTaken)

/-! ## Handing out names -/

theorem nameOf?_eq_some {entries : Dictionary} {object : Object} {name : String}
    (found : nameOf? entries object = some name) :
    ∃ bound, (name, bound) ∈ entries ∧ bound.same object = true := by
  unfold nameOf? at found
  cases first : entries.find? (·.2.same object) with
  | none => simp [first] at found
  | some entry =>
    simp only [first, Option.map_some, Option.some.injEq] at found
    subst found
    have equal : (entry.2.same object) = true := by simpa using List.find?_some first
    exact ⟨entry.2, List.mem_of_find?_eq_some first, equal⟩

/-- Either an equal object is bound already, and nothing changes, or a new name is bound. -/
theorem add_cases (r : Resources) (kind : ResourceKind) (object : Object) :
    (∃ name bound, r.add kind object = (name, r) ∧
      (name, bound) ∈ r.entries kind.category ∧ bound.same object = true) ∨
    r.add kind object = (freshName kind (r.entries kind.category),
      r.bind kind.category (freshName kind (r.entries kind.category)) object) := by
  cases found : nameOf? (r.entries kind.category) object with
  | none =>
    right
    simp only [add, found]
  | some name =>
    obtain ⟨bound, member, equal⟩ := nameOf?_eq_some found
    have kept : r.add kind object = (name, r) := by simp only [add, found]
    exact .inl ⟨name, bound, kept, member, equal⟩

theorem entries_bind (r : Resources) (category other name : String) (object : Object) :
    (r.bind category name object).entries other =
      if other = category then r.entries category ++ [(name, object)] else r.entries other :=
  entries_update r category other (· ++ [(name, object)])

theorem distinct_bind {r : Resources} (distinct : r.Distinct) {category name : String}
    (object : Object) (fresh : (r.entries category).get? name = none) :
    (r.bind category name object).Distinct := by
  intro other
  rw [entries_bind]
  by_cases same : other = category
  · rw [if_pos same]
    unfold Dictionary.Distinct
    rw [List.map_append]
    exact nodup_append_one (distinct category) (Dictionary.get?_eq_none_iff.mp fresh)
  · rw [if_neg same]
    exact distinct other

theorem extends_bind (r : Resources) (category name : String) (object : Object) :
    r.Extends (r.bind category name object) := by
  intro other bound value found
  rw [entries_bind]
  by_cases same : other = category
  · subst same
    rw [if_pos rfl, Dictionary.get?_append, found]
    rfl
  · rw [if_neg same]
    exact found

theorem distinct_add {r : Resources} (distinct : r.Distinct) (kind : ResourceKind)
    (object : Object) : (r.add kind object).2.Distinct := by
  rcases add_cases r kind object with ⟨name, bound, added, _, _⟩ | added
  · rw [added]
    exact distinct
  · rw [added]
    exact distinct_bind distinct object (freshName_fresh kind _)

theorem extends_add (r : Resources) (kind : ResourceKind) (object : Object) :
    r.Extends (r.add kind object).2 := by
  rcases add_cases r kind object with ⟨name, bound, added, _, _⟩ | added
  · rw [added]
    exact .refl r
  · rw [added]
    exact extends_bind r kind.category _ object

/-- A name stands for an object: it is bound to this object or to one that equals it. -/
def Names (r : Resources) (kind : ResourceKind) (name : String) (object : Object) : Prop :=
  ∃ bound, r.get? kind name = some bound ∧ (bound = object ∨ bound.same object = true)

theorem Names.extend {before after : Resources} (further : before.Extends after)
    {kind : ResourceKind} {name : String} {object : Object}
    (names : before.Names kind name object) : after.Names kind name object := by
  obtain ⟨bound, found, equal⟩ := names
  exact ⟨bound, further _ _ _ found, equal⟩

/-- The name of an object is bound from then on: to the object, or to the one that equals it and was bound
to this name before. -/
theorem bound_add {r : Resources} (distinct : r.Distinct) (kind : ResourceKind) (object : Object) :
    ∃ bound, (r.add kind object).2.get? kind (r.add kind object).1 = some bound ∧
      (bound = object ∨ r.get? kind (r.add kind object).1 = some bound ∧ bound.same object = true) := by
  -- The name is found under the first equal object, or it is bound at the end of its table.
  rcases add_cases r kind object with ⟨name, bound, added, member, equal⟩ | added
  · have found : r.get? kind name = some bound := Dictionary.get?_of_mem (distinct kind.category) member
    rw [added]
    exact ⟨bound, found, .inr ⟨found, equal⟩⟩
  · rw [added]
    refine ⟨object, ?_, .inl rfl⟩
    rw [get?, entries_bind, if_pos rfl, Dictionary.get?_append, freshName_fresh]
    simp [Dictionary.get?]

theorem names_add {r : Resources} (distinct : r.Distinct) (kind : ResourceKind) (object : Object) :
    (r.add kind object).2.Names kind (r.add kind object).1 object := by
  obtain ⟨bound, found, origin⟩ := bound_add distinct kind object
  exact ⟨bound, found, origin.imp_right And.right⟩

/-- What one call can do to the resources: it hands out a name for the object that it is about, if there
is one, or it leaves them. -/
def Binds (subject? : Option (ResourceKind × Object)) (before after : Resources) : Prop :=
  after = before ∨ ∃ kind object, subject? = some (kind, object) ∧ after = (before.add kind object).2

namespace Binds

variable {subject? : Option (ResourceKind × Object)} {before after : Resources}

theorem refl (subject? : Option (ResourceKind × Object)) (r : Resources) : Binds subject? r r :=
  .inl rfl

theorem add (r : Resources) (kind : ResourceKind) (object : Object) :
    Binds (some (kind, object)) r (r.add kind object).2 :=
  .inr ⟨kind, object, rfl, rfl⟩

theorem extension (binds : Binds subject? before after) : before.Extends after := by
  rcases binds with rfl | ⟨kind, object, _, rfl⟩
  · exact .refl after
  · exact extends_add before kind object

theorem distinct (binds : Binds subject? before after) (distinct : before.Distinct) :
    after.Distinct := by
  rcases binds with rfl | ⟨kind, object, _, rfl⟩
  · exact distinct
  · exact distinct_add distinct kind object

end Binds

/-! ## Loading -/

theorem keys_insert (d : Dictionary) (key : String) (value : Object) :
    (d.insert key value).map (·.1) =
      if key ∈ d.map (·.1) then d.map (·.1) else d.map (·.1) ++ [key] := by
  induction d with
  | nil => rfl
  | cons entry d inductionHypothesis =>
    obtain ⟨first, object⟩ := entry
    unfold Dictionary.insert
    by_cases here : first = key
    · subst here
      simp
    · rw [if_neg here, List.map_cons, List.map_cons, inductionHypothesis]
      by_cases further : key ∈ d.map (·.1)
      · rw [if_pos further, if_pos (List.mem_cons_of_mem _ further)]
      · have absent : key ∉ first :: d.map (·.1) := by
          rw [List.mem_cons, not_or]
          exact ⟨Ne.symm here, further⟩
        rw [if_neg further, if_neg absent, List.cons_append]

theorem distinct_insert {d : Dictionary} (distinct : d.Distinct) (key : String) (value : Object) :
    (d.insert key value).Distinct := by
  unfold Dictionary.Distinct
  rw [keys_insert]
  by_cases present : key ∈ d.map (·.1)
  · rw [if_pos present]
    exact distinct
  · rw [if_neg present]
    exact nodup_append_one distinct present

theorem distinct_load {table : Dictionary} (distinct : table.Distinct) (entries : Dictionary) :
    (load table entries).Distinct := by
  unfold load
  induction entries generalizing table with
  | nil => exact distinct
  | cons entry entries inductionHypothesis =>
    exact inductionHypothesis (distinct_insert distinct entry.1 entry.2)

theorem distinct_empty : empty.Distinct := fun _ => List.nodup_nil

theorem distinct_loadCategory {r : Resources} (distinct : r.Distinct) (entry : String × Object) :
    (r.loadCategory entry).Distinct := by
  obtain ⟨category, value⟩ := entry
  cases value with
  | dictionary entries =>
    intro other
    unfold loadCategory
    rw [entries_update]
    by_cases same : other = category
    · rw [if_pos same]
      exact distinct_load (distinct category) entries
    · rw [if_neg same]
      exact distinct other
  | _ => exact distinct

/-- However a resource dictionary is made, its tables bind every name once. -/
theorem distinct_ofEntries (dictionary : Dictionary) : (ofEntries dictionary).Distinct := by
  -- Loading goes on from whatever has been loaded.
  have loaded : ∀ r : Resources, r.Distinct → (dictionary.foldl loadCategory r).Distinct := by
    induction dictionary with
    | nil => exact fun _ distinct => distinct
    | cons entry dictionary inductionHypothesis =>
      exact fun r distinct => inductionHypothesis _ (distinct_loadCategory distinct entry)
  exact loaded empty distinct_empty

end Resources

end PdfCanvas
