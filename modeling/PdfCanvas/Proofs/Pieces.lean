import PdfCanvas.Bytes

/-!
# Pieces of one size

A list that is cut into pieces loses nothing but, of the pieces that are complete, the one at the end that
is not.
-/

namespace PdfCanvas

section

variable {α : Type}

theorem pieces_eq {size : Nat} (positive : 0 < size) {elements : List α} (some : elements ≠ []) :
    pieces size elements = elements.take size :: pieces size (elements.drop size) := by
  obtain ⟨size, rfl⟩ : ∃ less, size = less + 1 := ⟨size - 1, by omega⟩
  cases elements with
  | nil => exact absurd rfl some
  | cons first rest => rw [pieces]; rfl

theorem flatten_pieces {size : Nat} (positive : 0 < size) (elements : List α) :
    (pieces size elements).flatten = elements := by
  by_cases empty : elements = []
  · rw [empty, pieces]
    rfl
  · rw [pieces_eq positive empty, List.flatten_cons, flatten_pieces positive (elements.drop size),
      List.take_append_drop]
  termination_by elements.length
  decreasing_by
    have some := List.length_pos_iff.mpr empty
    rw [List.length_drop]
    omega

theorem wholePieces_eq {size : Nat} (positive : 0 < size) {count : Nat} {elements : List α}
    (held : elements.length / size = count) :
    wholePieces size elements =
      (List.range count).map fun index => (elements.drop (size * index)).take size := by
  induction count generalizing elements with
  | zero =>
    have short : elements.length < size := (Nat.div_eq_zero_iff_lt positive).mp held
    by_cases empty : elements = []
    · simp [empty, wholePieces, pieces]
    · have cut : (elements.take size).length ≠ max size 1 := by
        rw [List.length_take]
        omega
      rw [wholePieces, pieces_eq positive empty, List.drop_eq_nil_of_le (Nat.le_of_lt short), pieces,
        List.filter_cons_of_neg (by simpa using cut)]
      rfl
  | succ count inductionHypothesis =>
    have enough : size ≤ elements.length := by
      apply Nat.le_of_not_lt
      intro short
      rw [Nat.div_eq_of_lt short] at held
      cases held
    have some : elements ≠ [] := List.length_pos_iff.mp (by omega)
    have front : (elements.take size).length = max size 1 := by
      rw [List.length_take]
      omega
    have rest : (elements.drop size).length / size = count := by
      rw [Nat.div_eq_sub_div positive enough] at held
      rw [List.length_drop]
      omega
    have cut := inductionHypothesis rest
    rw [wholePieces] at cut ⊢
    rw [pieces_eq positive some, List.filter_cons_of_pos (by simpa using front), cut,
      List.range_succ_eq_map, List.map_cons, List.map_map]
    simp [Function.comp_def, Nat.mul_add_one, Nat.add_comm]

theorem getElem?_wholePieces {size : Nat} (positive : 0 < size) {elements : List α} {index : Nat}
    (inside : index < elements.length / size) :
    (wholePieces size elements)[index]? = some ((elements.drop (size * index)).take size) := by
  rw [wholePieces_eq positive rfl, List.getElem?_map, List.getElem?_range inside]
  rfl

theorem length_wholePieces {size : Nat} (positive : 0 < size) (elements : List α) :
    (wholePieces size elements).length = elements.length / size := by
  rw [wholePieces_eq positive rfl, List.length_map, List.length_range]

theorem length_of_mem_wholePieces {size : Nat} (positive : 0 < size) {elements piece : List α}
    (member : piece ∈ wholePieces size elements) : piece.length = size := by
  have whole := (List.mem_filter.mp member).2
  simp only [decide_eq_true_eq] at whole
  omega

theorem wholePieces_one (elements : List α) :
    wholePieces 1 elements = elements.map fun element => [element] := by
  rw [wholePieces_eq Nat.one_pos (Nat.div_one _)]
  apply List.ext_getElem
  · rw [List.length_map, List.length_range, List.length_map]
  · intro index inside _
    rw [List.length_map, List.length_range] at inside
    rw [List.getElem_map, List.getElem_map, List.getElem_range, Nat.one_mul,
      List.drop_eq_getElem_cons inside]
    rfl

/-- Pieces have an element at least. -/
theorem pieces_zero (elements : List α) : pieces 0 elements = pieces 1 elements := by
  fun_induction pieces 1 elements with
  | case1 => rw [pieces]
  | case2 head rest inductionHypothesis =>
    rw [pieces]
    exact congrArg _ inductionHypothesis

theorem wholePieces_max (size : Nat) (elements : List α) :
    wholePieces (max size 1) elements = wholePieces size elements := by
  cases size with
  | zero =>
    rw [wholePieces, wholePieces, pieces_zero]
    rfl
  | succ size => rw [Nat.max_eq_left (by omega)]

theorem wholePieces_append {size : Nat} (positive : 0 < size) {piece : List α} (whole : piece.length = size)
    (rest : List α) : wholePieces size (piece ++ rest) = piece :: wholePieces size rest := by
  have some : piece ++ rest ≠ [] := by
    intro none
    rw [List.append_eq_nil_iff] at none
    simp [none.1] at whole
    omega
  rw [wholePieces, pieces_eq positive some, List.take_left' whole, List.drop_left' whole]
  exact List.filter_cons_of_pos (by simp only [decide_eq_true_eq]; omega)

theorem wholePieces_of_short {size : Nat} {elements : List α} (short : elements.length < size) :
    wholePieces size elements = [] := by
  rw [← List.length_eq_zero_iff, length_wholePieces (by omega), Nat.div_eq_of_lt short]

/-- Less than a piece is left out. -/
theorem exists_stray {size : Nat} (positive : 0 < size) (elements : List α) :
    ∃ stray, stray.length < size ∧ elements = (wholePieces size elements).flatten ++ stray := by
  rcases Nat.lt_or_ge elements.length size with short | long
  · exact ⟨elements, short, by simp [wholePieces_of_short short]⟩
  · obtain ⟨stray, less, cut⟩ := exists_stray positive (elements.drop size)
    have whole : (elements.take size).length = size := by simp [long]
    have split := wholePieces_append positive whole (elements.drop size)
    rw [List.take_append_drop] at split
    refine ⟨stray, less, ?_⟩
    rw [split, List.flatten_cons, List.append_assoc, ← cut, List.take_append_drop]
  termination_by elements.length
  decreasing_by
    rw [List.length_drop]
    omega

/-- What keeps the size of each piece is done to the same pieces. -/
theorem pieces_flatMap {size : Nat} (positive : 0 < size) {f : List α → List α}
    (same : ∀ piece, (f piece).length = piece.length) (elements : List α) :
    pieces size ((pieces size elements).flatMap f) = (pieces size elements).map f := by
  by_cases empty : elements = []
  · simp [empty, pieces]
  · have some : f (elements.take size) ++ (pieces size (elements.drop size)).flatMap f ≠ [] := by
      have elements := List.length_pos_iff.mpr empty
      apply List.length_pos_iff.mp
      simp only [List.length_append, same, List.length_take]
      omega
    rw [pieces_eq positive empty, List.flatMap_cons, pieces_eq positive some, List.map_cons]
    rcases Nat.lt_or_ge elements.length size with short | long
    · -- the only piece is shorter than the others
      have none : elements.drop size = [] := List.drop_eq_nil_of_le (Nat.le_of_lt short)
      have all : (f (elements.take size)).length ≤ size := by
        rw [same, List.length_take]
        omega
      simp only [none, pieces, List.flatMap_nil, List.append_nil, List.map_nil,
        List.take_of_length_le all, List.drop_eq_nil_of_le all]
    · have whole : (f (elements.take size)).length = size := by simp [same, long]
      rw [List.take_left' whole, List.drop_left' whole, pieces_flatMap positive same]
  termination_by elements.length
  decreasing_by
    rw [List.length_drop]
    omega

theorem getElem?_flatten_of_length {rows : List (List α)} {width : Nat}
    (even : ∀ row ∈ rows, row.length = width) {x : Nat} (inside : x < width) (y : Nat) :
    rows.flatten[width * y + x]? = rows[y]?.bind (·[x]?) := by
  induction rows generalizing y with
  | nil => rfl
  | cons row rows inductionHypothesis =>
    have length : row.length = width := even row List.mem_cons_self
    have others := inductionHypothesis fun row member => even row (List.mem_cons_of_mem _ member)
    rw [List.flatten_cons]
    cases y with
    | zero => rw [List.getElem?_append_left (by omega)]; simp
    | succ y =>
      rw [List.getElem?_append_right (by rw [Nat.mul_add_one]; omega), List.getElem?_cons_succ, ← others]
      congr 1
      rw [length, Nat.mul_add_one]
      omega

theorem length_flatten_of_length {rows : List (List α)} {width : Nat}
    (even : ∀ row ∈ rows, row.length = width) : rows.flatten.length = width * rows.length := by
  induction rows with
  | nil => rfl
  | cons row rows inductionHypothesis =>
    rw [List.flatten_cons, List.length_append, even row List.mem_cons_self,
      inductionHypothesis fun row member => even row (List.mem_cons_of_mem _ member),
      List.length_cons, Nat.mul_add_one, Nat.add_comm]

end

end PdfCanvas
