import ConicForm.ConstraintRow
import ConicForm.Proofs.SparseRows

/-! The compressed columns of a matrix: pointers into one list of row numbers and one of values. In
a matrix that is gathered from rows they are sound, whatever the rows store and however often. -/
namespace ConicForm

namespace Line

/-- A pointer counts what is stored before its line. -/
theorem getElem?_pointersFrom {start j : ℕ} {lines : List Line} (inside : j ≤ lines.length) :
    (pointersFrom start lines)[j]? = some (start + (lines.take j).flatten.length) := by
  induction lines generalizing start j with
  | nil =>
    obtain rfl : j = 0 := by simpa using inside
    rfl
  | cons line lines ih =>
    cases j with
    | zero => rfl
    | succ j =>
      rw [pointersFrom, List.getElem?_cons_succ, ih (by simpa using inside), List.take_succ_cons,
        List.flatten_cons, List.length_append, Nat.add_assoc]

theorem pointersFrom_sorted (start : ℕ) (lines : List Line) :
    (pointersFrom start lines).Pairwise (· ≤ ·) ∧ ∀ p ∈ pointersFrom start lines, start ≤ p := by
  induction lines generalizing start with
  | nil => simp [pointersFrom]
  | cons line lines ih =>
    obtain ⟨sorted, least⟩ := ih (start + line.length)
    have above : ∀ p ∈ pointersFrom (start + line.length) lines, start ≤ p := by
      intro p member
      have := least p member
      omega
    refine ⟨List.pairwise_cons.2 ⟨above, sorted⟩, fun p member => ?_⟩
    rcases List.mem_cons.1 member with rfl | later
    · exact le_rfl
    · exact above p later

end Line

namespace ColumnMatrix

/-- The row numbers between two pointers. -/
def indicesOf (matrix : ColumnMatrix) (j : ℕ) : List ℤ :=
  let start := matrix.pointers.getD j 0
  let stop := matrix.pointers.getD (j + 1) 0
  (matrix.indices.drop start).take (stop - start)

/-- The arrays of a matrix by compressed columns are sound: every pointer leads to where its column
starts, and in each column the row numbers ascend. -/
structure Compressed (matrix : ColumnMatrix) (rows cols : ℕ) : Prop where
  shape : matrix.shape = [rows, cols]
  pointerCount : matrix.pointers.length = cols + 1
  first : matrix.pointers.head? = some 0
  sorted : matrix.pointers.Pairwise (· ≤ ·)
  last : matrix.pointers.getLast? = some matrix.indices.length
  valueCount : matrix.values.length = matrix.indices.length
  inside : ∀ i ∈ matrix.indices, 0 ≤ i ∧ i < (rows : ℤ)
  ascending : ∀ j < cols, (matrix.indicesOf j).Pairwise (· < ·)

/-- In each column row numbers ascend, and each is that of a row. -/
structure Ordered (matrix : ColumnMatrix) : Prop where
  ascending : ∀ column ∈ matrix.columns, column.Ascending
  within : ∀ column ∈ matrix.columns, column.Within matrix.rows

theorem indices_eq_flatten (matrix : ColumnMatrix) :
    matrix.indices = matrix.columns.flatten.map Prod.fst := by
  rw [indices, List.flatMap_def, List.map_flatten]

theorem indicesOf_eq (matrix : ColumnMatrix) {j : ℕ} (inside : j < matrix.columns.length) :
    matrix.indicesOf j = matrix.columns[j].map Prod.fst := by
  have start : matrix.pointers.getD j 0 = (matrix.columns.take j).flatten.length := by
    rw [List.getD_eq_getElem?_getD, pointers, Line.pointers,
      Line.getElem?_pointersFrom inside.le, Option.getD_some, Nat.zero_add]
  have stop : matrix.pointers.getD (j + 1) 0 =
      (matrix.columns.take j).flatten.length + matrix.columns[j].length := by
    rw [List.getD_eq_getElem?_getD, pointers, Line.pointers, Line.getElem?_pointersFrom inside,
      List.take_succ_eq_append_getElem inside, List.flatten_append, List.length_append,
      List.flatten_singleton, Option.getD_some, Nat.zero_add]
  have split : matrix.columns.flatten = (matrix.columns.take j).flatten ++
      (matrix.columns[j] ++ (matrix.columns.drop (j + 1)).flatten) := by
    rw [← List.flatten_cons, ← List.drop_eq_getElem_cons inside, ← List.flatten_append,
      List.take_append_drop]
  rw [indicesOf, start, stop, Nat.add_sub_cancel_left, indices_eq_flatten, split, List.map_append,
    List.map_append, List.drop_left' (List.length_map _), List.take_left' (List.length_map _)]

theorem Ordered.compressed {matrix : ColumnMatrix} (ordered : matrix.Ordered) :
    matrix.Compressed matrix.rows matrix.cols where
  shape := rfl
  pointerCount := Line.length_pointersFrom _ _
  first := by
    unfold pointers Line.pointers
    cases matrix.columns <;> rfl
  sorted := (Line.pointersFrom_sorted 0 matrix.columns).1
  last := by
    have count : (Line.pointersFrom 0 matrix.columns).length - 1 = matrix.columns.length := by
      rw [Line.length_pointersFrom, Nat.add_sub_cancel]
    rw [pointers, Line.pointers, List.getLast?_eq_getElem?, count,
      Line.getElem?_pointersFrom le_rfl, indices_eq_flatten, List.take_length, List.length_map,
      Nat.zero_add]
  valueCount := by
    simp [values, indices]
  inside := by
    intro i member
    obtain ⟨column, stored, own⟩ := List.mem_flatMap.1 member
    obtain ⟨entry, also, rfl⟩ := List.mem_map.1 own
    exact ordered.within column stored entry also
  ascending := by
    intro j inside
    rw [indicesOf_eq matrix inside, List.pairwise_map]
    exact ordered.ascending _ (List.getElem_mem inside)

/-- Gathered entries are in order as soon as each has the number of a row. -/
theorem ordered_ofEntries {rows cols : ℕ} {entries : List Entry}
    (inside : ∀ entry ∈ entries, 0 ≤ entry.row ∧ entry.row < (rows : ℤ)) :
    (ofEntries rows cols entries).Ordered where
  ascending := fun _ member => ascending_of_mem_ofEntries member
  within := by
    intro column member
    obtain ⟨line, gathered, rfl⟩ := List.mem_map.1 member
    obtain ⟨j, _, rfl⟩ := List.mem_map.1 gathered
    apply Line.Within.combine
    intro stored own
    obtain ⟨entry, also, rfl⟩ := List.mem_map.1 own
    exact inside entry (List.mem_filter.1 also).1

theorem ordered_ofRows (matrix : RowMatrix) : (ofRows matrix).Ordered := by
  apply ordered_ofEntries
  intro entry member
  obtain ⟨numbered, stored, own⟩ := List.mem_flatMap.1 member
  obtain ⟨_, _, rfl⟩ := List.mem_map.1 own
  have below := List.snd_lt_of_mem_zipIdx stored
  simp only [RowMatrix.rows]
  omega

end ColumnMatrix

theorem ConstraintRow.ordered_matrix (cols : ℕ) (rows : List ConstraintRow) :
    (matrix cols rows).Ordered :=
  ColumnMatrix.ordered_ofRows _

theorem ConstraintRow.compressed_matrix (cols : ℕ) (rows : List ConstraintRow) :
    (matrix cols rows).Compressed rows.length cols := by
  have sound := (ordered_matrix cols rows).compressed
  rwa [rows_matrix, cols_matrix] at sound

end ConicForm
