import ConicForm.Proofs.FormFeasibility
import ConicForm.Proofs.StackedRows
import ConicForm.Proofs.SummedEntries

/-! The rows of a form, read back from the columns they were gathered by. A row that was gathered
comes back with ascending positions, and with one sum at each position it stores. -/
namespace ConicForm

namespace Line

theorem valuesAt_scale (factor : Binary64) (line : Line) (p : ℤ) :
    (line.scale factor).valuesAt p = (line.valuesAt p).map (factor * ·) := by
  simp [valuesAt, scale, List.filter_map, Function.comp_def]

/-- The sums at the positions below a bound. -/
def sumsBelow (count : ℕ) (line : Line) : Line :=
  (List.range count).filterMap fun j : ℕ =>
    (Binary64.sum? (line.valuesAt j)).map fun value => ((j : ℤ), value)

theorem mem_sumsBelow {count : ℕ} {line : Line} {p : ℤ} {value : Binary64} :
    (p, value) ∈ line.sumsBelow count ↔
      ∃ j < count, p = (j : ℤ) ∧ Binary64.sum? (line.valuesAt j) = some value := by
  simp only [sumsBelow, List.mem_filterMap, List.mem_range, Option.map_eq_some_iff, Prod.mk.injEq]
  constructor
  · rintro ⟨j, below, _, summed, rfl, rfl⟩
    exact ⟨j, below, rfl, summed⟩
  · rintro ⟨j, below, rfl, summed⟩
    exact ⟨j, below, value, summed, rfl, rfl⟩

theorem ascending_sumsBelow (count : ℕ) (line : Line) : (line.sumsBelow count).Ascending := by
  refine List.Pairwise.filterMap _ ?_ List.pairwise_lt_range
  intro j k less first stored second also
  obtain ⟨_, _, rfl⟩ := Option.map_eq_some_iff.1 stored
  obtain ⟨_, _, rfl⟩ := Option.map_eq_some_iff.1 also
  exact Int.ofNat_lt.2 less

/-- A combined line has the sums at its positions. -/
theorem sumsBelow_eq_combine {count : ℕ} {line : Line} (within : line.Within count) :
    line.sumsBelow count = combine line := by
  refine (ascending_sumsBelow count line).ext (ascending_combine line) ?_
  rintro ⟨p, value⟩
  rw [mem_sumsBelow, ← lookup_eq_some_iff_mem (ascending_combine line).distinct, lookup_combine]
  constructor
  · rintro ⟨j, _, rfl, summed⟩
    exact summed
  · intro summed
    have stored : (p, value) ∈ combine line := by
      rw [← lookup_eq_some_iff_mem (ascending_combine line).distinct, lookup_combine, summed]
    obtain ⟨lower, upper⟩ := within.combine _ stored
    obtain ⟨j, rfl⟩ := Int.eq_ofNat_of_zero_le lower
    exact ⟨j, Int.ofNat_lt.1 upper, rfl, summed⟩

end Line

theorem Entry.rowLine_zipIdx (start : ℕ) (lines : List Line) (i : ℕ) :
    rowLine ((lines.zipIdx start).flatMap fun line =>
      line.1.map fun e => ⟨(line.2 : ℤ), e.1, e.2⟩) (start + i) = lines[i]?.getD [] := by
  induction lines generalizing start i with
  | nil => rfl
  | cons line lines ih =>
    -- The first line has the number `start`, and the later ones have greater numbers.
    rw [List.zipIdx_cons, List.flatMap_cons, rowLine_append]
    cases i with
    | zero =>
      have own : rowLine (line.map fun e => ⟨(start : ℤ), e.1, e.2⟩) start = line := by
        simp [rowLine, List.filter_map, Function.comp_def]
      have later : rowLine ((lines.zipIdx (start + 1)).flatMap fun line =>
          line.1.map fun e => ⟨(line.2 : ℤ), e.1, e.2⟩) start = [] := by
        refine rowLine_eq_nil fun entry member => ?_
        obtain ⟨numbered, stored, own⟩ := List.mem_flatMap.1 member
        obtain ⟨_, _, rfl⟩ := List.mem_map.1 own
        have := List.le_snd_of_mem_zipIdx stored
        simp only
        omega
      rw [Nat.add_zero, own, later, List.append_nil]
      rfl
    | succ i =>
      have first : rowLine (line.map fun e => ⟨(start : ℤ), e.1, e.2⟩) (start + (i + 1)) = [] := by
        refine rowLine_eq_nil fun entry member => ?_
        obtain ⟨_, _, rfl⟩ := List.mem_map.1 member
        simp only
        omega
      have next := ih (start + 1) i
      rw [show start + 1 + i = start + (i + 1) by omega] at next
      rw [first, next, List.nil_append, List.getElem?_cons_succ]

namespace ColumnMatrix

/-- What is stored in a row, by ascending column. -/
def row (matrix : ColumnMatrix) (i : ℕ) : Line :=
  (List.range matrix.cols).filterMap fun j : ℕ =>
    ( entry? matrix i j).map fun value => ((j : ℤ), value)

/-- Gathered by column, rows are summed at each position. -/
theorem entry?_ofRows_eq_sum? {matrix : RowMatrix} {j : ℕ} (inside : j < matrix.cols) (i : ℕ) :
    entry? (ofRows matrix) i j = Binary64.sum? ((matrix.row i).valuesAt j) := by
  have line := Entry.rowLine_zipIdx 0 matrix.lines i
  rw [Nat.zero_add] at line
  simp only [ entry?, ofRows, ofEntries, columnLines, List.getElem?_map, List.getElem?_range inside,
    Option.map_some, Option.bind_some, Line.lookup_combine, ← Entry.valuesAt_rowLine]
  rw [RowMatrix.entries, line, RowMatrix.row]

theorem row_ofRows {matrix : RowMatrix} {i : ℕ} (within : (matrix.row i).Within matrix.cols) :
    (ofRows matrix).row i = Line.combine (matrix.row i) := by
  rw [row, cols_ofRows, ← Line.sumsBelow_eq_combine within, Line.sumsBelow]
  refine List.filterMap_congr fun j below => ?_
  rw [ entry?_ofRows_eq_sum? (List.mem_range.1 below)]

end ColumnMatrix

namespace ConstraintRow

/-- The row with ascending positions, where entries that share a position are summed. -/
def combined (row : ConstraintRow) : ConstraintRow := ⟨Line.combine row.line, row.bound⟩

theorem combined_unit (col : ℤ) (coefficient bound : Binary64) :
    (unit col coefficient bound).combined = unit col coefficient bound := rfl

theorem distinct_combined (row : ConstraintRow) : row.combined.line.Distinct :=
  (Line.ascending_combine row.line).distinct

theorem fitsIn_combined {cols : ℕ} {row : ConstraintRow} (within : row.line.Within cols) :
    row.combined.FitsIn cols :=
  ⟨row.distinct_combined, within.combine⟩

open ColumnMatrix ( entry?) in
/-- Gathered by column, rows are combined anyway. -/
theorem matrix_combined (cols : ℕ) (rows : List ConstraintRow) :
    matrix cols (rows.map combined) = matrix cols rows := by
  refine (ordered_matrix _ _).ext (ordered_matrix _ _) ?_ ?_ fun i _ j inside value => ?_
  · rw [rows_matrix, rows_matrix, List.length_map]
  · rw [cols_matrix, cols_matrix]
  · rw [cols_matrix] at inside
    have distinct : ∀ line ∈ (rows.map combined).map ConstraintRow.line, line.Distinct := by
      rw [List.map_map, List.forall_mem_map]
      exact fun row _ => row.distinct_combined
    have same : entry? (matrix cols (rows.map combined)) i j = entry? (matrix cols rows) i j := by
      rw [matrix, ColumnMatrix.entry?_ofRows distinct inside, matrix,
        ColumnMatrix.entry?_ofRows_eq_sum? inside, RowMatrix.row, List.map_map, List.getElem?_map,
        List.getElem?_map]
      cases rows[i]? with
      | none => rfl
      | some row => exact Line.lookup_combine row.line j
    unfold ColumnMatrix.Stores
    rw [same]

/-- A matrix with right-hand sides, row by row. -/
def rowsOf (matrix : ColumnMatrix) (bounds : List Binary64) : List ConstraintRow :=
  (List.range matrix.rows).map fun i => ⟨matrix.row i, bounds.getD i .zero⟩

theorem rowsOf_matrix {cols : ℕ} {rows : List ConstraintRow}
    (within : ∀ row ∈ rows, row.line.Within cols) :
    rowsOf (matrix cols rows) (rows.map bound) = rows.map combined := by
  refine List.ext_getElem (by simp [rowsOf, rows_matrix]) fun i _ right => ?_
  have below : i < rows.length := by simpa using right
  have line : (RowMatrix.mk cols (rows.map ConstraintRow.line)).row i = rows[i].line := by
    simp [RowMatrix.row, below]
  have own : (matrix cols rows).row i = Line.combine rows[i].line := by
    rw [matrix, ColumnMatrix.row_ofRows (line ▸ within _ (List.getElem_mem below)), line]
  simp [rowsOf, combined, own, List.getD_eq_getElem?_getD, below]

end ConstraintRow

namespace StandardForm

/-- The inequalities of a form, each with its right-hand side. -/
def inequalityRows (form : StandardForm) : List ConstraintRow :=
  ConstraintRow.rowsOf form.G form.h

/-- The equalities of a form, each with its right-hand side. -/
def equalityRows (form : StandardForm) : List ConstraintRow :=
  ConstraintRow.rowsOf form.A form.b

theorem length_equalityRows (form : StandardForm) : form.equalityRows.length = form.p := by
  rw [equalityRows, ConstraintRow.rowsOf, List.length_map, List.length_range, p]

section MadeOf

variable {form : StandardForm} {npos : ℕ} {sizes : List ℕ}
  {inequalities equalities : List ConstraintRow} {objective : List Binary64} {sense : Sense}
  {order : VariableOrder}
  (made : form.MadeOf npos sizes inequalities equalities objective sense order)
include made

/-- A form admits what its rows admit, whether or not they store a position twice. -/
theorem feasible_iff_combined {K : Type*} [Field K] [LinearOrder K] [CharZero K]
    (within : ∀ row ∈ inequalities, row.line.Within objective.length)
    (withinEqualities : ∀ row ∈ equalities, row.line.Within objective.length) (y : List K) :
    form.Feasible y ↔ (∀ row ∈ equalities, row.combined.slack (entryAt y) = 0) ∧
      Cone.ContainsProduct npos (sizes.map fun size : ℕ => (size : ℤ))
        (inequalities.map fun row => row.combined.slack (entryAt y)) := by
  have combined : form.MadeOf npos sizes (inequalities.map ConstraintRow.combined)
      (equalities.map ConstraintRow.combined) objective sense order :=
    { made with
      covered := by rw [List.length_map, made.covered]
      G := by rw [made.G, ConstraintRow.matrix_combined]
      h := by rw [made.h, List.map_map]; rfl
      A := by rw [made.A, ConstraintRow.matrix_combined]
      b := by rw [made.b, List.map_map]; rfl }
  have rows := feasible_iff_of_madeOf combined
    (List.forall_mem_map.2 fun row member => ConstraintRow.fitsIn_combined (within row member))
    (List.forall_mem_map.2 fun row member =>
      ConstraintRow.fitsIn_combined (withinEqualities row member)) y
  rw [rows, List.forall_mem_map, List.map_map]
  rfl

theorem inequalityRows_of_madeOf
    (within : ∀ row ∈ inequalities, row.line.Within objective.length) :
    form.inequalityRows = inequalities.map ConstraintRow.combined := by
  rw [inequalityRows, made.G, made.h, ConstraintRow.rowsOf_matrix within]

theorem equalityRows_of_madeOf (within : ∀ row ∈ equalities, row.line.Within objective.length) :
    form.equalityRows = equalities.map ConstraintRow.combined := by
  rw [equalityRows, made.A, made.b, ConstraintRow.rowsOf_matrix within]

end MadeOf
end StandardForm
end ConicForm
