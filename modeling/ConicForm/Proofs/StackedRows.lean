import ConicForm.Proofs.CompressedColumns
import ConicForm.Proofs.MatrixReading

/-! Two matrices by columns stacked into one matrix, whose entries may be stored in any order. Its
rows store what the rows of the two matrices store, and a matrix is known by what it stores. -/
namespace ConicForm

namespace Line

/-- Ascending lines are known by what they store. -/
theorem Ascending.ext {first second : Line} (ascending : first.Ascending)
    (also : second.Ascending) (same : ∀ entry, entry ∈ first ↔ entry ∈ second) :
    first = second := by
  have perm : first.Perm second :=
    (List.perm_ext_iff_of_nodup ascending.distinct.of_map also.distinct.of_map).2 same
  exact perm.eq_of_pairwise (fun _ _ _ _ before after => absurd (before.trans after) (lt_irrefl _))
    ascending also

end Line

namespace ColumnMatrix

def Stores (matrix : ColumnMatrix) (i j : ℕ) (value : Binary64) : Prop :=
  entry? matrix i j = some value

theorem Ordered.mem_column_iff {matrix : ColumnMatrix} (ordered : matrix.Ordered) {j : ℕ}
    {column : Line} (stored : matrix.columns[j]? = some column) {entry : ℤ × Binary64} :
    entry ∈ column ↔
      ∃ i < matrix.rows, entry.1 = (i : ℤ) ∧ matrix.Stores i j entry.2 := by
  have member := List.mem_of_getElem? stored
  have distinct := (ordered.ascending column member).distinct
  have found (i : ℕ) : matrix.Stores i j entry.2 ↔ ((i : ℤ), entry.2) ∈ column := by
    unfold Stores entry?
    rw [stored, Option.bind_some, Line.lookup_eq_some_iff_mem distinct]
  constructor
  · intro own
    obtain ⟨lower, upper⟩ := ordered.within column member entry own
    obtain ⟨i, same⟩ := Int.eq_ofNat_of_zero_le lower
    refine ⟨i, by omega, same, (found i).2 ?_⟩
    rwa [← same]
  · rintro ⟨i, _, same, holds⟩
    have own := (found i).1 holds
    rwa [← same] at own

/-- Matrices in order are known by what they store. -/
theorem Ordered.ext {first second : ColumnMatrix} (ordered : first.Ordered) (also : second.Ordered)
    (rows : first.rows = second.rows) (cols : first.cols = second.cols)
    (same : ∀ i < first.rows, ∀ j < first.cols, ∀ value,
      first.Stores i j value ↔ second.Stores i j value) :
    first = second := by
  have columns : first.columns = second.columns := by
    refine List.ext_getElem cols fun j left right => ?_
    have here := List.getElem?_eq_getElem left
    have there := List.getElem?_eq_getElem right
    refine (ordered.ascending _ (List.getElem_mem left)).ext
      (also.ascending _ (List.getElem_mem right)) fun entry => ?_
    rw [ordered.mem_column_iff here, also.mem_column_iff there, ← rows]
    constructor
    · rintro ⟨i, below, position, holds⟩
      exact ⟨i, below, position, (same i below j left entry.2).1 holds⟩
    · rintro ⟨i, below, position, holds⟩
      exact ⟨i, below, position, (same i below j left entry.2).2 holds⟩
  cases first
  cases second
  simp_all

/-- All that is stored, with row numbers counted from `start`. -/
def entriesFrom (start : ℕ) (matrix : ColumnMatrix) : List Entry :=
  matrix.columns.zipIdx.flatMap fun column =>
    column.1.map fun entry => ⟨start + entry.1, (column.2 : ℤ), entry.2⟩

theorem Ordered.mem_entriesFrom_iff {matrix : ColumnMatrix} (ordered : matrix.Ordered) {start : ℕ}
    {entry : Entry} : entry ∈ matrix.entriesFrom start ↔
      ∃ i < matrix.rows, ∃ j < matrix.cols, matrix.Stores i j entry.value ∧
        entry.row = start + i ∧ entry.col = j := by
  simp only [entriesFrom, List.mem_flatMap, List.mem_map, Prod.exists,
    List.mem_zipIdx_iff_getElem?]
  constructor
  · rintro ⟨column, j, stored, position, value, own, rfl⟩
    obtain ⟨i, below, rfl, holds⟩ := (ordered.mem_column_iff stored).1 own
    exact ⟨i, below, j, (List.getElem?_eq_some_iff.1 stored).1, holds, rfl, rfl⟩
  · rintro ⟨i, below, j, inside, holds, row, col⟩
    have stored := List.getElem?_eq_getElem inside
    refine ⟨_, j, stored, (i : ℤ), entry.value, ?_, ?_⟩
    · exact (ordered.mem_column_iff stored).2 ⟨i, below, rfl, holds⟩
    · rw [← row, ← col]

/-- No position is stored twice. -/
theorem Ordered.nodup_entriesFrom {matrix : ColumnMatrix} (ordered : matrix.Ordered) (start : ℕ) :
    ((matrix.entriesFrom start).map fun entry => (entry.row, entry.col)).Nodup := by
  rw [entriesFrom, List.map_flatMap, List.nodup_flatMap]
  constructor
  · intro column member
    have distinct := (ordered.ascending _ (List.fst_mem_of_mem_zipIdx member)).distinct
    rw [List.map_map]
    refine List.Nodup.of_map (fun position => position.1 - (start : ℤ)) ?_
    have positions : (fun position : ℤ × ℤ => position.1 - (start : ℤ)) ∘
        (fun entry : Entry => (entry.row, entry.col)) ∘
          (fun entry : ℤ × Binary64 => ⟨start + entry.1, (column.2 : ℤ), entry.2⟩) = Prod.fst :=
      funext fun entry => add_sub_cancel_left _ _
    rwa [List.map_map, positions]
  · have numbers : matrix.columns.zipIdx.Pairwise fun a b => a.2 ≠ b.2 := by
      have nodup : (matrix.columns.zipIdx.map Prod.snd).Nodup := by
        rw [List.zipIdx_map_snd]
        exact List.nodup_range'
      exact List.pairwise_map.1 nodup
    refine numbers.imp fun apart => List.disjoint_left.2 fun position here there => apart ?_
    simp only [List.map_map, List.mem_map, Function.comp_apply] at here there
    obtain ⟨_, _, rfl⟩ := here
    obtain ⟨_, _, same⟩ := there
    exact (Int.ofNat_inj.1 (congrArg Prod.snd same)).symm

end ColumnMatrix

/-- Rows make a matrix that is in order if they store what it stores. -/
theorem ConstraintRow.matrix_eq {stored : ColumnMatrix} {rows : List ConstraintRow}
    (ordered : stored.Ordered) (count : rows.length = stored.rows)
    (distinct : ∀ row ∈ rows, row.line.Distinct)
    (same : ∀ i (below : i < rows.length), ∀ j < stored.cols, ∀ value,
      ((j : ℤ), value) ∈ rows[i].line ↔ stored.Stores i j value) :
    matrix stored.cols rows = stored := by
  have height : (matrix stored.cols rows).rows = rows.length := rows_matrix _ _
  refine (ordered_matrix _ _).ext ordered (height.trans count) (cols_matrix _ _) ?_
  intro i below j inside value
  rw [height] at below
  rw [cols_matrix] at inside
  have lines : ∀ line ∈ rows.map ConstraintRow.line, line.Distinct := by
    rw [List.forall_mem_map]
    exact distinct
  rw [← same i below j inside value, ColumnMatrix.Stores, matrix,
    ColumnMatrix.entry?_ofRows lines inside, List.getElem?_map, List.getElem?_eq_getElem below,
    Option.map_some, Option.bind_some,
    Line.lookup_eq_some_iff_mem (distinct _ (List.getElem_mem below))]

namespace RowMatrix

/-- A row stores what is stored under its number, as long as no position is stored twice. -/
theorem mem_row_ofStored {stored : StoredMatrix}
    (once : (stored.entries.map fun entry => (entry.row, entry.col)).Nodup) {i : ℕ}
    (below : i < stored.rows) {entry : ℤ × Binary64} :
    entry ∈ (ofStored stored).row i ↔ ⟨i, entry.1, entry.2⟩ ∈ stored.entries := by
  have plain : entry ∈ (ofEntries stored.rows stored.cols stored.entries).row i ↔
      ⟨i, entry.1, entry.2⟩ ∈ stored.entries := by
    simp only [row, ofEntries, List.getElem?_map, List.getElem?_range below, Option.map_some,
      Option.getD_some, List.mem_map, List.mem_filter, decide_eq_true_eq]
    constructor
    · rintro ⟨source, ⟨member, same⟩, rfl⟩
      rwa [← same]
    · intro member
      exact ⟨_, ⟨member, rfl⟩, rfl⟩
  have represented : (ofEntries stored.rows stored.cols stored.entries).Represents stored.rows
      stored.cols stored.numberAt := represents_ofEntries once
  unfold ofStored
  cases stored.layout with
  | triplets => rw [← plain, (perm_row_settled represented.distinct i).mem_iff]
  | byRow | byColumn => exact plain

theorem distinct_row_ofStored {stored : StoredMatrix}
    (once : (stored.entries.map fun entry => (entry.row, entry.col)).Nodup) (i : ℕ) :
    ((ofStored stored).row i).Distinct :=
  (represents_ofStored once).distinct_row i

end RowMatrix

namespace StandardForm

/-- A matrix stores the equalities of a form and below them its inequalities, in whatever order. -/
structure StackedIn (form : StandardForm) (stored : StoredMatrix) : Prop where
  rows : stored.rows = form.p + form.m
  cols : stored.cols = form.n
  entries : stored.entries.Perm (form.A.entriesFrom 0 ++ form.G.entriesFrom form.p)

namespace StackedIn

variable {form : StandardForm} {stored : StoredMatrix} (stacked : form.StackedIn stored)
  (orderedA : form.A.Ordered) (orderedG : form.G.Ordered)
include stacked orderedA orderedG

theorem mem_entries_iff {i j : ℕ} {value : Binary64} : ⟨i, j, value⟩ ∈ stored.entries ↔
    j < form.n ∧ ((i < form.p ∧ form.A.Stores i j value) ∨
      form.p ≤ i ∧ i < form.p + form.m ∧ form.G.Stores (i - form.p) j value) := by
  rw [stacked.entries.mem_iff, List.mem_append, orderedA.mem_entriesFrom_iff,
    orderedG.mem_entriesFrom_iff]
  constructor
  · rintro (⟨r, below, c, inside, holds, row, col⟩ | ⟨r, below, c, inside, holds, row, col⟩)
    · obtain rfl : i = r := by simpa using row
      obtain rfl : j = c := by simpa using col
      rw [form.equalityCols] at inside
      exact ⟨inside, Or.inl ⟨below, holds⟩⟩
    · obtain rfl : i = form.p + r := by
        simp only at row
        omega
      obtain rfl : j = c := by simpa using col
      refine ⟨inside, Or.inr ⟨Nat.le_add_right _ _, Nat.add_lt_add_left below _, ?_⟩⟩
      rwa [Nat.add_sub_cancel_left]
  · rintro ⟨inside, ⟨below, holds⟩ | ⟨lower, upper, holds⟩⟩
    · refine Or.inl ⟨i, below, j, ?_, holds, by simp, rfl⟩
      rw [form.equalityCols]
      exact inside
    · refine Or.inr ⟨i - form.p, ?_, j, inside, holds, ?_, rfl⟩
      · unfold m at upper
        omega
      · simp only
        omega

theorem nodup_positions : (stored.entries.map fun entry => (entry.row, entry.col)).Nodup := by
  rw [(stacked.entries.map _).nodup_iff, List.map_append, List.nodup_append]
  refine ⟨orderedA.nodup_entriesFrom 0, orderedG.nodup_entriesFrom form.p, ?_⟩
  intro upper inA lower inG same
  obtain ⟨first, memberA, rfl⟩ := List.mem_map.1 inA
  obtain ⟨second, memberG, rfl⟩ := List.mem_map.1 inG
  obtain ⟨r, below, _, _, _, rowA, _⟩ := orderedA.mem_entriesFrom_iff.1 memberA
  obtain ⟨_, _, _, _, _, rowG, _⟩ := orderedG.mem_entriesFrom_iff.1 memberG
  have rows := congrArg Prod.fst same
  simp only [p] at rows rowG
  omega

theorem isInside : stored.isInside := by
  refine List.all_eq_true.2 fun entry member => decide_eq_true ?_
  rw [stacked.rows, stacked.cols]
  rcases List.mem_append.1 (stacked.entries.mem_iff.1 member) with inA | inG
  · obtain ⟨r, below, c, inside, _, row, col⟩ := orderedA.mem_entriesFrom_iff.1 inA
    rw [form.equalityCols] at inside
    unfold Entry.IsInside p n
    omega
  · obtain ⟨r, below, c, inside, _, row, col⟩ := orderedG.mem_entriesFrom_iff.1 inG
    unfold Entry.IsInside m n
    omega

end StackedIn
end StandardForm
end ConicForm
