import ConicForm.Proofs.AgreeingRows
import ConicForm.Proofs.ConicAcceptance
import ConicForm.Proofs.RelabelledOrder

/-! Matrices whose columns have other numbers, in whatever way they are given. They are read as the
same rows with other column numbers, up to the order of the entries, and that order makes no
difference to what is gathered by column. -/
namespace ConicForm

namespace StoredMatrix

theorem row_of_checkByRow [Machine] {matrix : StoredMatrix} (checked : matrix.checkByRow = .ok ()) :
    ∀ entry ∈ matrix.entries, 0 ≤ entry.row ∧ entry.row < (matrix.rows : ℤ) := by
  unfold checkByRow at checked
  split at checked
  · unfold checkLines at checked
    split at checked
    next lines =>
      simpa [List.all_map, List.all_eq_true] using lines
    next => cases checked
  · obtain ⟨_, _, checked⟩ := Outcome.bind_eq_ok_iff.1 checked
    unfold checkInside at checked
    split at checked
    next inside =>
      exact fun entry member => (of_decide_eq_true (List.all_eq_true.1 inside entry member)).1
    next => cases checked

end StoredMatrix

/-- The rows store certain values, inside the columns and at each position at most one. -/
structure RowMatrix.Holds (matrix : RowMatrix) (rows cols : ℕ) (stores : ℕ → ℕ → Binary64 → Prop) :
    Prop where
  rowCount : matrix.rows = rows
  colCount : matrix.cols = cols
  inside : matrix.isInside
  distinct : ∀ i, (matrix.row i).Distinct
  mem_row : ∀ i < rows, ∀ entry, entry ∈ matrix.row i ↔
    ∃ j < cols, entry.1 = (j : ℤ) ∧ stores i j entry.2

namespace Datum

/-- Numbers in rows and columns: an array of them, nothing that would be one, or entries that are
stored at different positions inside a matrix. -/
inductive IsTable : Datum → Prop
  | bare {d : Datum} (bare : d.isBare) : IsTable d
  | dense {d : Datum} {array : NumberArray} {height width : ℕ}
      (read : NumberArray.ofDatum d = .ok array)
      (extents : array.shape.matrix? = some (height, width)) : IsTable d
  | sparse {stored : StoredMatrix} (inside : stored.isInside)
      (once : (stored.entries.map fun entry => (entry.row, entry.col)).Nodup) :
      IsTable (.sparse stored)

def tableExtents? : Datum → Option (ℕ × ℕ)
  | .sparse stored => some (stored.rows, stored.cols)
  | d => d.shape?.bind Shape.matrix?

/-- A table has the shape that is asked for. Anything bare will do for no rows. -/
def Tabulates (d : Datum) (rows cols : ℕ) : Prop :=
  if d.isBare then rows = 0 else d.tableExtents? = some (rows, cols)

/-- What is stored at a position of a table with `cols` columns. Zeros of an array are not. -/
def Stores (cols : ℕ) (d : Datum) (i j : ℕ) (value : Binary64) : Prop :=
  match d with
  | .sparse stored => ⟨i, j, value⟩ ∈ stored.entries
  | d => d.numbers[i * cols + j]? = some value ∧ value.isZero = false

section Dense

variable {d : Datum} (dense : ∀ stored, d ≠ .sparse stored)
include dense

theorem hasRoom_of_dense [Machine] : d.HasRoom := by
  cases d with
  | sparse stored => exact absurd rfl (dense stored)
  | _ => trivial

theorem stores_of_dense {cols i j : ℕ} {value : Binary64} : d.Stores cols i j value ↔
    d.numbers[i * cols + j]? = some value ∧ value.isZero = false := by
  cases d with
  | sparse stored => exact absurd rfl (dense stored)
  | _ => rfl

theorem tableExtents?_of_dense : d.tableExtents? = d.shape?.bind Shape.matrix? := by
  cases d with
  | sparse stored => exact absurd rfl (dense stored)
  | _ => rfl

end Dense

theorem dense_of_bare {d : Datum} (bare : d.isBare) : ∀ stored, d ≠ .sparse stored := by
  rintro stored rfl
  cases bare

theorem dense_of_ofDatum {d : Datum} {array : NumberArray}
    (read : NumberArray.ofDatum d = .ok array) : ∀ stored, d ≠ .sparse stored := by
  rintro stored rfl
  cases read

theorem isEmpty_eq_isBare {d : Datum} {shape : Shape} (shaped : d.shape? = some shape)
    (dense : ∀ stored, d ≠ .sparse stored) : d.isEmpty = .ok d.isBare := by
  cases d with
  | sparse stored => exact absurd rfl (dense stored)
  | absent => rfl
  | _ => simp [isEmpty, isBare, shaped]

theorem isEmpty_of_bare {d : Datum} (bare : d.isBare) : d.isEmpty = .ok true := by
  cases d with
  | absent => rfl
  | list items =>
    cases shaped : (list items).shape? with
    | none => simp [isBare, shaped] at bare
    | some shape => simpa [isEmpty, isBare, shaped] using bare
  | zeros shape => simpa [isEmpty, isBare, shape?] using bare
  | _ => cases bare

theorem emptyRows_eq_ok_iff {rows cols : ℕ} {matrix : RowMatrix} :
    emptyRows (.integer rows) (.integer cols) = .ok matrix ↔ rows = 0 ∧ matrix = ⟨cols, []⟩ := by
  refine ⟨emptyRows_eq_ok, ?_⟩
  rintro ⟨rfl, rfl⟩
  rw [emptyRows_integer, if_pos rfl]

theorem expectShape_eq_ok_iff {rows cols : ℕ} {given : ℕ × ℕ} :
    expectShape (.integer rows) (.integer cols) given = .ok () ↔ given = (rows, cols) := by
  rw [expectShape_integer, Prod.ext_iff]
  simp only [Nat.cast_inj, eq_comm (a := rows), eq_comm (a := cols)]
  split
  next fits => simp [fits]
  next misfit => simp [misfit]

/-- The rows that a table is read as. -/
def tableRows (cols : ℕ) (d : Datum) (rows : ℕ) : RowMatrix :=
  match d with
  | .sparse stored => RowMatrix.ofStored stored
  | d => RowMatrix.ofDense rows cols d.numbers

theorem tableRows_of_dense {d : Datum} (dense : ∀ stored, d ≠ .sparse stored) (rows cols : ℕ) :
    d.tableRows cols rows = RowMatrix.ofDense rows cols d.numbers := by
  cases d with
  | sparse stored => exact absurd rfl (dense stored)
  | _ => rfl

/-- A table is read if it has the shape that is asked for and there is room for its rows. -/
theorem toRows_eq_ok_iff [Machine] {d : Datum} (table : d.IsTable) {rows cols : ℕ}
    {matrix : RowMatrix} :
    d.toRows (.integer rows) (.integer cols) = .ok matrix ↔
      d.Tabulates rows cols ∧ d.HasRoom ∧ matrix = d.tableRows cols rows := by
  have ofBare (bare : d.isBare) : d.toRows (.integer rows) (.integer cols) = .ok matrix ↔
      d.Tabulates rows cols ∧ d.HasRoom ∧ matrix = d.tableRows cols rows := by
    have dense := dense_of_bare bare
    rw [toRows_dense dense, isEmpty_of_bare bare, Tabulates, if_pos bare]
    simp only [Except.bind, if_true, emptyRows_eq_ok_iff, hasRoom_of_dense dense, true_and,
      tableRows_of_dense dense]
    refine and_congr_right ?_
    rintro rfl
    rfl
  cases table with
  | bare bare => exact ofBare bare
  | @sparse stored inside once =>
    have gathered := StoredMatrix.checkByRow_eq_ok_iff inside
    have notBare : ¬(sparse stored).isBare := by simp [isBare, shape?, Shape.count]
    rw [toRows_sparse, Tabulates, if_neg notBare]
    constructor
    · intro given
      obtain ⟨_, checked, given⟩ := Outcome.bind_eq_ok_iff.1 given
      obtain ⟨_, expected, rfl⟩ := Outcome.map_eq_ok_iff.1 given
      exact ⟨congrArg some (expectShape_eq_ok_iff.1 expected),
        gathered.1 (Outcome.mapError_eq_ok_iff.1 checked), rfl⟩
    · rintro ⟨extents, room, rfl⟩
      rw [gathered.2 room, expectShape_eq_ok_iff.2 (Option.some.inj extents)]
      rfl
  | @dense _ array height width read extents =>
    by_cases bare : d.isBare
    · exact ofBare bare
    · have dense := dense_of_ofDatum read
      obtain ⟨shaped, numbers⟩ := numbers_of_ofDatum read
      rw [toRows_dense dense, isEmpty_eq_isBare shaped dense, Tabulates, if_neg bare,
        tableExtents?_of_dense dense, shaped, Option.bind_some, extents, read,
        Bool.eq_false_of_not_eq_true bare]
      simp only [Except.bind, Bool.false_eq_true, if_false, denseRows, extents]
      constructor
      · intro given
        obtain ⟨_, expected, rfl⟩ := Outcome.map_eq_ok_iff.1 given
        cases expectShape_eq_ok_iff.1 expected
        exact ⟨rfl, hasRoom_of_dense dense, by rw [tableRows_of_dense dense, numbers]⟩
      · rintro ⟨same, _, rfl⟩
        cases same
        rw [expectShape_eq_ok_iff.2 rfl, tableRows_of_dense dense, numbers]
        rfl

/-- The rows of a table store what it stores. -/
theorem holds_tableRows {d : Datum} (table : d.IsTable) {rows cols : ℕ}
    (tabulates : d.Tabulates rows cols) :
    (d.tableRows cols rows).Holds rows cols (d.Stores cols) := by
  have ofDense (dense : ∀ stored, d ≠ .sparse stored) :
      (d.tableRows cols rows).Holds rows cols (d.Stores cols) := by
    rw [tableRows_of_dense dense]
    refine ⟨RowMatrix.rows_ofDense _ _ _, rfl, RowMatrix.isInside_ofDense _ _ _, fun i =>
      (RowMatrix.represents_ofDense rows cols d.numbers).distinct_row i, fun i below entry => ?_⟩
    obtain ⟨position, value⟩ := entry
    rw [RowMatrix.row_ofDense _ below, Line.mem_ofDense]
    simp only [stores_of_dense dense]
    constructor
    · rintro ⟨j, same, stored, nonzero⟩
      have inside := (List.getElem?_eq_some_iff.1 stored).1
      rw [List.length_take] at inside
      rw [List.getElem?_take_of_lt (by omega), List.getElem?_drop] at stored
      exact ⟨j, by omega, same, stored, nonzero⟩
    · rintro ⟨j, inside, same, stored, nonzero⟩
      refine ⟨j, same, ?_, nonzero⟩
      rwa [List.getElem?_take_of_lt inside, List.getElem?_drop]
  cases table with
  | bare bare => exact ofDense (dense_of_bare bare)
  | dense read _ => exact ofDense (dense_of_ofDatum read)
  | @sparse stored inside once =>
    have notBare : ¬(sparse stored).isBare := by simp [isBare, shape?, Shape.count]
    rw [Tabulates, if_neg notBare] at tabulates
    obtain ⟨rfl, rfl⟩ : stored.rows = rows ∧ stored.cols = cols := by
      simpa [tableExtents?] using tabulates
    refine ⟨RowMatrix.rows_ofStored _, RowMatrix.cols_ofStored _,
      RowMatrix.isInside_ofStored inside, RowMatrix.distinct_row_ofStored once,
      fun i below entry => ?_⟩
    rw [tableRows, RowMatrix.mem_row_ofStored once below]
    constructor
    · intro member
      have within := of_decide_eq_true (List.all_eq_true.1 inside _ member)
      obtain ⟨j, same⟩ := Int.eq_ofNat_of_zero_le within.2.1
      have upper := within.2.2
      simp only at same upper
      refine ⟨j, by omega, same, ?_⟩
      rwa [same] at member
    · rintro ⟨j, _, same, member⟩
      rwa [same]

theorem bare_of_isEmpty {d : Datum} (empty : d.isEmpty = .ok true) : d.isBare := by
  cases d with
  | absent => rfl
  | sparse stored => cases empty
  | _ =>
    simp only [isEmpty] at empty
    split at empty
    next => cases empty
    next shape shaped => simpa [isBare, shaped] using empty

/-- What is read as rows inside their columns is a table, unless it stores a position twice. -/
theorem isTable_of_toRows [Machine] {d : Datum} {rows cols : ℕ} {matrix : RowMatrix}
    (once : d.StoresOnce)
    (read : d.toRows (.integer rows) (.integer cols) = .ok matrix) (inside : matrix.isInside) :
    d.IsTable := by
  by_cases isSparse : ∃ stored, d = .sparse stored
  · obtain ⟨stored, rfl⟩ := isSparse
    refine .sparse (List.all_eq_true.2 fun entry member => decide_eq_true ?_) once
    rw [toRows_sparse] at read
    obtain ⟨_, checked, read⟩ := Outcome.bind_eq_ok_iff.1 read
    obtain ⟨_, _, rfl⟩ := Outcome.map_eq_ok_iff.1 read
    have lines := StoredMatrix.row_of_checkByRow (Outcome.mapError_eq_ok_iff.1 checked) entry member
    obtain ⟨i, row⟩ := Int.eq_ofNat_of_zero_le lines.1
    have stored : (entry.col, entry.value) ∈ (RowMatrix.ofStored stored).row i := by
      rw [RowMatrix.mem_row_ofStored once (by omega), ← row]
      exact member
    have within := RowMatrix.within_row inside i _ stored
    rw [RowMatrix.cols_ofStored] at within
    exact ⟨lines, within⟩
  · have dense : ∀ stored, d ≠ .sparse stored := fun stored same => isSparse ⟨stored, same⟩
    rw [toRows_dense dense] at read
    obtain ⟨empty, isEmpty, read⟩ := Outcome.bind_eq_ok_iff.1 read
    cases empty with
    | true => exact .bare (bare_of_isEmpty isEmpty)
    | false =>
      obtain ⟨array, converted, read⟩ := Outcome.bind_eq_ok_iff.1 read
      exact .dense converted (denseRows_eq_ok read).1

theorem holds_toRows [Machine] {d : Datum} {rows cols : ℕ} {matrix : RowMatrix}
    (once : d.StoresOnce)
    (read : d.toRows (.integer rows) (.integer cols) = .ok matrix) (inside : matrix.isInside) :
    matrix.Holds rows cols (d.Stores cols) := by
  have table := isTable_of_toRows once read inside
  obtain ⟨tabulates, _, rfl⟩ := (toRows_eq_ok_iff table).1 read
  exact holds_tableRows table tabulates

/-- Two tables store the same, one under other column numbers. They need not be given in the same
way, as long as there is room for the rows of both or of neither. -/
structure Relabels [Machine] {count : ℕ} (permutation : Equiv.Perm (Fin count)) (d other : Datum) :
    Prop where
  table : d.IsTable
  otherTable : other.IsTable
  extents : ∀ rows, other.Tabulates rows count ↔ d.Tabulates rows count
  room : other.HasRoom ↔ d.HasRoom
  stores : ∀ rows, d.Tabulates rows count → ∀ i < rows, ∀ (j : Fin count) value,
    other.Stores count i (permutation j) value ↔ d.Stores count i j value

namespace Relabels

variable [Machine] {count : ℕ} {permutation : Equiv.Perm (Fin count)} {d other : Datum}
  (relabels : d.Relabels permutation other)
include relabels

theorem symm : other.Relabels permutation.symm d where
  table := relabels.otherTable
  otherTable := relabels.table
  extents := fun rows => (relabels.extents rows).symm
  room := relabels.room.symm
  stores := by
    intro rows tabulates i below j value
    have moved := relabels.stores rows ((relabels.extents rows).1 tabulates) i below
      (permutation.symm j) value
    rw [Equiv.apply_symm_apply] at moved
    exact moved.symm

/-- If one of the tables is read then so is the other, as the same rows with other numbers. -/
theorem exists_toRows {rows : ℕ} {matrix : RowMatrix}
    (read : d.toRows (.integer rows) (.integer count) = .ok matrix) :
    ∃ moved, other.toRows (.integer rows) (.integer count) = .ok moved ∧ moved.isInside ∧
      ∀ i, (matrix.row i).Distinct ∧ (matrix.row i).Within count ∧
        (moved.row i).Perm ((matrix.row i).reposition (relabel permutation)) := by
  obtain ⟨tabulates, room, rfl⟩ := (toRows_eq_ok_iff relabels.table).1 read
  have alsoTabulates := (relabels.extents rows).2 tabulates
  have holds := holds_tableRows relabels.table tabulates
  have also := holds_tableRows relabels.otherTable alsoTabulates
  refine ⟨_, (toRows_eq_ok_iff relabels.otherTable).2
    ⟨alsoTabulates, relabels.room.2 room, rfl⟩, also.inside, fun i => ?_⟩
  have within := RowMatrix.within_row holds.inside i
  rw [holds.colCount] at within
  refine ⟨holds.distinct i, within, ?_⟩
  by_cases below : i < rows
  · have distinct : ((d.tableRows count rows).row i |>.reposition (relabel permutation)).Distinct :=
      (holds.distinct i).reposition fun _ _ _ _ same =>
        Function.LeftInverse.injective (relabel_symm permutation) same
    rw [List.perm_ext_iff_of_nodup (also.distinct i).of_map distinct.of_map]
    rintro ⟨position, value⟩
    rw [also.mem_row i below]
    simp only [Line.reposition, List.mem_map, Prod.mk.injEq, Prod.exists, holds.mem_row i below]
    constructor
    · rintro ⟨k, inside, rfl, stored⟩
      have stores := relabels.stores rows tabulates i below (permutation.symm ⟨k, inside⟩) value
      rw [Equiv.apply_symm_apply] at stores
      refine ⟨_, value, ⟨_, (permutation.symm ⟨k, inside⟩).isLt, rfl, stores.1 stored⟩, ?_, rfl⟩
      rw [relabel_natCast, relabelNat_val, Equiv.apply_symm_apply]
    · rintro ⟨_, _, ⟨j, inside, rfl, stored⟩, rfl, rfl⟩
      have stores := relabels.stores rows tabulates i below ⟨j, inside⟩
      refine ⟨_, (permutation ⟨j, inside⟩).isLt, ?_, (stores _).2 stored⟩
      rw [relabel_natCast, ← relabelNat_val]
  · have none {matrix : RowMatrix} (height : matrix.rows = rows) : matrix.row i = [] := by
      unfold RowMatrix.row
      unfold RowMatrix.rows at height
      rw [List.getElem?_eq_none (by omega), Option.getD_none]
    rw [none holds.rowCount, none also.rowCount]
    exact .refl _

end Relabels
end Datum

namespace ConstraintRow

/-- The entries of the rows are the same, in whatever order, and so are the right-hand sides. -/
structure Alike (row other : ConstraintRow) : Prop where
  line : row.line.Perm other.line
  bound : row.bound = other.bound

theorem Alike.refl (row : ConstraintRow) : row.Alike row := ⟨.refl _, rfl⟩

theorem Alike.scale {row other : ConstraintRow} (alike : row.Alike other) (factor : Binary64) :
    (scale factor row).Alike (scale factor other) :=
  ⟨alike.line.map _, by rw [ConstraintRow.scale, ConstraintRow.scale, alike.bound]⟩

theorem Alike.agree {row other : ConstraintRow} (alike : row.Alike other)
    (distinct : row.line.Distinct) : row.Agree Eq other where
  line := ⟨distinct, (alike.line.map Prod.fst).nodup_iff.1 distinct,
    fun j => Line.lookup_perm distinct alike.line j⟩
  bound := alike.bound.symm

/-- The order of the entries within the rows is lost once they are gathered by column. -/
theorem matrix_congr {cols : ℕ} {rows others : List ConstraintRow}
    (alike : List.Forall₂ Alike rows others) (distinct : ∀ row ∈ rows, row.line.Distinct) :
    matrix cols rows = matrix cols others := by
  have agree : List.Forall₂ (Agree Eq) rows others := by
    induction alike with
    | nil => exact .nil
    | cons own _ ih =>
      rw [List.forall_mem_cons] at distinct
      exact .cons (own.agree distinct.1) (ih distinct.2)
  exact (agree_matrix agree keptByNegation_eq cols).eq

end ConstraintRow
end ConicForm
