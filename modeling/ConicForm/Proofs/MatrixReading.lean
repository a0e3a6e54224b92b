import ConicForm.Datum.Matrix
import ConicForm.Proofs.Outcome
import ConicForm.Proofs.SparseRows

/-! What reading does to the numbers a caller gives. Vectors keep their numbers, and the rows that a
matrix is read as have the same number at each position as the matrix itself, whether it is given as
nested lists or as stored entries. -/
namespace ConicForm

/-- A list, or the pointers to some lines of a matrix, has room for a number of rows. -/
def Capacity.HoldsLines [Machine] (count : ℕ) : Prop := 8 * ((count : ℤ) + 1) ≤ Machine.memory

/-- A list of a number of items has room. -/
def Capacity.Lists [Machine] (count : ℕ) : Prop := 8 * (count : ℤ) ≤ Machine.memory

namespace Capacity

theorem HoldsLines.lists [Machine] {count : ℕ} (room : HoldsLines count) : Lists count := by
  unfold HoldsLines at room
  unfold Lists
  omega

theorem Lists.mono [Machine] {few many : ℕ} (room : Lists many) (le : few ≤ many) :
    Lists few := by
  unfold Lists at room ⊢
  omega

theorem lists_zero [Machine] : Lists 0 := by
  unfold Lists
  omega

theorem HoldsLines.lt_word [Machine] {count : ℕ} (room : HoldsLines count) :
    (count : ℤ) < word := by
  have limit := Machine.memory_lt_word
  unfold HoldsLines at room
  omega

theorem writable_of_holds [Machine] {count : ℕ} (room : HoldsLines count) : Writable count := by
  have positive : 0 < word := by decide
  exact writable_of_isWord ⟨by omega, room.lt_word⟩

theorem listLength_of_lists [Machine] {count : ℕ} (room : Lists count) :
    listLength count = .ok count := by
  unfold Lists at room
  have limit := Machine.memory_lt_word
  rw [listLength, if_neg (by omega), if_neg (by omega), Int.toNat_natCast]

theorem arrayLength_of_holds [Machine] {bytes : ℤ} {count : ℕ} (few : 0 ≤ bytes ∧ bytes ≤ 8)
    (room : HoldsLines count) : arrayLength bytes ((count : ℤ) + 1) = .ok (count + 1) := by
  have size : bytes * ((count : ℤ) + 1) ≤ 8 * ((count : ℤ) + 1) :=
    Int.mul_le_mul_of_nonneg_right few.2 (by omega)
  unfold HoldsLines at room
  have limit := Machine.memory_lt_word
  rw [arrayLength, if_neg (by omega), if_neg (by omega)]
  rfl

theorem arrayLength_one_eq_ok_iff [Machine] {count length : ℕ} :
    arrayLength 1 count = .ok length ↔ length = count ∧ (count : ℤ) ≤ Machine.memory := by
  have limit := Machine.memory_lt_word
  unfold arrayLength
  split
  · simp only [reduceCtorEq, false_iff]
    omega
  · split
    · simp only [reduceCtorEq, false_iff]
      omega
    · simp only [Except.ok.injEq, Int.toNat_natCast]
      omega

theorem arrayLength_eq_error [Machine] {bytes n : ℤ} {cause : DataFault}
    (failed : arrayLength bytes n = .error cause) : cause = .malformed ∨ cause = .outOfMemory := by
  unfold arrayLength at failed
  split at failed
  · cases failed
    exact .inl rfl
  · split at failed <;> cases failed
    exact .inr rfl

end Capacity

/-- The number at a position of a sparse matrix that stores none of them twice. -/
def StoredMatrix.numberAt (matrix : StoredMatrix) (i j : ℕ) : ℚ :=
  ((matrix.entries.find? fun entry => entry.row = (i : ℤ) ∧ entry.col = (j : ℤ)).map
    fun entry => entry.value.toRat).getD 0

namespace Datum

/-- The numbers of an array, in reading order. -/
def numbers (d : Datum) : List Binary64 :=
  d.entries.filterMap fun entry => entry.toBinary64.toOption

/-- The number at a position of a matrix with `cols` columns. -/
def numberAt (cols : ℕ) (d : Datum) (i j : ℕ) : ℚ :=
  match d with
  | .sparse matrix => matrix.numberAt i j
  | d => (d.numbers.getD (i * cols + j) .zero).toRat

/-- No position of a matrix is stored twice. -/
def StoresOnce : Datum → Prop
  | .sparse matrix => (matrix.entries.map fun entry => (entry.row, entry.col)).Nodup
  | _ => True

/-- All numbers of a vector are finite. -/
def FiniteVector (d : Datum) : Prop := ∀ x ∈ d.numbers, x.isFinite

/-- All numbers of a matrix are finite. A matrix that is absent has none. -/
def FiniteMatrix : Datum → Prop
  | .absent => True
  | .sparse matrix => ∀ entry ∈ matrix.entries, entry.value.isFinite
  | d => d.FiniteVector

theorem filterMap_of_mapM {items : List Datum} {values : List Binary64}
    (read : items.mapM toBinary64 = .ok values) :
    items.filterMap (fun entry => entry.toBinary64.toOption) = values := by
  induction Outcome.mapM_eq_ok_iff.1 read with
  | nil => rfl
  | @cons item value items values first rest ih =>
    rw [List.filterMap_cons, first]
    exact congrArg (value :: ·) (ih (Outcome.mapM_eq_ok_iff.2 rest))

theorem numbers_of_ofDatum {d : Datum} {array : NumberArray}
    (read : NumberArray.ofDatum d = .ok array) :
    d.shape? = some array.shape ∧ d.numbers = array.entries := by
  unfold NumberArray.ofDatum at read
  split at read
  · cases read
  next shape shaped =>
    split at read
    · cases read
    next entries converted =>
      cases read
      exact ⟨shaped, filterMap_of_mapM converted⟩

theorem numbers_of_toEntries {d : Datum} {values : List Binary64}
    (read : d.toEntries = .ok values) : d.numbers = values := by
  obtain ⟨array, converted, rfl⟩ := Outcome.map_eq_ok_iff.1 read
  exact (numbers_of_ofDatum converted).2

theorem toEntries_of_toVector {name : String} {d : Datum} {values : List Binary64}
    (read : d.toVector name = .ok values) : d.toEntries = .ok values := by
  obtain ⟨array, converted, flat⟩ := Outcome.bind_eq_ok_iff.1 read
  split at flat
  · cases flat
  · cases flat
    rw [toEntries, converted, Except.map]

theorem numbers_of_toVector {name : String} {d : Datum} {values : List Binary64}
    (read : d.toVector name = .ok values) : d.numbers = values :=
  numbers_of_toEntries (toEntries_of_toVector read)

end Datum

namespace Line

theorem mem_ofDense {values : List Binary64} {position : ℤ} {value : Binary64} :
    (position, value) ∈ ofDense values ↔
      ∃ j : ℕ, position = j ∧ values[j]? = some value ∧ value.isZero = false := by
  simp only [ofDense, List.mem_map, List.mem_filter, Prod.mk.injEq, Prod.exists,
    List.mem_zipIdx_iff_getElem?, Bool.not_eq_true']
  constructor
  · rintro ⟨v, j, ⟨stored, nonzero⟩, rfl, rfl⟩
    exact ⟨j, rfl, stored, nonzero⟩
  · rintro ⟨j, rfl, stored, nonzero⟩
    exact ⟨value, j, ⟨stored, nonzero⟩, rfl, rfl⟩

theorem distinct_ofDense (values : List Binary64) : (ofDense values).Distinct := by
  have positions : (ofDense values).map Prod.fst =
      ((values.zipIdx.filter fun entry => !entry.1.isZero).map Prod.snd).map
        (Nat.cast : ℕ → ℤ) := by
    simp [ofDense, Function.comp_def]
  have listed : (values.zipIdx.map Prod.snd).Nodup := by
    rw [List.zipIdx_map_snd]
    exact List.nodup_range'
  rw [Distinct, positions]
  exact ((listed.sublist (List.filter_sublist.map _))).map Nat.cast_injective

theorem within_ofDense (values : List Binary64) : (ofDense values).Within values.length := by
  rintro ⟨position, value⟩ member
  obtain ⟨j, rfl, stored, _⟩ := mem_ofDense.1 member
  have := (List.getElem?_eq_some_iff.1 stored).1
  simp only
  omega

/-- A zero that is not stored is still the number at its position. -/
theorem coefficient_ofDense (values : List Binary64) (j : ℕ) :
    (ofDense values).coefficient j = (values.getD j .zero).toRat := by
  have stored (value : Binary64) : (ofDense values).lookup (j : ℤ) = some value ↔
      values[j]? = some value ∧ value.isZero = false := by
    rw [lookup_eq_some_iff_mem (distinct_ofDense values), mem_ofDense]
    simp
  rw [coefficient, List.getD_eq_getElem?_getD]
  cases found : (ofDense values).lookup (j : ℤ) with
  | some value => simp [((stored value).1 found).1]
  | none =>
    cases given : values[j]? with
    | none => rfl
    | some value =>
      cases isZero : value.isZero with
      | true => simp [Binary64.toRat_of_isZero isZero]
      | false => simp [(stored value).2 ⟨given, isZero⟩] at found

end Line

namespace RowMatrix

/-- The rows have the numbers of a matrix, and store no position twice. -/
structure Represents (matrix : RowMatrix) (rows cols : ℕ) (number : ℕ → ℕ → ℚ) : Prop where
  rowCount : matrix.lines.length = rows
  colCount : matrix.cols = cols
  distinct : ∀ line ∈ matrix.lines, line.Distinct
  coefficient : ∀ i j : ℕ, i < rows → j < cols → (matrix.row i).coefficient j = number i j

theorem Represents.distinct_row {matrix : RowMatrix} {rows cols : ℕ} {number : ℕ → ℕ → ℚ}
    (represents : matrix.Represents rows cols number) (i : ℕ) : (matrix.row i).Distinct := by
  unfold row
  cases found : matrix.lines[i]? with
  | none => exact List.nodup_nil
  | some line => exact represents.distinct line (List.mem_of_getElem? found)

theorem isInside_of_check {matrix : RowMatrix} (checked : matrix.checkInside = .ok ()) :
    matrix.isInside := by
  unfold checkInside at checked
  split at checked
  · assumption
  · cases checked

theorem isInside_iff {matrix : RowMatrix} :
    matrix.isInside ↔ ∀ line ∈ matrix.lines, line.Within matrix.cols := by
  simp [isInside, Line.Within]

theorem within_row {matrix : RowMatrix} (inside : matrix.isInside) (i : ℕ) :
    (matrix.row i).Within matrix.cols := by
  unfold row
  cases found : matrix.lines[i]? with
  | none => exact fun entry member => by cases member
  | some line => exact isInside_iff.1 inside line (List.mem_of_getElem? found)

theorem isInside_ofDense (rows cols : ℕ) (values : List Binary64) :
    (ofDense rows cols values).isInside := by
  rw [isInside_iff]
  simp only [ofDense, denseLines_eq_map, List.forall_mem_map]
  intro i _ entry member
  have within := Line.within_ofDense _ entry member
  have width := List.length_take_le cols (values.drop (i * cols))
  omega

/-- Entries inside a matrix stay inside when they are read by rows, even if they share positions. -/
theorem isInside_ofStored {stored : StoredMatrix} (inside : stored.isInside) :
    (ofStored stored).isInside := by
  have plain : ∀ line ∈ (ofEntries stored.rows stored.cols stored.entries).lines,
      line.Within stored.cols := by
    simp only [ofEntries, List.forall_mem_map]
    intro i _ entry member
    obtain ⟨source, chosen, rfl⟩ := List.mem_map.1 member
    exact (of_decide_eq_true (List.all_eq_true.1 inside source (List.mem_filter.1 chosen).1)).2
  rw [isInside_iff]
  unfold ofStored
  cases stored.layout with
  | triplets => exact Line.within_settle plain
  | byRow | byColumn => exact plain

/-- A row has the product with a vector that its numbers have. -/
theorem Represents.product_row {K : Type*} [Field K] [CharZero K] {matrix : RowMatrix}
    {rows cols : ℕ} {number : ℕ → ℕ → ℚ} (represents : matrix.Represents rows cols number)
    (inside : matrix.isInside) {i : ℕ} (below : i < rows) (x : List K) :
    (matrix.row i).product (entryAt x) =
      ∑ j ∈ Finset.range cols, (number i j : K) * x.getD j 0 := by
  have within := within_row inside i
  rw [represents.colCount] at within
  rw [Line.product_eq_sum (represents.distinct_row i) within]
  apply Finset.sum_congr rfl
  intro j column
  rw [represents.coefficient i j below (Finset.mem_range.1 column), entryAt_natCast]

theorem row_ofDense {rows cols i : ℕ} (values : List Binary64) (below : i < rows) :
    (ofDense rows cols values).row i = Line.ofDense ((values.drop (i * cols)).take cols) := by
  simp [row, ofDense, denseLines_eq_map, List.getElem?_range below]

theorem represents_ofDense (rows cols : ℕ) (values : List Binary64) :
    (ofDense rows cols values).Represents rows cols
      fun i j => (values.getD (i * cols + j) .zero).toRat where
  rowCount := rows_ofDense rows cols values
  colCount := rfl
  distinct := by
    intro line member
    simp only [ofDense, denseLines_eq_map] at member
    obtain ⟨i, _, rfl⟩ := List.mem_map.1 member
    exact Line.distinct_ofDense _
  coefficient := by
    intro i j below column
    rw [row_ofDense values below, Line.coefficient_ofDense]
    simp [List.getD_eq_getElem?_getD, column]

theorem represents_empty (cols : ℕ) (number : ℕ → ℕ → ℚ) :
    (⟨cols, []⟩ : RowMatrix).Represents 0 cols number where
  rowCount := rfl
  colCount := rfl
  distinct := fun _ member => by cases member
  coefficient := fun _ _ below => absurd below (Nat.not_lt_zero _)

theorem lookup_filter_row (entries : List Entry) (i j : ℤ) :
    ((entries.filter fun entry => entry.row = i).map
      fun entry => (entry.col, entry.value)).lookup j =
      (entries.find? fun entry => entry.row = i ∧ entry.col = j).map Entry.value := by
  induction entries with
  | nil => rfl
  | cons entry entries ih =>
    by_cases sameRow : entry.row = i
    · by_cases sameCol : entry.col = j
      · simp [sameRow, sameCol]
      · have other : (j == entry.col) = false := by simpa using Ne.symm sameCol
        simp only [sameRow, sameCol, decide_true, List.filter_cons_of_pos, List.map_cons,
          List.lookup_cons, other, ih, and_false, decide_false, Bool.false_eq_true,
          not_false_eq_true, List.find?_cons_of_neg]
    · simp [sameRow, ih]

theorem represents_ofEntries {rows cols : ℕ} {entries : List Entry}
    (once : (entries.map fun entry => (entry.row, entry.col)).Nodup) :
    (ofEntries rows cols entries).Represents rows cols
      fun i j => ((entries.find? fun entry => entry.row = (i : ℤ) ∧ entry.col = (j : ℤ)).map
        fun entry => entry.value.toRat).getD 0 where
  rowCount := rows_ofEntries rows cols entries
  colCount := rfl
  distinct := by
    intro line member
    obtain ⟨i, _, rfl⟩ := List.mem_map.1 member
    have kept := once.sublist ((List.filter_sublist (p := fun e => e.row = (i : ℤ))).map _)
    rw [Line.Distinct, List.map_map]
    refine List.Nodup.of_map (fun col => ((i : ℤ), col)) ?_
    convert kept using 1
    rw [List.map_map]
    apply List.map_congr_left
    intro entry stored
    simpa using (of_decide_eq_true (List.mem_filter.1 stored).2 : entry.row = (i : ℤ)).symm
  coefficient := by
    intro i j below _
    have line : (ofEntries rows cols entries).row i =
        (entries.filter fun entry => entry.row = (i : ℤ)).map
          fun entry => (entry.col, entry.value) := by
      simp [row, ofEntries, List.getElem?_range below]
    rw [line, Line.coefficient, lookup_filter_row]
    cases entries.find? fun entry => entry.row = (i : ℤ) ∧ entry.col = (j : ℤ) <;> rfl

/-- Settling changes the order of the entries only, as long as none share a position. -/
theorem perm_row_settled {matrix : RowMatrix} (distinct : ∀ line ∈ matrix.lines, line.Distinct)
    (i : ℕ) : (matrix.settled.row i).Perm (matrix.row i) := by
  have perms := List.forall₂_iff_get.1 (Line.settle_perm distinct)
  unfold row settled
  by_cases inside : i < matrix.lines.length
  · have below : i < (Line.settle matrix.lines).length := by rwa [Line.length_settle]
    simpa [List.getElem?_eq_getElem inside, List.getElem?_eq_getElem below] using
      perms.2 i below inside
  · have beyond : ¬i < (Line.settle matrix.lines).length := by rwa [Line.length_settle]
    rw [List.getElem?_eq_none (Nat.le_of_not_lt inside),
      List.getElem?_eq_none (Nat.le_of_not_lt beyond)]

theorem Represents.settled {matrix : RowMatrix} {rows cols : ℕ} {number : ℕ → ℕ → ℚ}
    (represents : matrix.Represents rows cols number) :
    matrix.settled.Represents rows cols number where
  rowCount := (Line.length_settle _).trans represents.rowCount
  colCount := represents.colCount
  distinct := fun _ member => (Line.ascending_of_mem_settle member).distinct
  coefficient := by
    intro i j below column
    rw [← represents.coefficient i j below column, Line.coefficient, Line.coefficient,
      Line.lookup_perm (represents.distinct_row i) (perm_row_settled represents.distinct i).symm]

theorem cols_ofStored (matrix : StoredMatrix) : (ofStored matrix).cols = matrix.cols := by
  unfold ofStored
  cases matrix.layout <;> rfl

theorem represents_ofStored {matrix : StoredMatrix}
    (once : (matrix.entries.map fun entry => (entry.row, entry.col)).Nodup) :
    (ofStored matrix).Represents matrix.rows matrix.cols matrix.numberAt := by
  have plain : (ofEntries matrix.rows matrix.cols matrix.entries).Represents matrix.rows
      matrix.cols matrix.numberAt := represents_ofEntries once
  unfold ofStored
  cases matrix.layout with
  | triplets => exact plain.settled
  | byRow | byColumn => exact plain

end RowMatrix

namespace StoredMatrix

/-- The entries are gathered by row already, or there is room for the pointers to the rows. -/
def HasRoom [Machine] (matrix : StoredMatrix) : Prop :=
  matrix.layout = .byRow ∨ matrix.checkPointers matrix.rows = .ok ()

theorem checkByRow_eq_ok_iff [Machine] {matrix : StoredMatrix} (inside : matrix.isInside) :
    matrix.checkByRow = .ok () ↔ matrix.HasRoom := by
  have lines : checkLines matrix.rows (matrix.entries.map Entry.row) = .ok () := by
    rw [checkLines, if_pos]
    refine List.all_eq_true.2 (List.forall_mem_map.2 fun entry member => decide_eq_true ?_)
    exact (of_decide_eq_true (List.all_eq_true.1 inside entry member)).1
  have checked : matrix.checkInside = .ok () := by rw [checkInside, if_pos inside]
  by_cases gathered : matrix.layout = .byRow
  · simp [checkByRow, HasRoom, gathered, lines]
  · simp only [checkByRow, HasRoom, gathered, if_false, Outcome.bind_eq_ok_iff, checked, and_true,
      false_or]
    exact ⟨fun ⟨_, given⟩ => given, fun given => ⟨(), given⟩⟩

theorem checkByRow_eq_error [Machine] {matrix : StoredMatrix} {cause : DataFault}
    (failed : matrix.checkByRow = .error cause) : cause = .malformed ∨ cause = .outOfMemory := by
  unfold checkByRow at failed
  split at failed
  · unfold checkLines at failed
    split at failed <;> cases failed
    exact .inl rfl
  · rcases Outcome.bind_eq_error_iff.1 failed with full | ⟨_, _, outside⟩
    · unfold checkPointers at full
      exact Capacity.arrayLength_eq_error (Outcome.map_eq_error_iff.1 full)
    · unfold checkInside at outside
      split at outside <;> cases outside
      exact .inl rfl

theorem hasRoom_of_holds [Machine] {matrix : StoredMatrix}
    (room : Capacity.HoldsLines matrix.rows) : matrix.HasRoom := by
  have few : (0 : ℤ) ≤ 4 ∧ (4 : ℤ) ≤ 8 := by decide
  have all : (0 : ℤ) ≤ 8 ∧ (8 : ℤ) ≤ 8 := by decide
  refine .inr ?_
  simp only [checkPointers]
  split
  · rw [Capacity.arrayLength_of_holds few room, Except.map]
  · rw [Capacity.arrayLength_of_holds all room, Except.map]

end StoredMatrix

namespace Datum

theorem toColumnCount_integer {cols : ℕ} (counted : (cols : ℤ) < Capacity.word) :
    (integer cols).toColumnCount = .ok cols := by
  simp only [toColumnCount, toExactInteger, exactInteger?, Except.bind]
  rw [if_neg (by omega), if_neg (by omega), Int.toNat_natCast]

/-- There is room to gather a matrix by row if it is stored sparsely. -/
def HasRoom [Machine] : Datum → Prop
  | .sparse stored => stored.HasRoom
  | _ => True

theorem toRows_sparse [Machine] (matrix : StoredMatrix) (rows cols : Datum) :
    (sparse matrix).toRows rows cols =
      (matrix.checkByRow.mapError Fault.data).bind fun _ =>
        (expectShape rows cols (matrix.rows, matrix.cols)).map fun _ =>
          RowMatrix.ofStored matrix := by
  simp [toRows, isEmpty, Except.bind]

theorem toRows_dense [Machine] {d : Datum} (dense : ∀ matrix, d ≠ .sparse matrix)
    (rows cols : Datum) :
    d.toRows rows cols = d.isEmpty.bind fun empty =>
      if empty then emptyRows rows cols
      else (NumberArray.ofDatum d).bind (denseRows rows cols) := by
  cases d with
  | sparse matrix => exact absurd rfl (dense matrix)
  | _ => rfl

theorem denseRows_eq_ok {rows cols : ℕ} {array : NumberArray} {matrix : RowMatrix}
    (read : denseRows (.integer rows) (.integer cols) array = .ok matrix) :
    array.shape.matrix? = some (rows, cols) ∧
      matrix = RowMatrix.ofDense rows cols array.entries := by
  unfold denseRows at read
  split at read
  · cases read
  next given extents =>
    obtain ⟨_, expected, rfl⟩ := Outcome.map_eq_ok_iff.1 read
    obtain ⟨sameRows, sameCols⟩ := expectShape_eq_ok expected
    obtain rfl : given = (rows, cols) :=
      Prod.ext (by exact_mod_cast sameRows) (by exact_mod_cast sameCols)
    exact ⟨extents, rfl⟩

theorem emptyRows_eq_ok {rows cols : ℕ} {matrix : RowMatrix}
    (read : emptyRows (.integer rows) (.integer cols) = .ok matrix) :
    rows = 0 ∧ matrix = ⟨cols, []⟩ := by
  simp only [emptyRows, compare_integer, Except.bind, exactInteger?, Option.getD_some,
    Int.toNat_natCast] at read
  split at read
  next none =>
    cases read
    exact ⟨by simpa using none, rfl⟩
  next => cases read

/-- A dense matrix is read as its rows, without the zeros. -/
theorem toRows_of_shape [Machine] {d : Datum} {rows cols : ℕ} {matrix : RowMatrix}
    (shaped : d.shape? = some [rows, cols])
    (read : d.toRows (.integer rows) (.integer cols) = .ok matrix) :
    matrix = RowMatrix.ofDense rows cols d.numbers ∧
      (rows = 0 ∨ d.numbers.length = rows * cols) := by
  have dense : ∀ stored, d ≠ .sparse stored := by
    rintro stored rfl
    simp [shape?] at shaped
  rw [toRows_dense dense] at read
  obtain ⟨empty, _, read⟩ := Outcome.bind_eq_ok_iff.1 read
  cases empty with
  | true =>
    obtain ⟨rfl, rfl⟩ := emptyRows_eq_ok (by simpa using read)
    exact ⟨rfl, Or.inl rfl⟩
  | false =>
    obtain ⟨array, converted, read⟩ := Outcome.bind_eq_ok_iff.1 read
    obtain ⟨_, rfl⟩ := denseRows_eq_ok read
    obtain ⟨shape, numbers⟩ := numbers_of_ofDatum converted
    rw [shaped, Option.some.injEq] at shape
    rw [numbers]
    refine ⟨rfl, Or.inr ?_⟩
    rw [array.length_entries, ← shape]
    simp [Shape.count]

/-- A matrix is read with as many rows and columns as are asked for, even if it stores positions
twice. -/
theorem shape_toRows [Machine] {d : Datum} {rows cols : ℕ} {matrix : RowMatrix}
    (read : d.toRows (.integer rows) (.integer cols) = .ok matrix) :
    matrix.rows = rows ∧ matrix.cols = cols := by
  by_cases isSparse : ∃ stored, d = .sparse stored
  · obtain ⟨stored, rfl⟩ := isSparse
    rw [toRows_sparse] at read
    obtain ⟨_, _, read⟩ := Outcome.bind_eq_ok_iff.1 read
    obtain ⟨_, expected, rfl⟩ := Outcome.map_eq_ok_iff.1 read
    obtain ⟨sameRows, sameCols⟩ := expectShape_eq_ok expected
    rw [RowMatrix.rows_ofStored, RowMatrix.cols_ofStored]
    exact ⟨by exact_mod_cast sameRows, by exact_mod_cast sameCols⟩
  · have dense : ∀ stored, d ≠ .sparse stored := fun stored same => isSparse ⟨stored, same⟩
    rw [toRows_dense dense] at read
    obtain ⟨empty, _, read⟩ := Outcome.bind_eq_ok_iff.1 read
    cases empty with
    | true =>
      obtain ⟨rfl, rfl⟩ := emptyRows_eq_ok (by simpa using read)
      exact ⟨rfl, rfl⟩
    | false =>
      obtain ⟨array, _, read⟩ := Outcome.bind_eq_ok_iff.1 read
      obtain ⟨_, rfl⟩ := denseRows_eq_ok read
      exact ⟨RowMatrix.rows_ofDense _ _ _, rfl⟩

/-- The rows that a matrix is read as have its numbers. -/
theorem represents_toRows [Machine] {d : Datum} {rows cols : ℕ} {matrix : RowMatrix}
    (once : d.StoresOnce) (read : d.toRows (.integer rows) (.integer cols) = .ok matrix) :
    matrix.Represents rows cols (d.numberAt cols) := by
  by_cases isSparse : ∃ stored, d = .sparse stored
  · obtain ⟨stored, rfl⟩ := isSparse
    rw [toRows_sparse] at read
    obtain ⟨_, _, read⟩ := Outcome.bind_eq_ok_iff.1 read
    obtain ⟨_, expected, rfl⟩ := Outcome.map_eq_ok_iff.1 read
    obtain ⟨sameRows, sameCols⟩ := expectShape_eq_ok expected
    have represents := RowMatrix.represents_ofStored once
    rw [show stored.rows = rows by exact_mod_cast sameRows,
      show stored.cols = cols by exact_mod_cast sameCols] at represents
    exact represents
  · have dense : ∀ stored, d ≠ .sparse stored := fun stored same => isSparse ⟨stored, same⟩
    rw [toRows_dense dense] at read
    obtain ⟨empty, _, read⟩ := Outcome.bind_eq_ok_iff.1 read
    cases empty with
    | true =>
      obtain ⟨rfl, rfl⟩ := emptyRows_eq_ok (by simpa using read)
      exact RowMatrix.represents_empty cols _
    | false =>
      obtain ⟨array, converted, read⟩ := Outcome.bind_eq_ok_iff.1 read
      obtain ⟨_, rfl⟩ := denseRows_eq_ok read
      have numbers := (numbers_of_ofDatum converted).2
      have same : d.numberAt cols =
          fun i j => (array.entries.getD (i * cols + j) .zero).toRat := by
        funext i j
        cases d with
        | sparse stored => exact absurd rfl (dense stored)
        | _ => simp only [numberAt, numbers]
      rw [same]
      exact RowMatrix.represents_ofDense rows cols array.entries

end Datum
end ConicForm
