import ConicForm.Proofs.AgreeingMatrices

/-! How a matrix is stored makes no difference. A table of finite numbers is read as these numbers,
whether it is an array, triplets, or entries gathered by row or by column, in whatever order and
with whatever zeros among them. Forms have the same numbers at every position, and nothing else of
them differs; unless zeros are stored, the forms are equal. -/
namespace ConicForm

open Outcome (Related)

namespace Binary64

/-- The number at a position of a matrix: zero where nothing is stored. -/
def number? : Option Binary64 → Option ℚ
  | none => some 0
  | some value => value.value?

/-- Two positions have one number, which is finite. -/
def SameNumber (value other : Option Binary64) : Prop :=
  ∃ q, number? value = some q ∧ number? other = some q

theorem number?_neg {value : Option Binary64} {q : ℚ} (reads : number? value = some q) :
    number? (value.map (- ·)) = some (-q) := by
  cases value with
  | none =>
    cases reads
    rfl
  | some value =>
    show (-value).value? = some (-q)
    rw [value?_neg, show value.value? = some q from reads, Option.map_some]

theorem keptByNegation_sameNumber : KeptByNegation SameNumber where
  unstored := ⟨0, rfl, rfl⟩
  one := ⟨1, rfl, rfl⟩
  neg := fun _ _ ⟨q, reads, also⟩ => ⟨-q, number?_neg reads, number?_neg also⟩

theorem isZero_of_value?_eq_zero {value : Binary64} (reads : value.value? = some 0) :
    value.isZero := by
  cases value with
  | nan | infinity => cases reads
  | finite negative q onGrid =>
    cases negative <;> simpa [value?, isZero] using reads

/-- Numbers other than zero are known by their values. -/
theorem eq_of_value? {value other : Binary64} {q : ℚ} (reads : value.value? = some q)
    (also : other.value? = some q) (nonzero : value.isZero = false) : value = other := by
  cases value with
  | nan | infinity => cases reads
  | finite negative a aOnGrid =>
    cases other with
    | nan | infinity => cases also
    | finite opposite b bOnGrid =>
      have aPositive : 0 < a := lt_of_le_of_ne aOnGrid.1 fun same => by
        simp [isZero, ← same] at nonzero
      have bNonneg := bOnGrid.1
      simp only [value?, Option.some.injEq] at reads also
      cases negative <;> cases opposite <;>
        simp only [Bool.false_eq_true, if_false, if_true] at reads also
      · cases reads.trans also.symm
        rfl
      · linarith
      · linarith
      · cases neg_inj.1 (reads.trans also.symm)
        rfl

/-- Where no zero is stored, positions with one number store the same. -/
theorem SameNumber.eq {value other : Option Binary64} (same : SameNumber value other)
    (nonzero : ∀ stored ∈ value, stored.isZero = false)
    (otherNonzero : ∀ stored ∈ other, stored.isZero = false) : value = other := by
  obtain ⟨q, reads, also⟩ := same
  cases value with
  | none =>
    cases other with
    | none => rfl
    | some stored =>
      cases reads
      exact absurd (isZero_of_value?_eq_zero also) (by simp [otherNonzero stored rfl])
  | some value =>
    cases other with
    | none =>
      cases also
      exact absurd (isZero_of_value?_eq_zero reads) (by simp [nonzero value rfl])
    | some stored => exact congrArg some (eq_of_value? reads also (nonzero value rfl))

end Binary64

open Binary64 (number? SameNumber)

theorem Line.Within.lookup_eq_none {cols : ℕ} {line : Line} (within : line.Within cols)
    {position : ℤ} (outside : ¬(0 ≤ position ∧ position < cols)) : line.lookup position = none := by
  rw [List.lookup_eq_none_iff]
  intro entry stored
  rw [bne_iff_ne]
  rintro rfl
  exact outside (within entry stored)

namespace RowMatrix

/-- The rows have a size and the numbers of a matrix. -/
structure Shows (matrix : RowMatrix) (rows cols : ℕ) (number : ℕ → ℕ → ℚ) : Prop where
  rowCount : matrix.rows = rows
  colCount : matrix.cols = cols
  numbers : ∀ i < rows, ∀ j < cols, number? ((matrix.row i).lookup (j : ℤ)) = some (number i j)

/-- Rows agree if they do so at the positions inside. -/
theorem Holds.agree {matrix other : RowMatrix} {rows cols : ℕ}
    {stores otherStores : ℕ → ℕ → Binary64 → Prop}
    {same : Option Binary64 → Option Binary64 → Prop} (holds : matrix.Holds rows cols stores)
    (also : other.Holds rows cols otherStores) (unstored : same none none)
    (inside : ∀ i < rows, ∀ j < cols,
      same ((matrix.row i).lookup (j : ℤ)) ((other.row i).lookup (j : ℤ))) :
    matrix.Agree same other where
  cols := also.colCount.trans holds.colCount.symm
  inside := holds.inside
  otherInside := also.inside
  lines := by
    have height := holds.rowCount.trans also.rowCount.symm
    refine List.forall₂_iff_get.2 ⟨height, fun i left right => ?_⟩
    have row : matrix.row i = matrix.lines.get ⟨i, left⟩ := by simp [RowMatrix.row, left]
    have otherRow : other.row i = other.lines.get ⟨i, right⟩ := by simp [RowMatrix.row, right]
    rw [← row, ← otherRow]
    refine ⟨holds.distinct i, also.distinct i, fun position => ?_⟩
    by_cases within : 0 ≤ position ∧ position < cols
    · obtain ⟨j, rfl⟩ := Int.eq_ofNat_of_zero_le within.1
      exact inside i (holds.rowCount ▸ left) j (Int.ofNat_lt.1 within.2)
    · have own := within_row holds.inside i
      have others := within_row also.inside i
      rw [holds.colCount] at own
      rw [also.colCount] at others
      rw [own.lookup_eq_none within, others.lookup_eq_none within]
      exact unstored

end RowMatrix

namespace Datum

/-- A matrix of numbers is stored in some way: as a table of its size that holds its numbers. -/
structure StoresMatrix (d : Datum) (rows cols : ℕ) (number : ℕ → ℕ → ℚ) : Prop where
  table : d.IsTable
  extents : d.Tabulates rows cols
  finite : d.FiniteMatrix
  numbers : ∀ i < rows, ∀ j < cols, d.numberAt cols i j = number i j

/-- No zero is stored inside a table. Those of an array never are. -/
def StoresNoZero (d : Datum) (rows cols : ℕ) : Prop :=
  ∀ i < rows, ∀ j < cols, ∀ value, d.Stores cols i j value → value.isZero = false

theorem IsTable.storesOnce {d : Datum} (table : d.IsTable) : d.StoresOnce := by
  cases table with
  | sparse _ once => exact once
  | bare bare =>
    cases d with
    | sparse => cases bare
    | _ => trivial
  | dense read =>
    cases d with
    | sparse => cases read
    | _ => trivial

theorem IsTable.isEmpty_eq {d : Datum} (table : d.IsTable) : d.isEmpty = .ok d.isBare := by
  cases table with
  | sparse => rfl
  | bare bare => rw [isEmpty_of_bare bare, bare]
  | dense read => exact isEmpty_eq_isBare (numbers_of_ofDatum read).1 (dense_of_ofDatum read)

namespace StoresMatrix

variable {d : Datum} {rows cols : ℕ} {number : ℕ → ℕ → ℚ}
  (stores : d.StoresMatrix rows cols number)
include stores

theorem holds : (d.tableRows cols rows).Holds rows cols (d.Stores cols) :=
  holds_tableRows stores.table stores.extents

theorem isFinite {i j : ℕ} (below : i < rows) {value : Binary64}
    (own : d.Stores cols i j value) : value.isFinite := by
  have finite := stores.finite
  cases d with
  | sparse stored => exact finite _ own
  | absent =>
    -- Nothing is a matrix without rows only.
    obtain rfl : rows = 0 := stores.extents
    exact absurd below (Nat.not_lt_zero i)
  | _ => exact finite _ (List.mem_of_getElem? own.1)

theorem nonzero (noZero : d.StoresNoZero rows cols) {i j : ℕ} (below : i < rows) (inside : j < cols)
    {value : Binary64} (found : ((d.tableRows cols rows).row i).lookup (j : ℤ) = some value) :
    value.isZero = false := by
  have own := (Line.lookup_eq_some_iff_mem (stores.holds.distinct i)).1 found
  obtain ⟨k, _, same, stored⟩ := (stores.holds.mem_row i below _).1 own
  obtain rfl : j = k := Int.ofNat.inj same
  exact noZero i below j inside value stored

section Room

variable [Machine] (room : d.HasRoom)
include room

theorem toRows_eq : d.toRows (.integer rows) (.integer cols) = .ok (d.tableRows cols rows) :=
  (toRows_eq_ok_iff stores.table).2 ⟨stores.extents, room, rfl⟩

/-- The number of columns is read if there are no rows. -/
theorem toCountedRows_eq (counted : (cols : ℤ) < Capacity.word) :
    d.toCountedRows (.integer rows) (.integer cols) = .ok (d.tableRows cols rows) := by
  have width : (Datum.integer cols).toWidth = .ok cols := toColumnCount_integer counted
  rw [toCountedRows, stores.toRows_eq room, stores.table.isEmpty_eq, width]
  cases d.isBare <;> rfl

theorem shows : (d.tableRows cols rows).Shows rows cols number where
  rowCount := stores.holds.rowCount
  colCount := stores.holds.colCount
  numbers := by
    intro i below j inside
    have represents := represents_toRows stores.table.storesOnce (stores.toRows_eq room)
    have coefficient := represents.coefficient i j below inside
    rw [stores.numbers i below j inside, Line.coefficient] at coefficient
    cases found : ((d.tableRows cols rows).row i).lookup (j : ℤ) with
    | none =>
      rw [found] at coefficient
      exact congrArg some coefficient
    | some value =>
      rw [found] at coefficient
      have own := (Line.lookup_eq_some_iff_mem (represents.distinct_row i)).1 found
      obtain ⟨k, _, same, stored⟩ := (stores.holds.mem_row i below _).1 own
      exact (Binary64.value?_of_isFinite (stores.isFinite below stored)).trans
        (congrArg some coefficient)

variable {other : Datum} (also : other.StoresMatrix rows cols number) (otherRoom : other.HasRoom)
include also otherRoom

theorem sameNumber {i j : ℕ} (below : i < rows) (inside : j < cols) :
    SameNumber (((d.tableRows cols rows).row i).lookup (j : ℤ))
      (((other.tableRows cols rows).row i).lookup (j : ℤ)) :=
  ⟨number i j, (stores.shows room).numbers i below j inside,
    (also.shows otherRoom).numbers i below j inside⟩

theorem agree : (d.tableRows cols rows).Agree SameNumber (other.tableRows cols rows) :=
  stores.holds.agree also.holds Binary64.keptByNegation_sameNumber.unstored
    fun _ below _ inside => stores.sameNumber room also otherRoom below inside

theorem agree_eq (noZero : d.StoresNoZero rows cols) (alsoNoZero : other.StoresNoZero rows cols) :
    (d.tableRows cols rows).Agree Eq (other.tableRows cols rows) :=
  stores.holds.agree also.holds rfl fun _ below _ inside =>
    (stores.sameNumber room also otherRoom below inside).eq
      (fun _ found => stores.nonzero noZero below inside found)
      (fun _ found => also.nonzero alsoNoZero below inside found)

end Room

end StoresMatrix

/-- Entries inside a matrix, at each position at most one, store it however they are gathered. -/
theorem storesMatrix_sparse {stored : StoredMatrix} (inside : stored.isInside)
    (once : (stored.entries.map fun entry => (entry.row, entry.col)).Nodup)
    (finite : ∀ entry ∈ stored.entries, entry.value.isFinite) :
    (sparse stored).StoresMatrix stored.rows stored.cols stored.numberAt :=
  ⟨.sparse inside once, rfl, finite, fun _ _ _ _ => rfl⟩

/-- An array has as many entries as the matrix that it stands for. -/
theorem count_of_matrix? {shape : Shape} {rows cols : ℕ}
    (extents : shape.matrix? = some (rows, cols)) : shape.count = rows * cols := by
  unfold Shape.matrix? at extents
  split at extents <;> cases extents <;> simp [Shape.count]

/-- An array of finite numbers in rows and columns stores a matrix. -/
theorem storesMatrix_dense {d : Datum} {array : NumberArray} {rows cols : ℕ}
    (read : NumberArray.ofDatum d = .ok array) (extents : array.shape.matrix? = some (rows, cols))
    (someColumn : 0 < cols) (finite : d.FiniteVector) :
    d.StoresMatrix rows cols (d.numberAt cols) where
  table := .dense read extents
  extents := by
    have dense := dense_of_ofDatum read
    have shaped := (numbers_of_ofDatum read).1
    have empty : d.isBare → array.shape.count = 0 := by
      cases d with
      | sparse => cases read
      | absent =>
        -- Nothing is read as the one number that is none.
        cases finite .nan List.mem_cons_self
      | _ => simp [isBare, shaped]
    unfold Tabulates
    split
    next bare =>
      have none : rows * cols = 0 := count_of_matrix? extents ▸ empty bare
      exact (Nat.mul_eq_zero.1 none).resolve_right someColumn.ne'
    next => rw [tableExtents?_of_dense dense, shaped, Option.bind_some, extents]
  finite := by
    cases d with
    | sparse => cases read
    | absent => trivial
    | _ => exact finite
  numbers := fun _ _ _ _ => rfl

end Datum

/-- Both outcomes are the same fault, or forms with the same numbers that have all else in common.
Unless zeros are stored, the forms are equal. -/
def SameForms (d other : Datum) (rows cols : ℕ) (outcome otherOutcome : Except Fault StandardForm) :
    Prop :=
  Related (StandardForm.Agree SameNumber) outcome otherOutcome ∧
    (d.StoresNoZero rows cols → other.StoresNoZero rows cols → outcome = otherOutcome)

/-- Two ways to store a matrix are as good as each other, if it can be gathered by row. Either is
read as rows with its numbers, and every problem of its size has the same form with the one as with
the other. -/
theorem sameForms_of_storesMatrix [Machine] {rows cols : ℕ} {number : ℕ → ℕ → ℚ} {d other : Datum}
    (stores : d.StoresMatrix rows cols number) (also : other.StoresMatrix rows cols number)
    (room : d.HasRoom) (otherRoom : other.HasRoom) :
    ((cols : ℤ) < Capacity.word →
      ∃ matrix moved, d.toCountedRows (.integer rows) (.integer cols) = .ok matrix ∧
        other.toCountedRows (.integer rows) (.integer cols) = .ok moved ∧
          matrix.Shows rows cols number ∧ moved.Shows rows cols number) ∧
    (∀ input : ConicProblem.Input, input.bounds.numbers.length = rows →
      input.objective.numbers.length = cols → SameForms d other rows cols
        (ConicProblem.load { input with matrix := d })
        (ConicProblem.load { input with matrix := other })) ∧
    ∀ input : LinearProblem.Input, input.rowLower.numbers.length = rows →
      input.columnLower.numbers.length = cols → SameForms d other rows cols
        (LinearProblem.load { input with matrix := d })
        (LinearProblem.load { input with matrix := other }) := by
  have agree := stores.agree room also otherRoom
  have equal := stores.agree_eq room also otherRoom
  have read := stores.toRows_eq room
  have alsoRead := also.toRows_eq otherRoom
  refine ⟨fun counted => ⟨_, _, stores.toCountedRows_eq room counted,
    also.toCountedRows_eq otherRoom counted, stores.shows room, also.shows otherRoom⟩,
    fun input height width => ⟨?_, fun noZero alsoNoZero => ?_⟩,
    fun input height width => ⟨?_, fun noZero alsoNoZero => ?_⟩⟩
  · exact ConicProblem.load_agree Binary64.keptByNegation_sameNumber read alsoRead agree height
      width
  · have loads := ConicProblem.load_agree keptByNegation_eq read alsoRead
      (equal noZero alsoNoZero) height width
    exact Outcome.eq_of_related (loads.imp fun _ _ => StandardForm.Agree.eq)
  · exact LinearProblem.load_agree Binary64.keptByNegation_sameNumber read alsoRead agree height
      width
  · have loads := LinearProblem.load_agree keptByNegation_eq read alsoRead
      (equal noZero alsoNoZero) height width
    exact Outcome.eq_of_related (loads.imp fun _ _ => StandardForm.Agree.eq)

/-- The matrix of the problem whose variables change places, gathered by column from the bottom up.
Its zero is stored. -/
def StoredMatrix.swapped : StoredMatrix where
  layout := .byColumn
  rows := 2
  cols := 2
  entries := [⟨1, 0, .zero⟩, ⟨0, 0, .one⟩, ⟨1, 1, .one⟩, ⟨0, 1, .one⟩]

theorem sameForms_swapped : ∃ form moved, ConicProblem.load .swapped = .ok form ∧
    ConicProblem.load { ConicProblem.Input.swapped with matrix := .sparse .swapped } = .ok moved ∧
      form.Agree SameNumber moved := by
  let d := ConicProblem.Input.swapped.matrix
  obtain ⟨form, loaded, _⟩ := ConicProblem.load_swapped
  obtain ⟨_, read, extents⟩ : ∃ array, NumberArray.ofDatum d = .ok array ∧
      array.shape.matrix? = some (2, 2) := Outcome.exists_of_toOption_map (by decide +kernel)
  have stores : d.StoresMatrix 2 2 (d.numberAt 2) := Datum.storesMatrix_dense read extents
    (by decide) (by unfold Datum.FiniteVector; decide +kernel)
  have gathered : (Datum.sparse .swapped).StoresMatrix 2 2 StoredMatrix.swapped.numberAt :=
    Datum.storesMatrix_sparse (by decide +kernel) (by decide +kernel) (by decide +kernel)
  have also : (Datum.sparse .swapped).StoresMatrix 2 2 (d.numberAt 2) :=
    { gathered with numbers := by decide +kernel }
  obtain ⟨_, conic, _⟩ := sameForms_of_storesMatrix stores also
    (Datum.hasRoom_of_dense (Datum.dense_of_ofDatum read)) (.inr rfl)
  have loads := (conic .swapped (by decide +kernel) (by decide +kernel)).1
  obtain ⟨moved, alsoLoaded⟩ := loads.exists_iff.1 ⟨form, loaded⟩
  have agree : Related (StandardForm.Agree SameNumber) (ConicProblem.load .swapped)
      (ConicProblem.load { ConicProblem.Input.swapped with matrix := .sparse .swapped }) := loads
  rw [loaded, alsoLoaded] at agree
  exact ⟨form, moved, loaded, alsoLoaded, agree⟩

/-- No entries in one column of so many rows that there is no room for where each of them starts. -/
def StoredMatrix.tallColumn (layout : Layout) : StoredMatrix := ⟨layout, 2 ^ 61, 1, []⟩

theorem storesMatrix_tallColumn (layout : Layout) :
    (Datum.sparse (.tallColumn layout)).StoresMatrix (2 ^ 61) 1 fun _ _ => 0 where
  table := .sparse rfl .nil
  extents := rfl
  finite := List.forall_mem_nil _
  numbers := fun _ _ _ _ => rfl

theorem toCountedRows_tallColumn {layout : Layout}
    (full : (StoredMatrix.tallColumn layout).checkByRow = .error .malformed) :
    Outcome.Unread ((Datum.sparse (.tallColumn layout)).toCountedRows
      (.integer (2 ^ 61 : ℕ)) (.integer 1)) := by
  refine ⟨.malformed, ?_, .inl rfl⟩
  rw [Datum.toCountedRows, Datum.toRows_sparse, full]
  rfl

/-- Triplets and entries gathered by column store such a matrix, but it is read from neither. -/
theorem unread_tallColumn :
    ((Datum.sparse (.tallColumn .triplets)).StoresMatrix (2 ^ 61) 1 (fun _ _ => 0) ∧
      Outcome.Unread ((Datum.sparse (.tallColumn .triplets)).toCountedRows
        (.integer (2 ^ 61 : ℕ)) (.integer 1))) ∧
    ((Datum.sparse (.tallColumn .byColumn)).StoresMatrix (2 ^ 61) 1 (fun _ _ => 0) ∧
      Outcome.Unread ((Datum.sparse (.tallColumn .byColumn)).toCountedRows
        (.integer (2 ^ 61 : ℕ)) (.integer 1))) :=
  ⟨⟨storesMatrix_tallColumn _, toCountedRows_tallColumn (by decide)⟩,
    storesMatrix_tallColumn _, toCountedRows_tallColumn (by decide)⟩

end ConicForm
