import ConicForm.Proofs.RowStacking

/-! Stacks after any number of steps, and one stack on top of another: by going on with the steps of
the second, or by appending what the second is turned into. Both append the same rows, but in a
matrix that has been built the sums are there already. -/
namespace ConicForm

namespace ColumnMatrix

/-- The matrix as a caller has it, by columns. -/
def stored (matrix : ColumnMatrix) : StoredMatrix :=
  ⟨.byColumn, matrix.rows, matrix.cols, matrix.entriesFrom 0⟩

/-- The rows of a matrix with their right-hand sides. -/
def rowsWith (matrix : ColumnMatrix) (bounds : List Binary64) : List ConstraintRow :=
  (List.range matrix.rows).map fun i =>
    ⟨Entry.rowLine matrix.stored.entries i, bounds.getD i .zero⟩

theorem length_rowsWith (matrix : ColumnMatrix) (bounds : List Binary64) :
    (matrix.rowsWith bounds).length = matrix.rows := by
  simp [rowsWith]

theorem bounds_rowsWith {matrix : ColumnMatrix} {bounds : List Binary64}
    (height : bounds.length = matrix.rows) :
    (matrix.rowsWith bounds).map ConstraintRow.bound = bounds := by
  refine List.ext_getElem (by simp [length_rowsWith, height]) fun i _ inside => ?_
  simp [rowsWith, inside]

namespace Ordered

variable {matrix : ColumnMatrix} (ordered : matrix.Ordered)
include ordered

theorem isInside_stored : matrix.stored.isInside := by
  refine List.all_eq_true.2 fun entry member => decide_eq_true ?_
  obtain ⟨i, below, j, inside, _, row, col⟩ := ordered.mem_entriesFrom_iff.1 member
  unfold Entry.IsInside stored
  simp only
  omega

/-- At each position a row has the number that the matrix stores there, if any. -/
theorem valuesAt_rowLine {i j : ℕ} (below : i < matrix.rows) (inside : j < matrix.cols) :
    (Entry.rowLine matrix.stored.entries i).valuesAt j = ( entry? matrix i j).toList := by
  have once : (matrix.stored.entries.map fun entry => (entry.row, entry.col)).Nodup :=
    ordered.nodup_entriesFrom 0
  have row : (RowMatrix.ofStored matrix.stored).row i =
      Entry.rowLine matrix.stored.entries i := by
    simp [RowMatrix.row, RowMatrix.ofStored, RowMatrix.ofEntries, stored, below, Entry.rowLine]
  have distinct := RowMatrix.distinct_row_ofStored once i
  have found : ((RowMatrix.ofStored matrix.stored).row i).lookup (j : ℤ) = entry? matrix i j := by
    refine Option.ext fun value => ?_
    rw [Line.lookup_eq_some_iff_mem distinct, RowMatrix.mem_row_ofStored once below]
    refine ordered.mem_entriesFrom_iff.trans ?_
    constructor
    · rintro ⟨r, _, c, _, holds, sameRow, sameCol⟩
      obtain rfl : i = r := by simpa using sameRow
      obtain rfl : j = c := by simpa using sameCol
      exact holds
    · exact fun holds => ⟨i, below, j, inside, holds, by simp, rfl⟩
  rw [← row, Line.valuesAt, Line.filter_eq_lookup distinct, found]
  cases entry? matrix i j <;> rfl

end Ordered
end ColumnMatrix

namespace RowStack

open ColumnMatrix ( entry?)

variable {stack : RowStack} {cols : ℕ} {rows : List ConstraintRow}

/-- What another stack has been turned into is appended row by row. -/
theorem Holds.pushSystem [Machine] (holds : stack.Holds cols rows) (room : Capacity.HoldsLines cols)
    {matrix : ColumnMatrix} (ordered : matrix.Ordered) (width : matrix.cols = cols)
    {bounds : List Binary64} (height : bounds.length = matrix.rows) :
    ∃ pushed, stack.pushData (.sparse matrix.stored) (Datum.ofVector bounds) (.real .one) =
        (pushed, .ok ()) ∧ pushed.Holds cols (rows ++ matrix.rowsWith bounds) := by
  let given := RowBlock.ofStored matrix.stored ordered.isInside_stored bounds
  have fits : given.Fits cols := ⟨height.symm, width⟩
  have same : given.rows = matrix.rowsWith bounds := by
    refine List.map_congr_left fun i _ => ?_
    simp [given, RowBlock.ofStored, ConstraintRow.scale, Line.scale, Scale.factorAt, Scale.factor?,
      Binary64.one_mul]
  obtain ⟨pushed, done, after⟩ := holds.pushBlock given fits
  refine ⟨pushed, ?_, same ▸ after⟩
  have read := stack.pushData_eq holds.width (Capacity.writable_of_holds room) given
  rw [if_pos fits, done] at read
  exact read

/-- A number that is appended to a row only once is stored as it is. -/
theorem entry?_of_single {matrix : ColumnMatrix} (sums : matrix.Sums cols rows) {i j : ℕ}
    (below : i < rows.length) (inside : j < cols) {value : Option Binary64}
    (single : rows[i].line.valuesAt j = value.toList) : entry? matrix i j = value := by
  obtain ⟨values, perm, stored⟩ := sums.entry i below j inside
  rw [single] at perm
  rw [stored]
  cases value with
  | none =>
    rw [List.perm_nil.1 perm]
    rfl
  | some value =>
    rw [List.perm_singleton.1 perm]
    rfl

/-- Below the rows so far the matrix of the other stack comes back entry by entry. -/
theorem Holds.builds_pushSystem [Machine] (holds : stack.Holds cols rows)
    (room : Capacity.HoldsLines cols) {matrix : ColumnMatrix} (ordered : matrix.Ordered)
    (width : matrix.cols = cols) {bounds : List Binary64} (height : bounds.length = matrix.rows) :
    ∃ pushed stacked,
      stack.pushData (.sparse matrix.stored) (Datum.ofVector bounds) (.real .one) =
        (pushed, .ok ()) ∧
      pushed.toSystem = .ok (stacked, rows.map ConstraintRow.bound ++ bounds) ∧
      stacked.Sums cols (rows ++ matrix.rowsWith bounds) ∧
      ∀ k < matrix.rows, ∀ j < cols, entry? stacked (rows.length + k) j = entry? matrix k j := by
  obtain ⟨pushed, done, after⟩ := holds.pushSystem room ordered width height
  obtain ⟨stacked, built, sums⟩ := after.builds room
  rw [List.map_append, ColumnMatrix.bounds_rowsWith height] at built
  refine ⟨pushed, stacked, done, built, sums, fun k inside j column => ?_⟩
  have below : rows.length + k < (rows ++ matrix.rowsWith bounds).length := by
    rw [List.length_append, ColumnMatrix.length_rowsWith]
    omega
  refine entry?_of_single sums below column ?_
  rw [← ordered.valuesAt_rowLine inside (width ▸ column)]
  simp [ColumnMatrix.rowsWith]

/-- A stack with the rows of two others is turned into what they are, one below the other. -/
theorem Holds.builds_both [Machine] {other both : RowStack} {more : List ConstraintRow}
    (holds : stack.Holds cols rows) (also : other.Holds cols more)
    (joined : both.Holds cols (rows ++ more)) (room : Capacity.HoldsLines cols)
    {upper lower : ColumnMatrix} {upperBounds lowerBounds : List Binary64}
    (built : stack.toSystem = .ok (upper, upperBounds))
    (otherBuilt : other.toSystem = .ok (lower, lowerBounds)) :
    ∃ whole, both.toSystem = .ok (whole, upperBounds ++ lowerBounds) ∧
      whole.Repeats upper 0 cols rows ∧ whole.Repeats lower rows.length cols more := by
  obtain ⟨_, upperBuilt, upperSums⟩ := holds.builds room
  cases built.symm.trans upperBuilt
  obtain ⟨_, lowerBuilt, lowerSums⟩ := also.builds room
  cases otherBuilt.symm.trans lowerBuilt
  obtain ⟨whole, wholeBuilt, wholeSums⟩ := joined.builds room
  rw [List.map_append] at wholeBuilt
  exact ⟨whole, wholeBuilt, wholeSums.repeats_upper upperSums, wholeSums.repeats_lower lowerSums⟩

/-- The same for a stack that what another is turned into is appended to. -/
theorem Holds.builds_pushed [Machine] {other : RowStack} {more : List ConstraintRow}
    (holds : stack.Holds cols rows) (also : other.Holds cols more)
    (room : Capacity.HoldsLines cols) {upper lower : ColumnMatrix}
    {upperBounds lowerBounds : List Binary64} (built : stack.toSystem = .ok (upper, upperBounds))
    (otherBuilt : other.toSystem = .ok (lower, lowerBounds)) :
    ∃ pushed stacked,
      stack.pushData (.sparse lower.stored) (Datum.ofVector lowerBounds) (.real .one) =
        (pushed, .ok ()) ∧
      pushed.toSystem = .ok (stacked, upperBounds ++ lowerBounds) ∧
      stacked.Sums cols (rows ++ lower.rowsWith lowerBounds) ∧
      stacked.Repeats upper 0 cols rows ∧
      ∀ k < lower.rows, ∀ j < cols,
        entry? stacked (rows.length + k) j = entry? lower k j := by
  obtain ⟨_, upperBuilt, upperSums⟩ := holds.builds room
  cases built.symm.trans upperBuilt
  rw [also.toSystem_eq room] at otherBuilt
  cases otherBuilt
  obtain ⟨pushed, stacked, done, stackedBuilt, sums, entries⟩ := holds.builds_pushSystem room
    (ColumnMatrix.ordered_gather also.inside) (ColumnMatrix.cols_gather _ _ _)
    (List.length_map _)
  exact ⟨pushed, stacked, done, stackedBuilt, sums, sums.repeats_upper upperSums, entries⟩

theorem holds_run [Machine] (room : Capacity.HoldsLines cols) {steps : List Step}
    (within : ∀ step ∈ steps, step.IsWithin cols) :
    (run (empty (.integer cols)) steps).Holds cols (steps.flatMap (Step.rows cols)) :=
  (holds_empty cols).run room within

/-- After any steps a stack has the rows that they appended, in this order: every further step is
answered accordingly, and what is built is their matrix with their right-hand sides. Going on with
other steps appends the rows of those, and appending what these build appends its rows. Either way
both of the matrices that are built apart come back, one below the other. -/
theorem builds_run [Machine] (room : Capacity.HoldsLines cols) {steps more : List Step}
    (within : ∀ step ∈ steps ++ more, step.IsWithin cols) :
    let rows := steps.flatMap (Step.rows cols)
    let stack := run (empty (.integer cols)) steps
    stack.Builds cols rows ∧
    (∀ step : Step, step.IsWithin cols → step.Answers cols stack rows) ∧
    (run (empty (.integer cols)) (steps ++ more)).Builds cols
      (rows ++ more.flatMap (Step.rows cols)) ∧
    ∀ upper upperBounds lower lowerBounds, stack.toSystem = .ok (upper, upperBounds) →
      (run (empty (.integer cols)) more).toSystem = .ok (lower, lowerBounds) →
      (∃ whole, (run (empty (.integer cols)) (steps ++ more)).toSystem =
          .ok (whole, upperBounds ++ lowerBounds) ∧
        whole.Repeats upper 0 cols rows ∧
        whole.Repeats lower rows.length cols (more.flatMap (Step.rows cols))) ∧
      ∃ pushed stacked,
        stack.pushData (.sparse lower.stored) (Datum.ofVector lowerBounds) (.real .one) =
          (pushed, .ok ()) ∧
        pushed.toSystem = .ok (stacked, upperBounds ++ lowerBounds) ∧
        stacked.Sums cols (rows ++ lower.rowsWith lowerBounds) ∧
        stacked.Repeats upper 0 cols rows ∧
        ∀ k < lower.rows, ∀ j < cols,
          entry? stacked (rows.length + k) j = entry? lower k j := by
  intro rows stack
  have first : ∀ step ∈ steps, step.IsWithin cols := fun step member =>
    within step (List.mem_append_left _ member)
  have second : ∀ step ∈ more, step.IsWithin cols := fun step member =>
    within step (List.mem_append_right _ member)
  have holds : stack.Holds cols rows := holds_run room first
  have other := holds_run room second
  have both := holds_run room within
  rw [List.flatMap_append] at both
  refine ⟨holds.builds room, fun step inside => (holds.perform room inside).2,
    both.builds room, fun upper upperBounds lower lowerBounds built otherBuilt => ⟨?_, ?_⟩⟩
  · exact holds.builds_both other both room built otherBuilt
  · exact holds.builds_pushed other room built otherBuilt

/-- A block with its factors in a list. -/
def RowBlock.scaled (stored : StoredMatrix) (inside : stored.isInside)
    (values factors : List Binary64) (one : factors.length = stored.rows) : RowBlock where
  matrix := .sparse stored
  bounds := Datum.ofVector values
  scale := Datum.ofVector factors
  stored := stored
  values := values
  factors := .perRow factors
  readsMatrix := (RowBlock.ofStored stored inside values).readsMatrix
  readsBounds := Datum.toEntries_ofVector values
  readsScale := by
    obtain ⟨array, read, shape, entries⟩ := Datum.ofDatum_eq_ok (Datum.shape_ofVector factors)
      (by rw [Datum.entries_ofVector]; exact Datum.mapM_real factors)
    simp [read, Except.map, Scale.ofArray, shape, entries]
  covers := one

/-- A coefficient; a block of two rows, of which the first stores one position twice; a matrix that
is built in between; and a block that is too narrow. -/
def Step.mixed : List Step :=
  [.unit ⟨1, .real (.ofRat 3), .real (.ofRat 5), .ofRat 3, .ofRat 5,
      ⟨_, rfl, rfl, rfl⟩, ⟨_, rfl, rfl, rfl⟩⟩,
    .block (.scaled ⟨.triplets, 2, 2, [⟨0, 0, .ofRat 1⟩, ⟨1, 1, .ofRat 4⟩, ⟨0, 0, .ofRat 2⟩]⟩
      (by decide) [.ofRat 6, .ofRat 7] [.ofRat 2, .ofRat (-1)] rfl),
    .build,
    .block (.ofStored ⟨.triplets, 1, 1, []⟩ rfl [.zero])]

def Step.lone : List Step :=
  [.unit ⟨0, .real .one, .real .zero, .one, .zero, ⟨_, rfl, rfl, rfl⟩, ⟨_, rfl, rfl, rfl⟩⟩]

theorem builds_mixed : Capacity.HoldsLines 2 ∧
    (∀ step ∈ Step.mixed ++ Step.lone, step.IsWithin 2) ∧
    (run (empty (.integer 2)) (Step.mixed ++ Step.lone)).Builds 2
      [⟨[(1, .ofRat 3)], .ofRat 5⟩, ⟨[(0, .ofRat 2), (0, .ofRat 4)], .ofRat 12⟩,
        ⟨[(1, .ofRat (-4))], .ofRat (-7)⟩, ⟨[(0, .one)], .zero⟩] := by
  have room : Capacity.HoldsLines 2 := by
    unfold Capacity.HoldsLines
    decide
  have within : ∀ step ∈ Step.mixed ++ Step.lone, step.IsWithin 2 := by
    simp [Step.mixed, Step.lone, Step.IsWithin]
  have rows : Step.mixed.flatMap (Step.rows 2) ++ Step.lone.flatMap (Step.rows 2) =
      [⟨[(1, .ofRat 3)], .ofRat 5⟩, ⟨[(0, .ofRat 2), (0, .ofRat 4)], .ofRat 12⟩,
        ⟨[(1, .ofRat (-4))], .ofRat (-7)⟩, ⟨[(0, .one)], .zero⟩] := by
    decide +kernel
  refine ⟨room, within, ?_⟩
  rw [← rows]
  exact (builds_run room within).2.2.1

/-- Numbers at one position: the small one is lost before the large ones cancel. -/
def RowBlock.cancelling : RowBlock :=
  .ofStored ⟨.triplets, 1, 1,
    [⟨0, 0, .ofRat (10 ^ 16)⟩, ⟨0, 0, .one⟩, ⟨0, 0, .ofRat (-10 ^ 16)⟩]⟩ (by decide) [.zero]

/-- What is stored need not be the exact sum. -/
theorem rounds_cancelling :
    ∃ matrix, (run (empty (.integer 1)) [.block .cancelling]).toSystem = .ok (matrix, [.zero]) ∧
      entry? matrix 0 0 = some .zero ∧
      RowBlock.cancelling.rows.map (fun row => (rationals (row.line.valuesAt 0)).sum) = [1] := by
  obtain ⟨built, done, stored⟩ := @Outcome.exists_of_toOption_map _ _ _
    (run (empty (.integer 1)) [.block .cancelling]).toSystem
    (fun built => ( entry? built.1 0 0, built.2)) (some .zero, [.zero]) (by decide +kernel)
  obtain ⟨entry, bounds⟩ := Prod.mk.inj stored
  exact ⟨built.1, by rw [done, ← bounds], entry, by decide +kernel⟩

end RowStack
end ConicForm
