import ConicForm.LinearProblem
import ConicForm.Proofs.FormFeasibility
import ConicForm.Proofs.MatrixReading

/-! The standard form of a linear problem means what the problem means. Each row between bounds
becomes one equality or one inequality, and each finite bound of a variable an inequality. Bounds
are extended reals; all other numbers are finite. -/
namespace ConicForm

variable {K : Type*} [Field K] [LinearOrder K]

/-- The value is between the bounds. -/
def Bounds.Admits (bounds : Bounds) (q : K) : Prop :=
  bounds.lower.IsAtMost q ∧ bounds.upper.IsAtLeast q

/-- The value is between those of the bounds that are finite. -/
def Bounds.AdmitsFinite (bounds : Bounds) (q : K) : Prop :=
  (bounds.lower.isFinite → (bounds.lower.toRat : K) ≤ q) ∧
    (bounds.upper.isFinite → q ≤ (bounds.upper.toRat : K))

namespace Bounds

theorem rowKind_eq_equality_iff {bounds : Bounds} :
    bounds.rowKind = .equality ↔ bounds.lower.isFinite ∧ bounds.lower.equals bounds.upper := by
  rw [← Bool.and_eq_true_iff]
  unfold rowKind
  repeat' split
  all_goals simp_all

theorem rowKind_eq_atMost_iff {bounds : Bounds} :
    bounds.rowKind = .atMost ↔ bounds.lower = .infinity true ∧ bounds.upper.isFinite := by
  obtain ⟨lower, upper⟩ := bounds
  cases lower <;> cases upper
  all_goals
    simp only [rowKind, Binary64.isFinite, Binary64.equals]
    split_ifs <;> simp_all

theorem rowKind_eq_atLeast_iff {bounds : Bounds} :
    bounds.rowKind = .atLeast ↔ bounds.upper = .infinity false ∧ bounds.lower.isFinite := by
  obtain ⟨lower, upper⟩ := bounds
  cases lower <;> cases upper
  all_goals
    simp only [rowKind, Binary64.isFinite, Binary64.equals]
    split_ifs <;> simp_all

end Bounds

/-- A linear problem over the rationals. -/
structure LinearProgram where
  objective : List ℚ
  coefficient : ℕ → ℕ → ℚ
  rowBounds : List Bounds
  columnBounds : List Bounds

namespace LinearProgram

def value {K : Type*} [Field K] (program : LinearProgram) (x : List K) (i : ℕ) : K :=
  ∑ j ∈ Finset.range program.objective.length, (program.coefficient i j : K) * x.getD j 0

structure Feasible (program : LinearProgram) (x : List K) : Prop where
  rows : ∀ (i : ℕ) (bounds : Bounds), program.rowBounds[i]? = some bounds →
    bounds.Admits (program.value x i)
  columns : ∀ (j : ℕ) (bounds : Bounds), program.columnBounds[j]? = some bounds →
    bounds.Admits (x.getD j 0)

end LinearProgram

namespace LinearProblem

/-- The problem that a caller gives. -/
def Input.program (input : Input) : LinearProgram where
  objective := rationals input.objective.numbers
  coefficient := input.matrix.numberAt input.objective.numbers.length
  rowBounds := List.zipWith Bounds.mk input.rowLower.numbers input.rowUpper.numbers
  columnBounds := List.zipWith Bounds.mk input.columnLower.numbers input.columnUpper.numbers

/-- Objective and matrix are finite, no position of the matrix is stored twice, and no bound is NaN.
The bounds of a variable are not infinite on the wrong side. -/
structure Input.Exact (input : Input) : Prop where
  objective : input.objective.FiniteVector
  matrix : input.matrix.FiniteMatrix
  once : input.matrix.StoresOnce
  rowLower : .nan ∉ input.rowLower.numbers
  rowUpper : .nan ∉ input.rowUpper.numbers
  columnLower : .nan ∉ input.columnLower.numbers ∧ .infinity false ∉ input.columnLower.numbers
  columnUpper : .nan ∉ input.columnUpper.numbers ∧ .infinity true ∉ input.columnUpper.numbers

/-- What a linear problem has been read from. -/
structure Input.ReadAs [Machine] (input : Input) (problem : LinearProblem) : Prop where
  sense : Sense.ofDatum input.sense = .ok problem.sense
  objective : input.objective.toEntries = .ok problem.objective
  rowCount : input.rowLower.numbers.length = problem.rowBounds.length
  rowBounds : List.zipWith Bounds.mk input.rowLower.numbers input.rowUpper.numbers =
    problem.rowBounds
  columnBounds : List.zipWith Bounds.mk input.columnLower.numbers input.columnUpper.numbers =
    problem.columnBounds
  columnCount : problem.columnBounds.length = problem.objective.length
  matrix : input.matrix.toRows (.integer problem.rowBounds.length)
    (.integer problem.objective.length) = .ok problem.matrix

theorem checkLength_eq_ok {given expected : ℕ} {cause : LengthFault}
    (accepted : checkLength given expected cause = .ok ()) : given = expected := by
  unfold checkLength at accepted
  split at accepted
  · assumption
  · cases accepted

theorem readAs_of_read [Machine] {input : Input} {problem : LinearProblem}
    (given : read input = .ok problem) : input.ReadAs problem := by
  obtain ⟨sense, readSense, given⟩ := Outcome.andThen_eq_ok_iff.1 given
  obtain ⟨columnLower, readColumnLower, given⟩ := Outcome.andThen_eq_ok_iff.1 given
  obtain ⟨columnUpper, readColumnUpper, given⟩ := Outcome.andThen_eq_ok_iff.1 given
  obtain ⟨rowLower, readRowLower, given⟩ := Outcome.andThen_eq_ok_iff.1 given
  obtain ⟨rowUpper, readRowUpper, given⟩ := Outcome.andThen_eq_ok_iff.1 given
  obtain ⟨objective, readObjective, given⟩ := Outcome.andThen_eq_ok_iff.1 given
  obtain ⟨_, columnLengths, given⟩ := Outcome.andThen_eq_ok_iff.1 given
  obtain ⟨_, rowLengths, given⟩ := Outcome.andThen_eq_ok_iff.1 given
  obtain ⟨_, objectiveLength, given⟩ := Outcome.andThen_eq_ok_iff.1 given
  obtain ⟨matrix, readMatrix, given⟩ := Outcome.andThen_eq_ok_iff.1 given
  cases given
  have rows : (List.zipWith Bounds.mk rowLower rowUpper).length = rowLower.length := by
    simp [checkLength_eq_ok rowLengths]
  have columns : (List.zipWith Bounds.mk columnLower columnUpper).length = objective.length := by
    simp [checkLength_eq_ok columnLengths, checkLength_eq_ok objectiveLength]
  refine ⟨readSense, Datum.toEntries_of_toVector readObjective, ?_, ?_, ?_, columns, ?_⟩
  · rw [Datum.numbers_of_toVector readRowLower, rows]
  · rw [Datum.numbers_of_toVector readRowLower, Datum.numbers_of_toVector readRowUpper]
  · rw [Datum.numbers_of_toVector readColumnLower, Datum.numbers_of_toVector readColumnUpper]
  · simpa only [rows, checkLength_eq_ok objectiveLength] using readMatrix

/-- What is known of a linear problem once it has a standard form. -/
structure Formed (problem : LinearProblem) (form : StandardForm) : Prop where
  kinds : ∀ bounds ∈ problem.rowBounds,
    bounds.rowKind = .equality ∨ bounds.rowKind = .atMost ∨ bounds.rowKind = .atLeast
  inside : problem.matrix.isInside
  built : StandardForm.ofRows problem.inequalities.length [] problem.inequalities
    problem.equalities (problem.sense.toMinimize problem.objective) problem.sense
    (VariableOrder.identity problem.objective.length) = .ok form

theorem Formed.made {problem : LinearProblem} {form : StandardForm}
    (formed : problem.Formed form) :
    form.MadeOf problem.inequalities.length [] problem.inequalities problem.equalities
      (problem.sense.toMinimize problem.objective) problem.sense
      (VariableOrder.identity problem.objective.length) :=
  StandardForm.madeOf_ofRows formed.built

theorem rowKind_ne_of_rowsOfKind {problem : LinearProblem} {kind : RowKind}
    (none : problem.rowsOfKind kind = []) :
    ∀ bounds ∈ problem.rowBounds, bounds.rowKind ≠ kind := by
  intro bounds member same
  obtain ⟨i, inside, rfl⟩ := List.getElem_of_mem member
  have numbered : (problem.rowBounds[i], i) ∈ problem.rowBounds.zipIdx :=
    List.mem_zipIdx_iff_getElem?.2 (List.getElem?_eq_getElem inside)
  rw [rowsOfKind, List.map_eq_nil_iff, List.filter_eq_nil_iff] at none
  exact none _ numbered (beq_iff_eq.2 same)

theorem formed_of_standardForm {problem : LinearProblem} {form : StandardForm}
    (built : problem.standardForm = .ok form) : problem.Formed form := by
  unfold standardForm at built
  split at built
  next noneRanged noneUnbounded =>
    obtain ⟨_, checked, built⟩ := Outcome.bind_eq_ok_iff.1 built
    refine ⟨fun bounds member => ?_, ?_, built⟩
    · have ranged := rowKind_ne_of_rowsOfKind noneRanged bounds member
      have unbounded := rowKind_ne_of_rowsOfKind noneUnbounded bounds member
      cases kind : bounds.rowKind with
      | equality | atMost | atLeast => simp
      | ranged => exact absurd kind ranged
      | unbounded => exact absurd kind unbounded
    · exact RowMatrix.isInside_of_check (Outcome.mapError_eq_ok_iff.1 checked)
  next => cases built
  next => cases built

theorem admits_equality_iff {bounds : Bounds} (kind : bounds.rowKind = .equality) (q : K) :
    bounds.Admits q ↔ (bounds.lower.toRat : K) - q = 0 := by
  obtain ⟨lowerFinite, same⟩ := Bounds.rowKind_eq_equality_iff.1 kind
  have upperFinite := Binary64.isFinite_of_equals lowerFinite same
  rw [Bounds.Admits, Binary64.isAtMost_of_isFinite lowerFinite,
    Binary64.isAtLeast_of_isFinite upperFinite, ← Binary64.toRat_eq_of_equals same, sub_eq_zero]
  constructor
  · rintro ⟨below, above⟩
    exact le_antisymm below above
  · intro exact
    exact ⟨exact.le, exact.ge⟩

theorem admits_atMost_iff [IsStrictOrderedRing K] {bounds : Bounds}
    (kind : bounds.rowKind = .atMost) (q : K) :
    bounds.Admits q ↔ 0 ≤ (bounds.upper.toRat : K) - q := by
  obtain ⟨lowest, finite⟩ := Bounds.rowKind_eq_atMost_iff.1 kind
  rw [Bounds.Admits, lowest, Binary64.isAtLeast_of_isFinite finite, sub_nonneg]
  simp [Binary64.IsAtMost]

theorem admits_atLeast_iff [IsStrictOrderedRing K] {bounds : Bounds}
    (kind : bounds.rowKind = .atLeast) (q : K) :
    bounds.Admits q ↔ 0 ≤ -((bounds.lower.toRat : K) - q) := by
  obtain ⟨highest, finite⟩ := Bounds.rowKind_eq_atLeast_iff.1 kind
  rw [Bounds.Admits, highest, Binary64.isAtMost_of_isFinite finite, neg_sub, sub_nonneg]
  simp [Binary64.IsAtLeast]

/-- A row between bounds admits the vectors that its equality or its inequality admits. -/
theorem admits_row_iff [IsStrictOrderedRing K] {bounds : Bounds} (line : Line) (y : ℤ → K)
    (kinds : bounds.rowKind = .equality ∨ bounds.rowKind = .atMost ∨ bounds.rowKind = .atLeast) :
    bounds.Admits (line.product y) ↔
      (∀ row, equality? (line, bounds) = some row → row.slack y = 0) ∧
        ∀ row, inequality? (line, bounds) = some row → 0 ≤ row.slack y := by
  rcases kinds with kind | kind | kind
  · simp only [equality?, inequality?, kind, admits_equality_iff kind, Option.some.injEq,
      forall_eq', reduceCtorEq, false_implies, implies_true, and_true,
      ConstraintRow.slack_scale_one]
    rfl
  · simp only [equality?, inequality?, kind, admits_atMost_iff kind, Option.some.injEq, forall_eq',
      reduceCtorEq, false_implies, implies_true, true_and, ConstraintRow.slack_scale_one]
    rfl
  · simp only [equality?, inequality?, kind, admits_atLeast_iff kind, Option.some.injEq, forall_eq',
      reduceCtorEq, false_implies, implies_true, true_and, ConstraintRow.slack_scale_neg_one]
    rfl

/-- A bound that is infinite on its own side leaves that side open. -/
theorem admits_iff_admitsFinite {bounds : Bounds} (q : K)
    (lower : bounds.lower ≠ .nan ∧ bounds.lower ≠ .infinity false)
    (upper : bounds.upper ≠ .nan ∧ bounds.upper ≠ .infinity true) :
    bounds.Admits q ↔ bounds.AdmitsFinite q := by
  obtain ⟨low, high⟩ := bounds
  refine and_congr ?_ ?_
  · cases low with
    | nan => exact absurd rfl lower.1
    | finite => simp [Binary64.IsAtMost, Binary64.isFinite]
    | infinity negative =>
      cases negative with
      | true => simp [Binary64.IsAtMost, Binary64.isFinite]
      | false => exact absurd rfl lower.2
  · cases high with
    | nan => exact absurd rfl upper.1
    | finite => simp [Binary64.IsAtLeast, Binary64.isFinite]
    | infinity negative =>
      cases negative with
      | true => exact absurd rfl upper.2
      | false => simp [Binary64.IsAtLeast, Binary64.isFinite]

/-- The inequalities of a variable are its finite bounds. -/
theorem forall_boundRows_iff [IsStrictOrderedRing K] (bounds : Bounds) (j : ℤ) (y : ℤ → K) :
    (∀ row ∈ boundRows j bounds, 0 ≤ row.slack y) ↔ bounds.AdmitsFinite (y j) := by
  rw [boundRows, List.forall_mem_append]
  refine and_congr ?_ ?_
  · cases bounds.lower.isFinite <;> simp [ConstraintRow.slack_unit]
  · cases bounds.upper.isFinite <;> simp [ConstraintRow.slack_unit]

section Read

variable {input : Input} {problem : LinearProblem} {form : StandardForm}

theorem mem_rows_iff (lineCount : problem.matrix.lines.length = problem.rowBounds.length)
    {row : Line × Bounds} : row ∈ problem.rows ↔
      ∃ i, problem.rowBounds[i]? = some row.2 ∧ row.1 = problem.matrix.row i := by
  obtain ⟨line, bounds⟩ := row
  simp only [rows, List.mem_iff_getElem?, List.getElem?_zip_eq_some, RowMatrix.row]
  apply exists_congr
  intro i
  constructor
  · rintro ⟨stored, bounded⟩
    exact ⟨bounded, by simp [stored]⟩
  · rintro ⟨bounded, same⟩
    have inside : i < problem.matrix.lines.length := by
      rw [lineCount]
      exact (List.getElem?_eq_some_iff.1 bounded).1
    refine ⟨?_, bounded⟩
    rw [same, List.getElem?_eq_getElem inside]
    rfl

theorem mem_boundRows_iff {row : ConstraintRow} :
    row ∈ (problem.columnBounds.zipIdx.flatMap fun column => boundRows (column.2 : ℤ) column.1) ↔
      ∃ (j : ℕ) (bounds : Bounds),
        problem.columnBounds[j]? = some bounds ∧ row ∈ boundRows (j : ℤ) bounds := by
  simp only [List.mem_flatMap, Prod.exists, List.mem_zipIdx_iff_getElem?]
  exact exists_comm

theorem fitsIn_boundRows {cols j : ℕ} (inside : j < cols) (bounds : Bounds) :
    ∀ row ∈ boundRows (j : ℤ) bounds, row.FitsIn cols := by
  intro row member
  have lower : (0 : ℤ) ≤ j := by omega
  have upper : (j : ℤ) < cols := by omega
  rcases List.mem_append.1 member with member | member
  all_goals
    split at member
    · rw [List.mem_singleton.1 member]
      exact ConstraintRow.fitsIn_unit lower upper _ _
    · cases member

/-- What a row becomes has the line of the row, scaled. -/
theorem exists_scale_of_row {line : Line} {bounds : Bounds} {row : ConstraintRow}
    (made : equality? (line, bounds) = some row ∨ inequality? (line, bounds) = some row) :
    ∃ factor, row.line = line.scale factor := by
  unfold equality? inequality? at made
  rcases made with made | made
  all_goals
    split at made
    all_goals cases made
  all_goals exact ⟨_, rfl⟩

theorem fitsIn_of_row {cols : ℕ} {line : Line} {bounds : Bounds} {row : ConstraintRow}
    (distinct : line.Distinct) (within : line.Within cols)
    (made : equality? (line, bounds) = some row ∨ inequality? (line, bounds) = some row) :
    row.FitsIn cols := by
  obtain ⟨factor, scaled⟩ := exists_scale_of_row made
  rw [ConstraintRow.FitsIn, scaled]
  exact ⟨distinct.scale factor, within.scale factor⟩

/-- Each variable is between its finite bounds if the inequalities of the variables are met. -/
theorem forall_variableRows_iff [IsStrictOrderedRing K] (x : List K) :
    (∀ row ∈ problem.columnBounds.zipIdx.flatMap fun column =>
      boundRows (column.2 : ℤ) column.1, 0 ≤ row.slack (entryAt x)) ↔
    ∀ (j : ℕ) (bounds : Bounds), problem.columnBounds[j]? = some bounds →
      bounds.AdmitsFinite (x.getD j 0) := by
  constructor
  · intro least j bounds bounded
    refine (forall_boundRows_iff bounds (j : ℤ) (entryAt x)).1 fun row own => ?_
    exact least row (mem_boundRows_iff.2 ⟨j, bounds, bounded, own⟩)
  · intro between row member
    obtain ⟨j, bounds, bounded, own⟩ := mem_boundRows_iff.1 member
    exact (forall_boundRows_iff bounds (j : ℤ) (entryAt x)).2 (between j bounds bounded) row own

variable [Machine] (given : input.ReadAs problem) (exact : input.Exact)

include given exact in
theorem represents_of_readAs :
    problem.matrix.Represents problem.rowBounds.length problem.objective.length
      (input.matrix.numberAt problem.objective.length) :=
  Datum.represents_toRows exact.once given.matrix

variable (formed : problem.Formed form)

include given exact in
theorem lineCount_of_readAs : problem.matrix.lines.length = problem.rowBounds.length :=
  (represents_of_readAs given exact).rowCount

include given exact formed

theorem within_row_of_formed (i : ℕ) :
    (problem.matrix.row i).Within problem.objective.length := by
  have within := RowMatrix.within_row formed.inside i
  rwa [(represents_of_readAs given exact).colCount] at within

theorem fit_equalities :
    ∀ row ∈ problem.equalities, row.FitsIn problem.objective.length := by
  intro row member
  obtain ⟨⟨line, bounds⟩, stored, made⟩ := List.mem_filterMap.1 member
  obtain ⟨i, _, rfl⟩ := (mem_rows_iff (lineCount_of_readAs given exact)).1 stored
  exact fitsIn_of_row ((represents_of_readAs given exact).distinct_row i)
    (within_row_of_formed given exact formed i) (Or.inl made)

theorem fit_inequalities :
    ∀ row ∈ problem.inequalities, row.FitsIn problem.objective.length := by
  intro row member
  rcases List.mem_append.1 member with member | member
  · obtain ⟨⟨line, bounds⟩, stored, made⟩ := List.mem_filterMap.1 member
    obtain ⟨i, _, rfl⟩ := (mem_rows_iff (lineCount_of_readAs given exact)).1 stored
    exact fitsIn_of_row ((represents_of_readAs given exact).distinct_row i)
      (within_row_of_formed given exact formed i) (Or.inr made)
  · obtain ⟨j, bounds, bounded, own⟩ := mem_boundRows_iff.1 member
    have inside := (List.getElem?_eq_some_iff.1 bounded).1
    rw [given.columnCount] at inside
    exact fitsIn_boundRows inside bounds row own

theorem value_of_readAs {K : Type*} [Field K] [CharZero K] (x : List K) {i : ℕ}
    (below : i < problem.rowBounds.length) :
    input.program.value x i = (problem.matrix.row i).product (entryAt x) := by
  rw [(represents_of_readAs given exact).product_row formed.inside below]
  simp only [LinearProgram.value, Input.program, Datum.numbers_of_toEntries given.objective,
    length_rationals]

theorem forall_rows_iff [IsStrictOrderedRing K] (x : List K) :
    (∀ (i : ℕ) (bounds : Bounds), problem.rowBounds[i]? = some bounds →
      bounds.Admits (input.program.value x i)) ↔
      (∀ row ∈ problem.equalities, row.slack (entryAt x) = 0) ∧
        ∀ row ∈ problem.rows.filterMap inequality?, 0 ≤ row.slack (entryAt x) := by
  have lineCount := lineCount_of_readAs given exact
  constructor
  · intro admitted
    have own {row : Line × Bounds} (member : row ∈ problem.rows) :
        (∀ made, equality? row = some made → made.slack (entryAt x) = 0) ∧
          ∀ made, inequality? row = some made → 0 ≤ made.slack (entryAt x) := by
      obtain ⟨line, bounds⟩ := row
      obtain ⟨i, bounded, rfl⟩ := (mem_rows_iff lineCount).1 member
      have between := admitted i bounds bounded
      rw [value_of_readAs given exact formed x (List.getElem?_eq_some_iff.1 bounded).1] at between
      exact (admits_row_iff _ _ (formed.kinds bounds (List.mem_of_getElem? bounded))).1 between
    constructor
    · intro made member
      obtain ⟨row, stored, becomes⟩ := List.mem_filterMap.1 member
      exact (own stored).1 made becomes
    · intro made member
      obtain ⟨row, stored, becomes⟩ := List.mem_filterMap.1 member
      exact (own stored).2 made becomes
  · rintro ⟨equal, least⟩ i bounds bounded
    have stored : (problem.matrix.row i, bounds) ∈ problem.rows :=
      (mem_rows_iff lineCount).2 ⟨i, bounded, rfl⟩
    rw [value_of_readAs given exact formed x (List.getElem?_eq_some_iff.1 bounded).1,
      admits_row_iff _ _ (formed.kinds bounds (List.mem_of_getElem? bounded))]
    constructor
    · intro made becomes
      exact equal made (List.mem_filterMap.2 ⟨_, stored, becomes⟩)
    · intro made becomes
      exact least made (List.mem_filterMap.2 ⟨_, stored, becomes⟩)

omit formed in
theorem forall_columns_iff [IsStrictOrderedRing K] (x : List K) :
    (∀ (j : ℕ) (bounds : Bounds), problem.columnBounds[j]? = some bounds →
      bounds.Admits (x.getD j 0)) ↔
      ∀ row ∈ problem.columnBounds.zipIdx.flatMap fun column =>
        boundRows (column.2 : ℤ) column.1, 0 ≤ row.slack (entryAt x) := by
  have sides {j : ℕ} {bounds : Bounds} (bounded : problem.columnBounds[j]? = some bounds) :
      bounds.lower ∈ input.columnLower.numbers ∧ bounds.upper ∈ input.columnUpper.numbers := by
    rw [← given.columnBounds, List.getElem?_zipWith_eq_some] at bounded
    obtain ⟨lower, upper, hasLower, hasUpper, rfl⟩ := bounded
    exact ⟨List.mem_of_getElem? hasLower, List.mem_of_getElem? hasUpper⟩
  rw [forall_variableRows_iff]
  refine forall₃_congr fun j bounds bounded => ?_
  obtain ⟨hasLower, hasUpper⟩ := sides bounded
  refine admits_iff_admitsFinite _ ⟨?_, ?_⟩ ⟨?_, ?_⟩
  · exact fun same => exact.columnLower.1 (same ▸ hasLower)
  · exact fun same => exact.columnLower.2 (same ▸ hasLower)
  · exact fun same => exact.columnUpper.1 (same ▸ hasUpper)
  · exact fun same => exact.columnUpper.2 (same ▸ hasUpper)

/-- The form admits what is feasible for the given problem. -/
theorem feasible_iff_of_formed [IsStrictOrderedRing K] (x : List K) :
    input.program.Feasible x ↔ form.Feasible x := by
  have minimized := Sense.length_toMinimize problem.sense problem.objective
  have rows := StandardForm.feasible_iff_of_madeOf formed.made
    (by rw [minimized]; exact fit_inequalities given exact formed)
    (by rw [minimized]; exact fit_equalities given exact formed) x
  have rowBounds : input.program.rowBounds = problem.rowBounds := given.rowBounds
  have columnBounds : input.program.columnBounds = problem.columnBounds := given.columnBounds
  rw [rows, List.map_nil, Cone.containsProduct_nil (by simp), List.forall_mem_map, inequalities,
    List.forall_mem_append, ← and_assoc, ← forall_rows_iff given exact formed,
    ← forall_columns_iff given exact]
  constructor
  · intro feasible
    have feasibleRows := feasible.rows
    have feasibleColumns := feasible.columns
    rw [rowBounds] at feasibleRows
    rw [columnBounds] at feasibleColumns
    exact ⟨feasibleRows, feasibleColumns⟩
  · rintro ⟨feasibleRows, feasibleColumns⟩
    constructor
    · rwa [rowBounds]
    · rwa [columnBounds]

end Read

/-- All inequalities of a linear problem are in the orthant. -/
theorem npos_of_load [Machine] {input : Input} {form : StandardForm}
    (loaded : load input = .ok form) : form.npos = form.m := by
  obtain ⟨problem, _, built⟩ := Outcome.bind_eq_ok_iff.1 loaded
  have made := (formed_of_standardForm built).made
  rw [made.npos, made.m_eq, List.sum_nil, add_zero]

variable (K) in
theorem restates_of_load [Machine] [IsStrictOrderedRing K] {input : Input} {form : StandardForm}
    (loaded : load input = .ok form) (exact : input.Exact) :
    form.Restates (K := K) input.program.Feasible input.program.objective ∧
      Sense.ofDatum input.sense = .ok form.sense ∧ form.order = VariableOrder.identity form.n ∧
        form.sizes = [] := by
  obtain ⟨problem, read, built⟩ := Outcome.bind_eq_ok_iff.1 loaded
  have given := readAs_of_read read
  have formed := formed_of_standardForm built
  have n : form.n = problem.objective.length := by
    rw [StandardForm.n_of_madeOf formed.made, Sense.length_toMinimize]
  have order : form.order = VariableOrder.identity form.n := by rw [formed.made.order, n]
  have objective : input.program.objective = rationals problem.objective := by
    rw [Input.program, Datum.numbers_of_toEntries given.objective]
  have orthant : form.orthant = .integer form.npos := by
    rw [formed.made.npos, formed.made.orthant]
  refine ⟨⟨⟨List.range form.n, .refl _, ?_⟩, orthant, ?_, fun x size => ?_, fun x size => ?_⟩, ?_,
    order, formed.made.sizes⟩
  · rw [order, VariableOrder.identity_eq_ofReverse]
  · rw [objective, length_rationals, n]
  · rw [order, VariableOrder.toForm_identity size]
    exact feasible_iff_of_formed given exact formed x
  · rw [order, VariableOrder.toForm_identity size, formed.made.c, formed.made.sense,
      Sense.exactDot_toMinimize, objective]
  · rw [formed.made.sense]
    exact given.sense

/-- A vector is feasible for a problem if and only if it meets the equalities and the inequalities
of the form, and the minimized objective is the caller's up to the sign of the sense. -/
theorem feasible_iff_inequalities_of_load [Machine] [IsStrictOrderedRing K] {input : Input}
    {form : StandardForm} (loaded : load input = .ok form) (exact : input.Exact) (x : List K)
    (size : x.length = form.n) :
    (input.program.Feasible x ↔
      (∀ i < form.p, form.A.product x i = ((form.b.getD i .zero).toRat : K)) ∧
        ∀ r < form.m, form.G.product x r ≤ ((form.h.getD r .zero).toRat : K)) ∧
      exactDot (rationals form.c) x = (form.sense.sign : K) * exactDot input.program.objective x ∧
      Sense.ofDatum input.sense = .ok form.sense := by
  obtain ⟨restates, sense, order, sizes⟩ := restates_of_load K loaded exact
  have feasible := restates.feasible_iff x size
  have objective := restates.objective_eq x size
  rw [order, VariableOrder.toForm_identity size] at feasible objective
  rw [StandardForm.feasible_iff_of_sizes_nil sizes (npos_of_load loaded)] at feasible
  exact ⟨feasible, objective, sense⟩

/-- A row of each kind that has a standard form, and variables with one bound and with two. -/
def Input.mixed : Input where
  matrix := .list [.list [.integer 1, .integer 1], .list [.integer 1, .integer (-1)],
    .list [.integer 0, .integer 2]]
  columnLower := .list [.integer 0, .real (.infinity true)]
  columnUpper := .list [.integer 4, .integer 5]
  objective := .list [.integer 1, .integer 2]
  rowLower := .list [.integer 3, .real (.infinity true), .integer 1]
  rowUpper := .list [.integer 3, .integer 2, .real (.infinity false)]
  sense := .sense .maximize

theorem Input.exact_mixed : Input.mixed.Exact where
  objective := by unfold Datum.FiniteVector; decide +kernel
  matrix := by unfold Datum.FiniteMatrix Datum.FiniteVector Input.mixed; decide +kernel
  once := trivial
  rowLower := by decide +kernel
  rowUpper := by decide +kernel
  columnLower := by decide +kernel
  columnUpper := by decide +kernel

theorem load_mixed : ∃ form, load .mixed = .ok form ∧ form.n = 2 :=
  Outcome.exists_of_toOption_map (by decide +kernel)

theorem feasible_iff_inequalities_of_mixed : ∃ form, load .mixed = .ok form ∧
    (Input.mixed.program.Feasible ([2, 1] : List ℚ) ↔
      (∀ i < form.p, form.A.product ([2, 1] : List ℚ) i = (form.b.getD i .zero).toRat) ∧
        ∀ r < form.m, form.G.product ([2, 1] : List ℚ) r ≤ (form.h.getD r .zero).toRat) ∧
    exactDot (rationals form.c) ([2, 1] : List ℚ) =
      (form.sense.sign : ℚ) * exactDot Input.mixed.program.objective ([2, 1] : List ℚ) := by
  obtain ⟨form, loaded, size⟩ := load_mixed
  obtain ⟨feasible, objective, _⟩ :=
    feasible_iff_inequalities_of_load loaded Input.exact_mixed ([2, 1] : List ℚ) size.symm
  exact ⟨form, loaded, feasible, objective⟩

end LinearProblem
end ConicForm
