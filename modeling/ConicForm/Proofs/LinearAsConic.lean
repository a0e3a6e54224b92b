import ConicForm.Proofs.LinearFeasibility
import ConicForm.Proofs.TaggedRows

/-! A linear problem written out as a conic one. Its rows keep their order, a unit row follows for
each finite bound of a variable, and all variables are free. Both loaders give the same form. -/
namespace ConicForm

namespace Bounds

/-- The half-line that a row with one finite bound is put in. -/
def tag (bounds : Bounds) : Option Cone :=
  match bounds.rowKind with
  | .atMost => some .nonneg
  | .atLeast => some .nonpos
  | _ => none

/-- The bound that a row keeps as its right-hand side. -/
def side (bounds : Bounds) : Binary64 :=
  match bounds.rowKind with
  | .atMost => bounds.upper
  | _ => bounds.lower

end Bounds

namespace LinearProblem

def unitNumbers (cols j : ℕ) : List Binary64 :=
  (List.range cols).map fun k => if k = j then .one else .zero

/-- Unit rows for the finite bounds of a variable, the lower one first. -/
def unitRows (cols j : ℕ) (bounds : Bounds) : List ConicProblem.DenseRow :=
  (if bounds.lower.isFinite then [⟨some .nonpos, unitNumbers cols j, bounds.lower⟩] else []) ++
    (if bounds.upper.isFinite then [⟨some .nonneg, unitNumbers cols j, bounds.upper⟩] else [])

/-- The rows of a linear problem, then those of its variables. -/
def denseRows (cols : ℕ) (numbers : List Binary64) (rowBounds columnBounds : List Bounds) :
    List ConicProblem.DenseRow :=
  (rowBounds.zipIdx.map fun row =>
    ⟨row.1.tag, (numbers.drop (row.2 * cols)).take cols, row.1.side⟩) ++
  columnBounds.zipIdx.flatMap fun column => unitRows cols column.2 column.1

/-- The same problem as a conic one. -/
def Input.asConic (input : Input) : ConicProblem.Input :=
  let cols := input.objective.numbers.length
  ConicProblem.Input.ofDenseRows input.objective input.sense cols
    (denseRows cols input.matrix.numbers
      (List.zipWith Bounds.mk input.rowLower.numbers input.rowUpper.numbers)
      (List.zipWith Bounds.mk input.columnLower.numbers input.columnUpper.numbers))

theorem ofDense_unitNumbers {cols j : ℕ} (inside : j < cols) :
    Line.ofDense (unitNumbers cols j) = [((j : ℤ), .one)] := by
  have numbered : (unitNumbers cols j).zipIdx =
      (List.range cols).map fun k => (if k = j then .one else .zero, k) := by
    apply List.ext_getElem (by simp [unitNumbers])
    intro k _ _
    simp [unitNumbers]
  have stored : (List.range cols).filter
      ((fun entry : Binary64 × ℕ => !entry.1.isZero) ∘
        fun k => (if k = j then .one else .zero, k)) = [j] := by
    have only : ((fun entry : Binary64 × ℕ => !entry.1.isZero) ∘
        fun k => (if k = j then .one else .zero, k)) = fun k => k == j := by
      funext k
      by_cases same : k = j
      · simp [same, Binary64.isZero, Binary64.one]
      · simp [same, Binary64.isZero, Binary64.zero]
    rw [only, List.filter_beq, List.count_eq_one_of_mem List.nodup_range (List.mem_range.2 inside)]
    rfl
  rw [Line.ofDense, numbered, List.filter_map, stored]
  simp

theorem inequality?_tag (bounds : Bounds) (line : Line) :
    TaggedRow.inequality? ⟨bounds.tag, ⟨line, bounds.side⟩⟩ = inequality? (line, bounds) := by
  unfold Bounds.tag Bounds.side inequality? TaggedRow.inequality?
  cases bounds.rowKind <;> rfl

theorem equality?_tag {bounds : Bounds} (line : Line)
    (kinds : bounds.rowKind = .equality ∨ bounds.rowKind = .atMost ∨ bounds.rowKind = .atLeast) :
    TaggedRow.equality? ⟨bounds.tag, ⟨line, bounds.side⟩⟩ = equality? (line, bounds) := by
  unfold Bounds.tag Bounds.side equality? TaggedRow.equality?
  rcases kinds with kind | kind | kind
  all_goals rw [kind]

/-- A unit row under a half-line is the inequality of its bound. -/
theorem filterMap_unitRows {cols j : ℕ} (inside : j < cols) (bounds : Bounds) :
    ((unitRows cols j bounds).map ConicProblem.DenseRow.tagged).filterMap
      TaggedRow.inequality? = boundRows (j : ℤ) bounds := by
  have lower : TaggedRow.inequality? (ConicProblem.DenseRow.tagged
      ⟨some .nonpos, unitNumbers cols j, bounds.lower⟩) =
        some (ConstraintRow.unit j (-.one) (-bounds.lower)) := by
    simp [ConicProblem.DenseRow.tagged, TaggedRow.inequality?, ofDense_unitNumbers inside,
      ConicProblem.orthantFactor?, ConstraintRow.scale, ConstraintRow.unit, Line.scale,
      Binary64.neg_one_mul]
  have upper : TaggedRow.inequality? (ConicProblem.DenseRow.tagged
      ⟨some .nonneg, unitNumbers cols j, bounds.upper⟩) =
        some (ConstraintRow.unit j .one bounds.upper) := by
    simp [ConicProblem.DenseRow.tagged, TaggedRow.inequality?, ofDense_unitNumbers inside,
      ConicProblem.orthantFactor?, ConstraintRow.scale, ConstraintRow.unit, Line.scale,
      Binary64.one_mul]
  rw [unitRows, boundRows, List.map_append, List.filterMap_append]
  congr 1
  · split
    · simp [lower]
    · rfl
  · split
    · simp [upper]
    · rfl

theorem equality?_unitRows {cols j : ℕ} {bounds : Bounds} {row : ConicProblem.DenseRow}
    (member : row ∈ unitRows cols j bounds) : TaggedRow.equality? row.tagged = none := by
  rcases List.mem_append.1 member with member | member
  all_goals
    split at member
    · rw [List.mem_singleton.1 member]
      rfl
    · cases member

theorem halfLine_of_tag {bounds : Bounds} {kind : Cone} (tag : bounds.tag = some kind) :
    kind = .nonneg ∨ kind = .nonpos := by
  unfold Bounds.tag at tag
  split at tag
  · exact Or.inl (Option.some.inj tag).symm
  · exact Or.inr (Option.some.inj tag).symm
  · cases tag

theorem of_mem_unitRows {cols j : ℕ} {bounds : Bounds} {row : ConicProblem.DenseRow}
    (member : row ∈ unitRows cols j bounds) :
    row.numbers.length = cols ∧ (row.cone = some .nonneg ∨ row.cone = some .nonpos) := by
  rcases List.mem_append.1 member with member | member
  all_goals
    split at member
    · rw [List.mem_singleton.1 member]
      simp [unitNumbers]
    · cases member

section Dense

variable {problem : LinearProblem} {cols : ℕ} {numbers : List Binary64}

theorem halfLines_denseRows :
    ∀ row ∈ denseRows cols numbers problem.rowBounds problem.columnBounds,
      ∀ kind, row.cone = some kind → kind = .nonneg ∨ kind = .nonpos := by
  intro row member kind tag
  rcases List.mem_append.1 member with member | member
  · obtain ⟨numbered, _, rfl⟩ := List.mem_map.1 member
    exact halfLine_of_tag tag
  · obtain ⟨column, _, own⟩ := List.mem_flatMap.1 member
    rcases (of_mem_unitRows own).2 with same | same
    all_goals
      rw [tag, Option.some.injEq] at same
      simp [same]

theorem widths_denseRows (count : problem.rowBounds.length = 0 ∨
    numbers.length = problem.rowBounds.length * cols) :
    ∀ row ∈ denseRows cols numbers problem.rowBounds problem.columnBounds,
      row.numbers.length = cols := by
  intro row member
  rcases List.mem_append.1 member with member | member
  · obtain ⟨⟨bounds, i⟩, stored, rfl⟩ := List.mem_map.1 member
    have below := List.snd_lt_of_mem_zipIdx stored
    rcases count with none | total
    · omega
    · have room : (i + 1) * cols ≤ problem.rowBounds.length * cols :=
        Nat.mul_le_mul_right cols (by omega)
      rw [Nat.add_mul, Nat.one_mul] at room
      simp only [List.length_take, List.length_drop]
      omega
  · obtain ⟨column, _, own⟩ := List.mem_flatMap.1 member
    exact (of_mem_unitRows own).1

variable (matrix : problem.matrix =
  RowMatrix.ofDense problem.rowBounds.length problem.objective.length numbers)
include matrix

theorem rows_of_dense : problem.rows = problem.rowBounds.zipIdx.map fun row =>
    (Line.ofDense ((numbers.drop (row.2 * problem.objective.length)).take
      problem.objective.length), row.1) := by
  rw [rows, matrix]
  refine List.ext_getElem ?_ fun i _ _ => ?_
  · simp [RowMatrix.ofDense, RowMatrix.denseLines_eq_map]
  · simp [RowMatrix.ofDense, RowMatrix.denseLines_eq_map]

theorem inequalities_of_dense
    (columnCount : problem.columnBounds.length = problem.objective.length) :
    ((denseRows problem.objective.length numbers problem.rowBounds problem.columnBounds).map
      ConicProblem.DenseRow.tagged).filterMap TaggedRow.inequality? = problem.inequalities := by
  rw [denseRows, List.map_append, List.filterMap_append, inequalities, rows_of_dense matrix]
  congr 1
  · rw [List.map_map, List.filterMap_map, List.filterMap_map]
    apply List.filterMap_congr
    intro row _
    exact inequality?_tag _ _
  · rw [List.map_flatMap, List.filterMap_flatMap]
    apply List.flatMap_congr
    intro column member
    have inside := List.snd_lt_of_mem_zipIdx member
    exact filterMap_unitRows (by omega) column.1

theorem equalities_of_dense (kinds : ∀ bounds ∈ problem.rowBounds,
    bounds.rowKind = .equality ∨ bounds.rowKind = .atMost ∨ bounds.rowKind = .atLeast) :
    ((denseRows problem.objective.length numbers problem.rowBounds problem.columnBounds).map
      ConicProblem.DenseRow.tagged).filterMap TaggedRow.equality? = problem.equalities := by
  have units : ((problem.columnBounds.zipIdx.flatMap fun column =>
      unitRows problem.objective.length column.2 column.1).map
        ConicProblem.DenseRow.tagged).filterMap TaggedRow.equality? = [] := by
    rw [List.filterMap_eq_nil_iff, List.forall_mem_map]
    intro row member
    obtain ⟨column, _, own⟩ := List.mem_flatMap.1 member
    exact equality?_unitRows own
  rw [denseRows, List.map_append, List.filterMap_append, units, List.append_nil, equalities,
    rows_of_dense matrix, List.map_map, List.filterMap_map, List.filterMap_map]
  apply List.filterMap_congr
  intro row member
  have stored : row.1 ∈ problem.rowBounds := List.fst_mem_of_mem_zipIdx member
  exact equality?_tag _ (kinds row.1 stored)

end Dense

/-- A linear problem with a dense matrix has the form of the conic problem that it is written out
as. -/
theorem load_asConic [Machine] {input : Input} {form : StandardForm}
    (loaded : load input = .ok form)
    (dense : input.matrix.shape? =
      some [input.rowLower.numbers.length, input.objective.numbers.length])
    (someColumn : 0 < input.objective.numbers.length) :
    ConicProblem.load input.asConic = .ok form := by
  obtain ⟨problem, read, built⟩ := Outcome.bind_eq_ok_iff.1 loaded
  have given := readAs_of_read read
  have formed := formed_of_standardForm built
  have objective := Datum.numbers_of_toEntries given.objective
  rw [objective, given.rowCount] at dense
  rw [objective] at someColumn
  obtain ⟨matrix, count⟩ := Datum.toRows_of_shape dense given.matrix
  have widths := widths_denseRows count
  rw [Input.asConic, objective, given.rowBounds, given.columnBounds]
  have same := ConicProblem.load_ofDenseRows given.sense given.objective someColumn widths
    halfLines_denseRows
  rw [inequalities_of_dense matrix given.columnCount, equalities_of_dense matrix formed.kinds]
    at same
  exact same.trans formed.built

theorem load_asConic_mixed : ∃ form, load .mixed = .ok form ∧
    ConicProblem.load Input.mixed.asConic = .ok form := by
  obtain ⟨form, loaded, _⟩ := load_mixed
  exact ⟨form, loaded, load_asConic loaded (by decide +kernel) (by decide +kernel)⟩

end LinearProblem
end ConicForm
