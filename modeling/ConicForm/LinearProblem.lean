import ConicForm.ConeList
import ConicForm.ConstraintRow

/-! Linear problems: an objective, rows between bounds, and variables between bounds. A row with
two equal bounds becomes an equality; a row with one finite bound becomes an inequality, negated if
the bound is the lower one; every finite bound of a variable becomes an inequality. -/
namespace ConicForm

structure Bounds where
  lower : Binary64
  upper : Binary64
deriving DecidableEq

inductive RowKind where
  | equality
  | atMost
  | atLeast
  | ranged
  | unbounded
deriving DecidableEq

namespace Bounds

/-- A bound that is NaN, or infinite on its own side, makes a row unbounded. -/
def rowKind (bounds : Bounds) : RowKind :=
  if bounds.lower.isFinite && bounds.lower.equals bounds.upper then .equality
  else if bounds.lower = .infinity true ∧ bounds.upper.isFinite then .atMost
  else if bounds.upper = .infinity false ∧ bounds.lower.isFinite then .atLeast
  else if bounds.lower.isFinite ∧ bounds.upper.isFinite then .ranged
  else .unbounded

end Bounds

structure LinearProblem where
  matrix : RowMatrix
  rowBounds : List Bounds
  columnBounds : List Bounds
  objective : List Binary64
  sense : Sense

namespace LinearProblem

def rows (problem : LinearProblem) : List (Line × Bounds) :=
  problem.matrix.lines.zip problem.rowBounds

def rowsOfKind (kind : RowKind) (problem : LinearProblem) : List Nat :=
  (problem.rowBounds.zipIdx.filter fun row => row.1.rowKind == kind).map fun row => row.2

def equality? (row : Line × Bounds) : Option ConstraintRow :=
  match row.2.rowKind with
  | .equality => some (ConstraintRow.scale .one ⟨row.1, row.2.lower⟩)
  | _ => none

def inequality? (row : Line × Bounds) : Option ConstraintRow :=
  match row.2.rowKind with
  | .atMost => some (ConstraintRow.scale .one ⟨row.1, row.2.upper⟩)
  | .atLeast => some (ConstraintRow.scale (-.one) ⟨row.1, row.2.lower⟩)
  | _ => none

/-- The inequalities of a variable: its lower bound, then its upper bound, where finite. -/
def boundRows (col : Int) (bounds : Bounds) : List ConstraintRow :=
  (if bounds.lower.isFinite then [ConstraintRow.unit col (-.one) (-bounds.lower)] else []) ++
    (if bounds.upper.isFinite then [ConstraintRow.unit col .one bounds.upper] else [])

def equalities (problem : LinearProblem) : List ConstraintRow :=
  problem.rows.filterMap equality?

def inequalities (problem : LinearProblem) : List ConstraintRow :=
  problem.rows.filterMap inequality? ++
    problem.columnBounds.zipIdx.flatMap fun column => boundRows (column.2 : Int) column.1

/-- The standard form. All of its inequalities are in the orthant, and variables keep their places.
The kinds of the rows are looked at before their entries are. -/
def standardForm (problem : LinearProblem) : Except Fault StandardForm :=
  match problem.rowsOfKind .ranged, problem.rowsOfKind .unbounded with
  | [], [] =>
    (problem.matrix.checkInside.mapError .data).bind fun _ =>
      StandardForm.ofRows problem.inequalities.length [] problem.inequalities problem.equalities
        (problem.sense.toMinimize problem.objective) problem.sense
        (VariableOrder.identity problem.objective.length)
  | [], unbounded => .error (.constraint (.unboundedRows unbounded))
  | ranged, _ => .error (.constraint (.rangedRows ranged))

structure Input where
  matrix : Datum
  columnLower : Datum
  columnUpper : Datum
  objective : Datum
  rowLower : Datum
  rowUpper : Datum
  sense : Datum

def checkLength (given expected : Nat) (cause : LengthFault) : Except Fault Unit :=
  if given = expected then .ok () else .error (.length cause)

/-- Reads a problem: its sense, then the vectors, then the matrix for their lengths. -/
def read [Machine] (input : Input) : Except Fault LinearProblem := do
  let sense ← Sense.ofDatum input.sense
  let columnLower ← input.columnLower.toVector "collb"
  let columnUpper ← input.columnUpper.toVector "colub"
  let rowLower ← input.rowLower.toVector "rowlb"
  let rowUpper ← input.rowUpper.toVector "rowub"
  let objective ← input.objective.toVector "obj"
  checkLength columnUpper.length columnLower.length .columnBounds
  checkLength rowUpper.length rowLower.length .rowBounds
  checkLength objective.length columnLower.length
    (.objectiveLength objective.length columnLower.length)
  let matrix ← input.matrix.toRows (.integer rowLower.length) (.integer columnLower.length)
  return {
    matrix, objective, sense
    rowBounds := List.zipWith Bounds.mk rowLower rowUpper
    columnBounds := List.zipWith Bounds.mk columnLower columnUpper }

def load [Machine] (input : Input) : Except Fault StandardForm := (read input).bind standardForm

end LinearProblem
end ConicForm
