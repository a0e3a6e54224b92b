import ConicForm.Matrix.Introsort
import ConicForm.Matrix.Stored

/-! A sparse matrix by rows, the layout in which constraint rows are picked, scaled and moved. -/
namespace ConicForm

structure RowMatrix where
  cols : Nat
  lines : List Line
deriving DecidableEq

namespace RowMatrix

def rows (matrix : RowMatrix) : Nat := matrix.lines.length

/-- The row of a number; no entries where there is no such row. -/
def row (matrix : RowMatrix) (i : Nat) : Line := matrix.lines[i]?.getD []

/-- Entries keep their order within their row. -/
def ofEntries (rows cols : Nat) (entries : List Entry) : RowMatrix where
  cols := cols
  lines := (List.range rows).map fun i : Nat =>
    (entries.filter fun entry => entry.row = (i : Int)).map fun entry => (entry.col, entry.value)

def denseLines (cols : Nat) : Nat → List Binary64 → List Line
  | 0, _ => []
  | rows + 1, values => Line.ofDense (values.take cols) :: denseLines cols rows (values.drop cols)

def ofDense (rows cols : Nat) (values : List Binary64) : RowMatrix where
  cols := cols
  lines := denseLines cols rows values

def isInside (matrix : RowMatrix) : Bool :=
  matrix.lines.all fun line => line.all fun entry =>
    decide (0 ≤ entry.1 ∧ entry.1 < (matrix.cols : Int))

def checkInside (matrix : RowMatrix) : Except DataFault Unit :=
  if matrix.isInside then .ok () else .error .malformed

/-- The matrix with ascending rows, where entries that share a position are summed. -/
def settled (matrix : RowMatrix) : RowMatrix :=
  { matrix with lines := Line.settle matrix.lines }

/-- Triplets that share a position are summed; entries gathered by row or by column are kept one
by one. -/
def ofStored (matrix : StoredMatrix) : RowMatrix :=
  let plain := ofEntries matrix.rows matrix.cols matrix.entries
  match matrix.layout with
  | .triplets => plain.settled
  | .byRow | .byColumn => plain

def entries (matrix : RowMatrix) : List Entry :=
  matrix.lines.zipIdx.flatMap fun line => line.1.map fun e => ⟨(line.2 : Int), e.1, e.2⟩

theorem rows_ofEntries (rows cols : Nat) (entries : List Entry) :
    (ofEntries rows cols entries).rows = rows := by
  simp [RowMatrix.rows, ofEntries]

theorem denseLines_eq_map (rows cols : Nat) (values : List Binary64) :
    denseLines cols rows values =
      (List.range rows).map fun i => Line.ofDense ((values.drop (i * cols)).take cols) := by
  induction rows generalizing values with
  | zero => rfl
  | succ rows ih =>
    rw [List.range_succ_eq_map]
    simp [denseLines, ih, List.drop_drop, Function.comp_def, Nat.succ_mul, Nat.add_comm]

theorem rows_ofDense (rows cols : Nat) (values : List Binary64) :
    (ofDense rows cols values).rows = rows := by
  simp [RowMatrix.rows, ofDense, denseLines_eq_map]

theorem rows_ofStored (matrix : StoredMatrix) : (ofStored matrix).rows = matrix.rows := by
  unfold ofStored
  cases matrix.layout <;> simp [RowMatrix.rows, settled, ofEntries, Line.length_settle]

end RowMatrix
end ConicForm
